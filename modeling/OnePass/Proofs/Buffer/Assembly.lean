import Mathlib.Data.List.Forall2
import OnePass.Proofs.Buffer.Intact

/-!
# Instructions that are written and listed

An assembler notes every instruction at the offset where it is about to write it. As long as
everything fits, the instructions that the trace tells of are those in the buffer one by one, each
with the offset of its first byte. A distance that is set later does not change what was listed.
-/

set_option autoImplicit false

namespace OnePass

def Event.isInstruction : Event → Bool
  | .x86 _ _ | .arm64 _ _ => true
  | _ => false

def Trace.instructions (t : Trace) : List Event := t.toList.filter Event.isInstruction

namespace Writer

variable (w : Writer)

theorem instructions_note {e : Event} (he : e.isInstruction = false) :
    (w.note e).trace.instructions = w.trace.instructions := by
  unfold Writer.note
  split <;> simp [Trace.instructions, he]

variable {w} in
theorem instructions_note_instruction (hv : w.verbose = true) (hm : w.misuse = none) {e : Event}
    (he : e.isInstruction = true) :
    (w.note e).trace.instructions = w.trace.instructions ++ [e] := by
  simp [Writer.note, hv, hm, Trace.instructions, he]

theorem instructions_noteOverflow (n : Nat) :
    (w.noteOverflow n).trace.instructions = w.trace.instructions := by
  unfold Writer.noteOverflow
  split
  · exact w.instructions_note rfl
  · rfl

@[simp] theorem instructions_append (bs : Bytes) :
    (w.append bs).trace.instructions = w.trace.instructions := by
  rw [Writer.append, trace_use, instructions_noteOverflow]

@[simp] theorem instructions_appendAll (pieces : List Bytes) :
    (w.appendAll pieces).trace.instructions = w.trace.instructions := by
  induction pieces generalizing w with
  | nil => rfl
  | cons p ps ih => exact (ih (w.append p)).trans (w.instructions_append p)

@[simp] theorem instructions_align (n : Int64) :
    (w.align n).trace.instructions = w.trace.instructions := by
  rw [Writer.align, trace_use, instructions_noteOverflow]

theorem instructions_commit : w.commit.trace.instructions = w.trace.instructions := by
  rw [Writer.commit, trace_use]
  exact w.instructions_note rfl

end Writer

section Located

variable {I : Type} (encode : I → Bytes)

def located : Nat → List I → List (Nat × I)
  | _, [] => []
  | n, i :: is => (n, i) :: located (n + (encode i).length) is

theorem located_append (n : Nat) (is js : List I) : located encode n (is ++ js) =
    located encode n is ++ located encode (n + (is.flatMap encode).length) js := by
  induction is generalizing n with
  | nil => rfl
  | cons i is ih => simp [located, ih, Nat.add_assoc]

theorem length_flatMap_set {encode : I → Bytes} {k : Nat} {is : List I} {i j : I}
    (hk : is[k]? = some i) (hlen : (encode j).length = (encode i).length) :
    ((is.set k j).flatMap encode).length = (is.flatMap encode).length := by
  induction is generalizing k with
  | nil => cases hk
  | cons i' is ih =>
    cases k with
    | zero =>
      obtain rfl : i' = i := Option.some.inj hk
      simp [hlen]
    | succ k =>
      rw [List.set_cons_succ, List.flatMap_cons, List.flatMap_cons, List.length_append,
        List.length_append, ih hk]

def Event.Shows (ShownAs : I → Text → Prop) (e : Event) (p : Nat × I) : Prop :=
  ∃ t, e.line = Event.instructionLine p.1 t ∧ ShownAs p.2 t

variable {encode} {ShownAs : I → Text → Prop}

/-- One instruction is replaced by another that is as long and listed alike. -/
theorem forall₂_located_set {n k : Nat} {is : List I} {es : List Event}
    (h : List.Forall₂ (Event.Shows ShownAs) es (located encode n is)) {i j : I}
    (hk : is[k]? = some i) (hlen : (encode j).length = (encode i).length)
    (hshow : ∀ t, ShownAs i t → ShownAs j t) :
    List.Forall₂ (Event.Shows ShownAs) es (located encode n (is.set k j)) := by
  induction is generalizing n k es with
  | nil => cases hk
  | cons i' is ih =>
    cases h with
    | cons he hes =>
      cases k with
      | zero =>
        obtain rfl : i' = i := Option.some.inj hk
        obtain ⟨t, hline, ht⟩ := he
        refine .cons ⟨t, hline, hshow t ht⟩ ?_
        rwa [hlen]
      | succ k => exact .cons he (ih hes hk)

end Located

section Assembled

variable {I : Type}

/-- The writer `w` started on `start`, behind `added`, and was to write instructions. If it is
verbose, it has listed them behind those that `origin` had listed. -/
structure Assembled (encode : I → Bytes) (ShownAs : I → Text → Prop) (start : Buffer)
    (added : Bytes) (origin : Writer) (is : List I) (w : Writer) : Prop where
  written : Written start (added ++ is.flatMap encode) w
  verbose : w.verbose = origin.verbose
  listed : origin.verbose = true → start.Fits (added ++ is.flatMap encode).length →
    ∃ es, w.trace.instructions = origin.trace.instructions ++ es ∧
      List.Forall₂ (Event.Shows ShownAs) es (located encode (start.offset + added.length) is)

namespace Assembled

variable {encode : I → Bytes} {ShownAs : I → Text → Prop} {start : Buffer} {added : Bytes}
  {origin : Writer} {is : List I} {w w' : Writer}

theorem begin (h : Written start added w) : Assembled encode ShownAs start added w [] w where
  written := h.of_eq (List.append_nil _).symm
  verbose := rfl
  listed _ _ := ⟨[], (List.append_nil _).symm, .nil⟩

theorem of_eq (h : Assembled encode ShownAs start added origin is w) {js : List I}
    (he : is = js) : Assembled encode ShownAs start added origin js w := he ▸ h

/-- Nothing is said of what was listed once the buffer has overflowed. -/
theorem of_overflow (h : Written start (added ++ is.flatMap encode) w)
    (hv : w.verbose = origin.verbose) (hf : ¬start.Fits (added ++ is.flatMap encode).length) :
    Assembled encode ShownAs start added origin is w :=
  ⟨h, hv, fun _ hf' => absurd hf' hf⟩

theorem snoc (h : Assembled encode ShownAs start added origin is w) {i : I} {e : Event}
    (hw : Written start (added ++ (is ++ [i]).flatMap encode) w') (hv : w'.verbose = w.verbose)
    (hl : w.verbose = true → start.Fits (added ++ (is ++ [i]).flatMap encode).length →
      w'.trace.instructions = w.trace.instructions ++ [e] ∧ e.Shows ShownAs (w.offset, i)) :
    Assembled encode ShownAs start added origin (is ++ [i]) w' where
  written := hw
  verbose := hv.trans h.verbose
  listed ho hf := by
    have hf' : start.Fits (added ++ is.flatMap encode).length := by
      simp only [Buffer.Fits, List.flatMap_append, List.length_append] at hf ⊢
      omega
    obtain ⟨es, hes, hall⟩ := h.listed ho hf'
    obtain ⟨htrace, hshow⟩ := hl (h.verbose.trans ho) hf
    refine ⟨es ++ [e], ?_, ?_⟩
    · rw [htrace, hes, List.append_assoc]
    · rw [h.written.offset hf', List.length_append, ← Nat.add_assoc] at hshow
      rw [located_append]
      exact List.rel_append hall (.cons hshow .nil)

theorem set (h : Assembled encode ShownAs start added origin is w) {k : Nat} {i j : I}
    (hk : is[k]? = some i) (hw : Written start (added ++ (is.set k j).flatMap encode) w')
    (hv : w'.verbose = w.verbose) (ht : w'.trace = w.trace)
    (hlen : (encode j).length = (encode i).length)
    (hshow : ∀ t, ShownAs i t → ShownAs j t) :
    Assembled encode ShownAs start added origin (is.set k j) w' where
  written := hw
  verbose := hv.trans h.verbose
  listed ho hf := by
    rw [List.length_append, length_flatMap_set hk hlen, ← List.length_append] at hf
    obtain ⟨es, hes, hall⟩ := h.listed ho hf
    exact ⟨es, ht ▸ hes, forall₂_located_set hall hk hlen hshow⟩

end Assembled

end Assembled

end OnePass
