import OnePass.Proofs.Buffer.Growth

/-!
# Buffers without a failure

A failure that a buffer has recorded stays. A writer whose buffer is intact at the end was therefore
intact all along, and nothing that it was asked to write was rejected.
-/

set_option autoImplicit false

namespace OnePass

namespace Writer

def Intact (w : Writer) : Prop := w.buffer.failure = none

/-- A writer that records what goes wrong: nothing was misused, and the buffer takes writes. -/
structure Usable (w : Writer) : Prop where
  misuse : w.misuse = none
  committed : w.buffer.committed = false

variable {w : Writer}

theorem buffer_note (w : Writer) (e : Event) : (w.note e).buffer = w.buffer := by
  unfold note
  split <;> rfl

theorem misuse_note (w : Writer) (e : Event) : (w.note e).misuse = w.misuse := by
  unfold note
  split <;> rfl

theorem misuse_noteOverflow (w : Writer) (n : Nat) : (w.noteOverflow n).misuse = w.misuse := by
  unfold noteOverflow
  split
  · exact w.misuse_note _
  · rfl

@[simp] theorem trace_use (w : Writer) (f : Buffer → Except Misuse Buffer) :
    (w.use f).trace = w.trace := by
  unfold Writer.use
  cases w.misuse with
  | some m => rfl
  | none => cases f w.buffer <;> rfl

@[simp] theorem verbose_note (w : Writer) (e : Event) : (w.note e).verbose = w.verbose := by
  unfold Writer.note
  split <;> rfl

@[simp] theorem verbose_use (w : Writer) (f : Buffer → Except Misuse Buffer) :
    (w.use f).verbose = w.verbose := by
  unfold Writer.use
  cases w.misuse with
  | some m => rfl
  | none => cases f w.buffer <;> rfl

@[simp] theorem verbose_append (w : Writer) (bs : Bytes) :
    (w.append bs).verbose = w.verbose := by
  rw [Writer.append, verbose_use, Writer.noteOverflow]
  split
  · exact w.verbose_note _
  · rfl

@[simp] theorem verbose_appendAll (w : Writer) (pieces : List Bytes) :
    (w.appendAll pieces).verbose = w.verbose := by
  induction pieces generalizing w with
  | nil => rfl
  | cons p ps ih => exact (ih (w.append p)).trans (w.verbose_append p)

namespace Intact

theorem of_foldl {α : Type} {step : Writer → α → Writer}
    (hstep : ∀ u a, (step u a).Intact → u.Intact) {as : List α} (h : (as.foldl step w).Intact) :
    w.Intact := by
  induction as generalizing w with
  | nil => exact h
  | cons a as ih => exact hstep w a (ih h)

theorem of_note {e : Event} (h : (w.note e).Intact) : w.Intact := by
  rwa [Intact, buffer_note] at h

theorem of_use {f : Buffer → Except Misuse Buffer} (h : (w.use f).Intact)
    (hf : ∀ b, w.buffer.failure.isSome → f w.buffer = .ok b → b = w.buffer) : w.Intact := by
  unfold Intact use at *
  cases hs : w.buffer.failure with
  | none => rfl
  | some e =>
    cases hm : w.misuse with
    | some m => simp [hm, hs] at h
    | none =>
      cases hb : f w.buffer with
      | error m => simp [hm, hb, hs] at h
      | ok b => simp [hm, hb, hf b (by simp [hs]) hb, hs] at h

theorem of_fail {c : Rejection} (h : (w.fail c).Intact) : w.Intact := by
  refine h.of_use fun b hs hb => ?_
  obtain ⟨f, hf⟩ := Option.isSome_iff_exists.1 hs
  simpa [Buffer.fail, hf] using hb.symm

theorem of_failAll {cs : List Rejection} (h : (cs.foldl Writer.fail w).Intact) : w.Intact :=
  of_foldl (fun _ _ => of_fail) h

theorem of_append {bs : Bytes} (h : (w.append bs).Intact) : w.Intact := by
  have hb := w.buffer_noteOverflow bs.length
  have hn : (w.noteOverflow bs.length).Intact := by
    refine h.of_use fun b hs hb' => ?_
    simp only [Buffer.append, hs, if_true] at hb'
    split at hb' <;> cases hb'
    rfl
  rwa [Intact, hb] at hn

theorem of_appendAll {pieces : List Bytes} (h : (w.appendAll pieces).Intact) : w.Intact :=
  of_foldl (fun _ _ => of_append) h

theorem of_patchByte {place : Int64} {v : UInt8} (h : (w.patchByte place v).Intact) :
    w.Intact := by
  refine h.of_use fun b hs hb => ?_
  simp only [Buffer.patchByte, hs, if_true] at hb
  split at hb <;> cases hb
  rfl

theorem of_patchWord {place : Int64} {v : UInt32} (h : (w.patchWord place v).Intact) :
    w.Intact := by
  refine h.of_use fun b hs hb => ?_
  simp only [Buffer.patchWord, hs, if_true] at hb
  split at hb <;> cases hb
  rfl

theorem of_ite {c : Prop} [Decidable c] {u v : Writer} (h : (if c then u else v).Intact)
    (hu : u.Intact → w.Intact) (hv : v.Intact → w.Intact) : w.Intact := by
  by_cases hc : c
  · rw [if_pos hc] at h
    exact hu h
  · rw [if_neg hc] at h
    exact hv h

end Intact

namespace Usable

theorem foldl {α : Type} {step : Writer → α → Writer} (h : w.Usable)
    (hstep : ∀ u a, u.Usable → (step u a).Usable) (as : List α) : (as.foldl step w).Usable := by
  induction as generalizing w with
  | nil => exact h
  | cons a as ih => exact ih (hstep w a h)

theorem note (h : w.Usable) (e : Event) : (w.note e).Usable :=
  ⟨(w.misuse_note e).trans h.misuse, by rw [w.buffer_note]; exact h.committed⟩

theorem noteOverflow (h : w.Usable) (n : Nat) : (w.noteOverflow n).Usable :=
  ⟨(w.misuse_noteOverflow n).trans h.misuse, by rw [w.buffer_noteOverflow]; exact h.committed⟩

theorem use (h : w.Usable) {f : Buffer → Except Misuse Buffer} {b : Buffer}
    (hf : f w.buffer = .ok b) (hb : b.committed = false) : (w.use f).Usable := by
  rw [Writer.use_ok h.misuse hf]
  exact ⟨h.misuse, hb⟩

theorem fail (h : w.Usable) (c : Rejection) : (w.fail c).Usable := by
  refine h.use (b := w.buffer.fail c) rfl ?_
  unfold Buffer.fail
  cases w.buffer.failure <;> exact h.committed

theorem failAll (h : w.Usable) (cs : List Rejection) : (cs.foldl Writer.fail w).Usable :=
  h.foldl (fun _ c hu => hu.fail c) cs

theorem append (h : w.Usable) (bs : Bytes) : (w.append bs).Usable := by
  have hn := h.noteOverflow bs.length
  obtain ⟨b, hb, hc⟩ : ∃ b, (w.noteOverflow bs.length).buffer.append bs = .ok b ∧
      b.committed = false := by
    simp only [Buffer.append, hn.committed, Bool.false_eq_true, if_false]
    split
    · exact ⟨_, rfl, hn.committed⟩
    · split
      · exact ⟨_, rfl, hn.committed⟩
      · exact ⟨_, rfl, rfl⟩
  exact hn.use hb hc

theorem appendAll (h : w.Usable) (pieces : List Bytes) : (w.appendAll pieces).Usable :=
  h.foldl (fun _ p hu => hu.append p) pieces

theorem not_intact_fail (h : w.Usable) (c : Rejection) : ¬(w.fail c).Intact := by
  rw [Writer.fail, Writer.use_ok (b := w.buffer.fail c) h.misuse rfl]
  unfold Intact Buffer.fail
  cases hf : w.buffer.failure <;> simp [hf]

theorem eq_nil_of_failAll (h : w.Usable) {cs : List Rejection}
    (hi : (cs.foldl Writer.fail w).Intact) : cs = [] := by
  cases cs with
  | nil => rfl
  | cons c cs =>
    have hc : (w.fail c).Intact := Intact.of_failAll hi
    exact absurd hc (h.not_intact_fail c)

end Usable

end Writer

theorem Written.usable {start : Buffer} {added : Bytes} {w : Writer}
    (h : Written start added w) : w.Usable := ⟨h.misuse, h.committed⟩

theorem Written.bytes_of_intact {start : Buffer} {added : Bytes} {w : Writer}
    (h : Written start added w) (h0 : start.offset = 0) (hi : w.Intact) :
    w.buffer.bytes = added := by
  have hempty : start.bytes = [] := List.length_eq_zero_iff.1 (start.length_bytes.trans h0)
  rw [(h.fits (h.failure_eq_none_iff.1 hi)).2, hempty, List.nil_append]

end OnePass
