import OnePass.Proofs.Buffer.Intact

/-!
# Relations that writing keeps

Assemblers note, fail, append and patch, and look at nothing but how far they are. A relation
between writers that these steps keep is therefore kept by whole operations. One such relation
leaves out the trace: what was noted has no influence on what is written. Another one has a silent
writer on its right, which writes the same and has no trace.
-/

set_option autoImplicit false

namespace OnePass

/-- A relation between writers that is kept when both do the same, whatever they note. -/
structure Writer.Congruence (R : Writer → Writer → Prop) : Prop where
  offset : ∀ {w w' : Writer}, R w w' → w'.offset = w.offset
  note : ∀ {w w' : Writer}, R w w' → ∀ e e' : Event, R (w.note e) (w'.note e')
  fail : ∀ {w w' : Writer}, R w w' → ∀ c : Rejection, R (w.fail c) (w'.fail c)
  append : ∀ {w w' : Writer}, R w w' → ∀ bs : Bytes, R (w.append bs) (w'.append bs)
  patchByte : ∀ {w w' : Writer}, R w w' → ∀ (place : Int64) (v : UInt8),
    R (w.patchByte place v) (w'.patchByte place v)

theorem Writer.rel_ite {R : Writer → Writer → Prop} (c : Prop) [Decidable c] {v v' w w' : Writer}
    (h : R w w') (h' : R v v') : R (if c then w else v) (if c then w' else v') := by
  by_cases hc : c
  · rw [if_pos hc, if_pos hc]
    exact h
  · rw [if_neg hc, if_neg hc]
    exact h'

namespace Writer.Congruence

variable {R : Writer → Writer → Prop} (hR : Congruence R) {w w' : Writer}

include hR

theorem failAll (h : R w w') (cs : List Rejection) :
    R (cs.foldl Writer.fail w) (cs.foldl Writer.fail w') := by
  induction cs generalizing w w' with
  | nil => exact h
  | cons c cs ih => exact ih (hR.fail h c)

theorem appendAll (h : R w w') (pieces : List Bytes) :
    R (w.appendAll pieces) (w'.appendAll pieces) := by
  induction pieces generalizing w w' with
  | nil => exact h
  | cons p ps ih => exact ih (hR.append h p)

end Writer.Congruence

/-- A relation between writers on the same buffer that is kept when both make the same use of it,
whatever they note. -/
structure Writer.Lockstep (R : Writer → Writer → Prop) : Prop where
  buffer : ∀ {w w' : Writer}, R w w' → w'.buffer = w.buffer
  note : ∀ {w w' : Writer}, R w w' → ∀ e e' : Event, R (w.note e) (w'.note e')
  use : ∀ {w w' : Writer}, R w w' → ∀ f : Buffer → Except Misuse Buffer, R (w.use f) (w'.use f)

namespace Writer.Lockstep

variable {R : Writer → Writer → Prop} (hR : Lockstep R) {w w' : Writer}

include hR

theorem noteOverflow (h : R w w') (n : Nat) : R (w.noteOverflow n) (w'.noteOverflow n) := by
  unfold Writer.noteOverflow
  rw [hR.buffer h]
  exact rel_ite _ (hR.note h _ _) h

theorem append (h : R w w') (bs : Bytes) : R (w.append bs) (w'.append bs) :=
  hR.use (hR.noteOverflow h bs.length) _

theorem align (h : R w w') (n : Int64) : R (w.align n) (w'.align n) := by
  unfold Writer.align
  rw [hR.buffer h]
  exact hR.use (hR.noteOverflow h _) _

theorem commit (h : R w w') : R w.commit w'.commit := hR.use (hR.note h _ _) _

theorem congruence : Congruence R where
  offset h := congrArg Buffer.offset (hR.buffer h)
  note h := hR.note h
  fail h _ := hR.use h _
  append h := hR.append h
  patchByte h _ _ := hR.use h _

end Writer.Lockstep

structure Writer.Twin (w w' : Writer) : Prop where
  buffer : w'.buffer = w.buffer
  misuse : w'.misuse = w.misuse

theorem Writer.Twin.lockstep : Lockstep Twin where
  buffer h := h.buffer
  note h e e' := by
    refine ⟨?_, ?_⟩
    · rw [buffer_note, buffer_note, h.buffer]
    · rw [misuse_note, misuse_note, h.misuse]
  use {w w'} h f := by
    unfold Writer.use
    rw [h.misuse, h.buffer]
    cases w.misuse with
    | some m => exact h
    | none =>
      cases f w.buffer with
      | ok b => exact ⟨rfl, rfl⟩
      | error m => exact ⟨rfl, rfl⟩

structure Writer.Hushed (w w' : Writer) : Prop extends w.Twin w' where
  silent : w'.verbose = false
  trace : w'.trace = #[]

theorem Writer.Hushed.lockstep : Lockstep Hushed where
  buffer h := h.buffer
  note {w w'} h e e' := by
    refine ⟨Twin.lockstep.note h.toTwin e e', (w'.verbose_note e').trans h.silent, ?_⟩
    rw [Writer.note, if_neg (by simp [h.silent])]
    exact h.trace
  use {w w'} h f := ⟨Twin.lockstep.use h.toTwin f, (w'.verbose_use f).trans h.silent,
    (w'.trace_use f).trans h.trace⟩

end OnePass
