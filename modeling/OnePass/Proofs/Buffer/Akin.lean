import Mathlib.Data.List.Forall2
import OnePass.Proofs.Buffer.Congruence

/-!
# Writers that differ in what they write

Two buffers are akin when they are filled equally far and have failed in the same way, whatever they
hold and wherever they stand. What is done with a buffer and its failures depends on nothing else;
so writers stay akin as long as pieces of the same lengths are appended to both.
-/

set_option autoImplicit false

namespace OnePass

structure Buffer.Akin (b b' : Buffer) : Prop where
  name : b'.name = b.name
  capacity : b'.capacity = b.capacity
  offset : b'.offset = b.offset
  failure : b'.failure = b.failure
  committed : b'.committed = b.committed

structure Writer.Akin (w w' : Writer) : Prop where
  buffer : w.buffer.Akin w'.buffer
  misuse : w'.misuse = w.misuse

namespace Buffer.Akin

variable {b b' : Buffer}

theorem create (name : Text) (size : Nat) (base base' : UInt64) :
    (Buffer.create name size base).Akin (Buffer.create name size base') :=
  ⟨rfl, rfl, rfl, rfl, rfl⟩

theorem overflows (h : b.Akin b') (n : Nat) : b'.overflows n = b.overflows n := by
  rw [Buffer.overflows, Buffer.overflows, h.committed, h.failure, h.capacity, h.offset]

theorem overflow (h : b.Akin b') (n : Nat) : (b.overflow n).Akin (b'.overflow n) where
  name := h.name
  capacity := h.capacity
  offset := h.offset
  failure := by simp only [Buffer.overflow, h.name, h.offset, h.capacity]
  committed := h.committed

theorem fail (h : b.Akin b') (c : Rejection) : (b.fail c).Akin (b'.fail c) := by
  unfold Buffer.fail
  rw [h.failure]
  cases b.failure with
  | some f => exact h
  | none => exact { h with failure := by rw [h.name] }

theorem padding (h : b.Akin b') (n : Int64) : b'.padding n = b.padding n := by
  rw [Buffer.padding, Buffer.padding, h.offset]

end Buffer.Akin

inductive Buffer.AkinResults : Except Misuse Buffer → Except Misuse Buffer → Prop where
  | ok {b b' : Buffer} (h : b.Akin b') : AkinResults (.ok b) (.ok b')
  | error (m : Misuse) : AkinResults (.error m) (.error m)

namespace Buffer.Akin

variable {b b' : Buffer}

theorem append (h : b.Akin b') {bs bs' : Bytes} (hl : bs'.length = bs.length) :
    AkinResults (b.append bs) (b'.append bs') := by
  unfold Buffer.append
  rw [h.committed, h.failure, h.capacity, h.offset, h.name, hl]
  by_cases hc : b.committed = true
  · rw [if_pos hc, if_pos hc]
    exact .error _
  rw [if_neg hc, if_neg hc]
  by_cases hf : b.failure.isSome = true
  · rw [if_pos hf, if_pos hf]
    exact .ok h
  rw [if_neg hf, if_neg hf]
  by_cases ho : b.capacity - b.offset < bs.length
  · rw [if_pos ho, if_pos ho]
    exact .ok (h.overflow bs.length)
  · rw [if_neg ho, if_neg ho]
    refine .ok ⟨rfl, ?_, rfl, rfl, rfl⟩
    simpa [Buffer.capacity] using h.capacity

theorem align (h : b.Akin b') (n : Int64) : AkinResults (b.align n) (b'.align n) := by
  unfold Buffer.align
  dsimp only
  rw [h.padding, h.committed, h.failure, h.offset, h.name, h.overflows]
  by_cases h0 : n = 0
  · rw [if_pos h0, if_pos h0]
    exact .error _
  rw [if_neg h0, if_neg h0]
  by_cases hp : b.padding n < 0
  · rw [if_pos hp, if_pos hp]
    by_cases hc : b.committed = true
    · rw [if_pos hc, if_pos hc]
      exact .error _
    rw [if_neg hc, if_neg hc]
    by_cases hf : b.failure.isSome = true
    · rw [if_pos hf, if_pos hf]
      exact .ok h
    · rw [if_neg hf, if_neg hf]
      exact .error _
  rw [if_neg hp, if_neg hp]
  by_cases ho : b.overflows (b.padding n).toNatClampNeg = true
  · rw [if_pos ho, if_pos ho]
    exact .ok (h.overflow _)
  · rw [if_neg ho, if_neg ho]
    exact h.append rfl

theorem patchByte (h : b.Akin b') (place : Int64) (v v' : UInt8) :
    AkinResults (b.patchByte place v) (b'.patchByte place v') := by
  unfold Buffer.patchByte
  rw [h.committed, h.failure, h.offset, h.name]
  by_cases hc : b.committed = true
  · rw [if_pos hc, if_pos hc]
    exact .error _
  rw [if_neg hc, if_neg hc]
  by_cases hf : b.failure.isSome = true
  · rw [if_pos hf, if_pos hf]
    exact .ok h
  rw [if_neg hf, if_neg hf]
  by_cases ho : place < 0 ∨ place ≥ Int64.ofNat b.offset
  · rw [if_pos ho, if_pos ho]
    exact .ok (h.fail _)
  · rw [if_neg ho, if_neg ho]
    refine .ok ⟨rfl, ?_, rfl, rfl, rfl⟩
    simpa [Buffer.capacity] using h.capacity

end Buffer.Akin

namespace Writer.Akin

variable {w w' : Writer}

theorem offset (h : w.Akin w') : w'.offset = w.offset := h.buffer.offset

theorem note (h : w.Akin w') (e e' : Event) : (w.note e).Akin (w'.note e') := by
  constructor
  · rw [buffer_note, buffer_note]
    exact h.buffer
  · rw [misuse_note, misuse_note]
    exact h.misuse

theorem noteOverflow (h : w.Akin w') (n n' : Nat) :
    (w.noteOverflow n).Akin (w'.noteOverflow n') := by
  constructor
  · rw [buffer_noteOverflow, buffer_noteOverflow]
    exact h.buffer
  · rw [misuse_noteOverflow, misuse_noteOverflow]
    exact h.misuse

theorem use (h : w.Akin w') {f f' : Buffer → Except Misuse Buffer}
    (hf : Buffer.AkinResults (f w.buffer) (f' w'.buffer)) : (w.use f).Akin (w'.use f') := by
  unfold Writer.use
  rw [h.misuse]
  cases w.misuse with
  | some m => exact h
  | none =>
    generalize f w.buffer = r at hf ⊢
    generalize f' w'.buffer = r' at hf ⊢
    cases hf with
    | ok hb => exact ⟨hb, rfl⟩
    | error m => exact ⟨h.buffer, rfl⟩

theorem fail (h : w.Akin w') (c : Rejection) : (w.fail c).Akin (w'.fail c) :=
  h.use (.ok (h.buffer.fail c))

theorem append (h : w.Akin w') {bs bs' : Bytes} (hl : bs'.length = bs.length) :
    (w.append bs).Akin (w'.append bs') := by
  have hn := h.noteOverflow bs.length bs'.length
  exact hn.use (hn.buffer.append hl)

theorem appendAll (h : w.Akin w') {pieces pieces' : List Bytes}
    (hl : List.Forall₂ (fun bs bs' => bs'.length = bs.length) pieces pieces') :
    (w.appendAll pieces).Akin (w'.appendAll pieces') := by
  induction hl generalizing w w' with
  | nil => exact h
  | cons hp _ ih => exact ih (h.append hp)

theorem align (h : w.Akin w') (n : Int64) : (w.align n).Akin (w'.align n) := by
  have hn := h.noteOverflow (w.buffer.padding n).toNatClampNeg (w'.buffer.padding n).toNatClampNeg
  exact hn.use (hn.buffer.align n)

theorem patchByte (h : w.Akin w') (place : Int64) (v v' : UInt8) :
    (w.patchByte place v).Akin (w'.patchByte place v') :=
  h.use (h.buffer.patchByte place v v')

theorem congruence : Congruence Akin where
  offset h := h.offset
  note h := h.note
  fail h := h.fail
  append h _ := h.append rfl
  patchByte h place v := h.patchByte place v v

end Writer.Akin

end OnePass
