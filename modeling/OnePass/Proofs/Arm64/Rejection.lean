import OnePass.Proofs.Arm64.Lowering
import OnePass.Proofs.Buffer.Intact

/-!
# Rejected ARM64 operations

An operation over a name that names no register, or over registers that it cannot take, leaves a
failure in the buffer. A buffer that is intact was given operations with instructions only, and it
holds the words of these.
-/

set_option autoImplicit false

namespace OnePass.Arm64

open Writer (Intact Usable)

variable {w : Writer}

def Operand.Known : Operand → Prop
  | .general n => (Gp.ofName? n).isSome
  | .float n => (Fp.ofName? n).isSome

theorem Operand.known_of_rejection? {o : Operand} (h : o.rejection? = none) : o.Known := by
  cases o <;> simpa [Operand.rejection?, Operand.Known, ← Option.isSome_iff_ne_none] using h

def Instr.Accepted (i : Named) : Prop := ∀ o ∈ i.operands, o.Known

theorem Instr.Accepted.general {i : Named} {n : Text} (h : i.Accepted)
    (hn : .general n ∈ i.operands) : ∃ r, Gp.ofName? n = some r :=
  Option.isSome_iff_exists.1 (h _ hn)

theorem Instr.Accepted.isSome_resolve? {i : Named} (h : i.Accepted) : i.resolve?.isSome := by
  cases i <;>
    simp_all [Instr.Accepted, Instr.operands, Instr.resolve?, Operand.Known, Option.isSome_bind]

theorem emit_usable (h : w.Usable) (i : Named) : (emit w i).Usable :=
  ((h.failAll _).note _).append _

theorem intact_rejections {i : Named} (h : (emit w i).Intact) :
    ((i.operands.filterMap Operand.rejection?).foldl Writer.fail w).Intact :=
  Intact.of_note (Intact.of_append h)

theorem intact_of_emit {i : Named} (h : (emit w i).Intact) : w.Intact :=
  Intact.of_failAll (intact_rejections h)

theorem accepted_of_emit (hu : w.Usable) {i : Named} (h : (emit w i).Intact) : i.Accepted := by
  have hnil := hu.eq_nil_of_failAll (intact_rejections h)
  exact fun o ho => Operand.known_of_rejection? (List.filterMap_eq_nil_iff.1 hnil o ho)

theorem emitAll_usable (h : w.Usable) (is : List Named) : (emitAll w is).Usable :=
  h.foldl (fun _ i hu => emit_usable hu i) is

theorem intact_of_emitAll {is : List Named} (h : (emitAll w is).Intact) : w.Intact :=
  Intact.of_foldl (fun _ _ => intact_of_emit) h

theorem accepted_of_emitAll (hu : w.Usable) {is : List Named} (h : (emitAll w is).Intact) :
    ∀ i ∈ is, i.Accepted := by
  induction is generalizing w with
  | nil => simp
  | cons i is ih =>
    have htail : (emitAll (emit w i) is).Intact := h
    exact List.forall_mem_cons.2
      ⟨accepted_of_emit hu (intact_of_emitAll htail), ih (emit_usable hu i) htail⟩

theorem intact_of_land {place : Int64} (h : (land w place).Intact) : w.Intact := by
  unfold land at h
  cases hr : w.buffer.readWord place with
  | error m =>
    rw [hr] at h
    exact h.of_use nofun
  | ok word =>
    simp only [hr] at h
    split at h
    · exact h.of_patchWord
    · exact h.of_fail

/-- A power uses both of its registers before any of its branches lands. -/
theorem intact_of_power {dst src : Text} (hn : ¬(dst = x17 ∨ src = x17 ∨ dst = src))
    (h : (power w dst src).Intact) :
    (emitAll w [.movz x17 1 0, .cmpZero src]).Intact ∧
      ∃ u, (w.Usable → u.Usable) ∧ (emit u (.int .mul x17 x17 dst)).Intact := by
  rw [power, if_neg hn] at h
  have h1 := intact_of_land (intact_of_emit (intact_of_land (intact_of_emit h)))
  have h2 := intact_of_land (intact_of_emitAll (intact_of_emit h1))
  have h3 := intact_of_emit (intact_of_emit (intact_of_emit (intact_of_emit h2)))
  refine ⟨h3, _, fun hu => ?_, h2⟩
  have u1 := emitAll_usable hu [.movz x17 1 0, .cmpZero src]
  exact emit_usable (emit_usable (emit_usable u1 (.bCond less 0)) (.cbz src 0)) (.tbzBit0 src 0)

theorem intact_of_intBinary {op : Operator} {dst src : Text}
    (h : (intBinary w op dst src).Intact) : w.Intact := by
  cases op with
  | add | sub | mul | div => exact intact_of_emit h
  | mod => exact intact_of_emitAll h
  | pow =>
    simp only [intBinary] at h
    by_cases hn : dst = x17 ∨ src = x17 ∨ dst = src
    · rw [power, if_pos hn] at h
      exact h.of_fail
    · exact intact_of_emitAll (intact_of_power hn h).1
  | unknown => exact Intact.of_fail h

theorem intact_of_perform {o : Operation} (h : (perform w o).Intact) : w.Intact := by
  cases o with
  | prologue | epilogue | call a | loadImmediate reg v | loadFloat freg a =>
    exact intact_of_emitAll h
  | push reg | pop reg | pushFloat freg | popFloat freg | intToFloat freg reg | floatToInt reg freg
  | intNegate reg | floatNegate freg => exact intact_of_emit h
  | move dst src | moveFloat dst src => exact Intact.of_ite h id intact_of_emit
  | intBinary op dst src => exact intact_of_intBinary h
  | floatBinary op dst src =>
    cases op with
    | add | sub | mul | div => exact intact_of_emit h
    | mod | pow | unknown => exact Intact.of_fail h

theorem lowered_of_emit (hu : w.Usable) {i : Named} (h : (emit w i).Intact) :
    (single i).isSome := by
  simpa [single] using (accepted_of_emit hu h).isSome_resolve?

theorem lowered_of_intBinary (hu : w.Usable) {op : Operator} {dst src : Text}
    (h : (intBinary w op dst src).Intact) : (lower? (.intBinary op dst src)).isSome := by
  cases op with
  | add | sub | mul | div => exact lowered_of_emit hu h
  | mod =>
    have ha := accepted_of_emitAll hu h (.int .sdiv roles.scratch dst src) (by simp)
    obtain ⟨d, hd⟩ := ha.general (n := dst) (by simp [Instr.operands])
    obtain ⟨s, hs⟩ := ha.general (n := src) (by simp [Instr.operands])
    simp [lower?, hd, hs]
  | pow =>
    simp only [intBinary] at h
    by_cases hn : dst = x17 ∨ src = x17 ∨ dst = src
    · rw [power, if_pos hn] at h
      exact absurd h (hu.not_intact_fail _)
    · obtain ⟨hzero, u, hu', hmul⟩ := intact_of_power hn h
      have hs := accepted_of_emitAll hu hzero (.cmpZero src) (by simp)
      have hd := accepted_of_emit (hu' hu) hmul
      obtain ⟨s, hs⟩ := hs.general (n := src) (by simp [Instr.operands])
      obtain ⟨d, hd⟩ := hd.general (n := dst) (by simp [Instr.operands])
      simp [lower?, hn, hs, hd]
  | unknown => exact absurd h (hu.not_intact_fail _)

/-- An operation that leaves the buffer intact has instructions. -/
theorem lowered_of_perform (hu : w.Usable) {o : Operation} (h : (perform w o).Intact) :
    (lower? o).isSome := by
  cases o with
  | prologue | epilogue | call a => rfl
  | loadImmediate reg v =>
    have ha := accepted_of_emitAll hu h (.movz reg (halfword v 0) 0) (by simp [wideMoves])
    simpa [lower?, Operand.Known] using ha (.general reg) (by simp [Instr.operands])
  | loadFloat freg a =>
    have ha := accepted_of_emitAll hu h (.ldrD freg roles.scratch) (by simp)
    simpa [lower?, Operand.Known] using ha (.float freg) (by simp [Instr.operands])
  | push reg | pop reg | pushFloat freg | popFloat freg | intToFloat freg reg | floatToInt reg freg
  | intNegate reg | floatNegate freg => exact lowered_of_emit hu h
  | move dst src | moveFloat dst src =>
    simp only [perform, lower?] at h ⊢
    split at h
    case isTrue he => rw [if_pos he, Option.isSome_some]
    case isFalse he =>
      rw [if_neg he]
      exact lowered_of_emit hu h
  | intBinary op dst src => exact lowered_of_intBinary hu h
  | floatBinary op dst src =>
    cases op with
    | add | sub | mul | div => exact lowered_of_emit hu h
    | mod | pow | unknown => exact absurd h (hu.not_intact_fail _)

def performAll (w : Writer) (os : List Operation) : Writer := os.foldl perform w

theorem intact_of_performAll {os : List Operation} (h : (performAll w os).Intact) : w.Intact :=
  Intact.of_foldl (fun _ _ => intact_of_perform) h

theorem performAll_written {start : Buffer} {added : Bytes} (h : Written start added w)
    {os : List Operation} (hi : (performAll w os).Intact) :
    (∀ o ∈ os, (lower? o).isSome) ∧
      Written start (added ++ encodeAll (lowerAll os)) (performAll w os) := by
  induction os generalizing added w with
  | nil => exact ⟨by simp, h.of_eq (by simp [lowerAll])⟩
  | cons o os ih =>
    have htail : (performAll (perform w o) os).Intact := hi
    have ho := lowered_of_perform h.usable (intact_of_performAll htail)
    obtain ⟨is, his⟩ := Option.isSome_iff_exists.1 ho
    obtain ⟨hos, hw⟩ := ih (perform_written h his) htail
    refine ⟨List.forall_mem_cons.2 ⟨ho, hos⟩, hw.of_eq ?_⟩
    simp [lowerAll, his]

end OnePass.Arm64
