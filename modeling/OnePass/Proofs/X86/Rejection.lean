import OnePass.Proofs.Buffer.Intact
import OnePass.Proofs.X86.Lowering

/-!
# Rejected x86-64 operations

An operation over a name that names no register, or over registers that it cannot take, leaves a
failure in the buffer. A buffer that is intact was given operations with instructions only, and it
holds the bytes of these.
-/

set_option autoImplicit false

namespace OnePass.X86

open Writer (Intact Usable)

variable {w : Writer}

def Operand.Known : Operand → Prop
  | .general n => (Gp.ofName? n).isSome
  | .float n => (Xmm.ofName? n).isSome

theorem Operand.known_of_rejection? {o : Operand} (h : o.rejection? = none) : o.Known := by
  cases o <;> simpa [Operand.rejection?, Operand.Known, ← Option.isSome_iff_ne_none] using h

def Instr.Accepted (i : Named) : Prop := ∀ o ∈ i.operands, o.Known

theorem Instr.Accepted.general {i : Named} {n : Text} (h : i.Accepted)
    (hn : .general n ∈ i.operands) : ∃ r, Gp.ofName? n = some r :=
  Option.isSome_iff_exists.1 (h _ hn)

theorem Instr.Accepted.float {i : Named} {n : Text} (h : i.Accepted)
    (hn : .float n ∈ i.operands) : ∃ x, Xmm.ofName? n = some x :=
  Option.isSome_iff_exists.1 (h _ hn)

theorem Instr.Accepted.isSome_resolve? {i : Named} (h : i.Accepted) : i.resolve?.isSome := by
  cases i <;>
    simp_all [Instr.Accepted, Instr.operands, Instr.resolve?, Operand.Known, Option.isSome_bind]

theorem emit_usable (h : w.Usable) (i : Named) : (emit w i).Usable := by
  unfold emit
  cases longBase? i with
  | none => exact ((h.failAll _).note _).appendAll _
  | some base => exact (h.failAll _).fail _

theorem intact_rejections {i : Named} (h : (emit w i).Intact) :
    ((i.operands.filterMap Operand.rejection?).foldl Writer.fail w).Intact := by
  unfold emit at h
  cases hb : longBase? i with
  | none =>
    rw [hb] at h
    exact Intact.of_note (Intact.of_appendAll h)
  | some base =>
    rw [hb] at h
    exact Intact.of_fail h

theorem intact_of_emit {i : Named} (h : (emit w i).Intact) : w.Intact :=
  Intact.of_failAll (intact_rejections h)

theorem accepted_of_emit (hu : w.Usable) {i : Named} (h : (emit w i).Intact) : i.Accepted := by
  have hnil := hu.eq_nil_of_failAll (intact_rejections h)
  exact fun o ho => Operand.known_of_rejection? (List.filterMap_eq_nil_iff.1 hnil o ho)

theorem emitAll_usable (h : w.Usable) (is : List Named) : (emitAll w is).Usable :=
  h.foldl (fun _ i hu => emit_usable hu i) is

theorem intact_of_emitAll {is : List Named} (h : (emitAll w is).Intact) : w.Intact :=
  Intact.of_foldl (fun _ _ => intact_of_emit) h

theorem accepted_of_emitAll (hu : w.Usable) {is : List Named} (h : (emitAll w is).Intact) :
    ∀ i ∈ is, i.Accepted := by
  induction is generalizing w with
  | nil => simp
  | cons i is ih =>
    have htail : (emitAll (emit w i) is).Intact := h
    exact List.forall_mem_cons.2
      ⟨accepted_of_emit hu (intact_of_emitAll htail), ih (emit_usable hu i) htail⟩

theorem jumpForward_usable (h : w.Usable) (opcode : UInt8) (label : Text) :
    (jumpForward w opcode label).2.Usable :=
  (h.note _).append _

theorem intact_of_jumpForward {opcode : UInt8} {label : Text}
    (h : (jumpForward w opcode label).2.Intact) : w.Intact :=
  Intact.of_note (Intact.of_append h)

theorem intact_of_jumpBack {opcode : UInt8} {label : Text} {target : Int64}
    (h : (jumpBack w opcode label target).Intact) : w.Intact := by
  simp only [jumpBack] at h
  split at h
  · exact Intact.of_note (Intact.of_append h)
  · exact h.of_fail

theorem intact_of_land {place : Int64} (h : (land w place).Intact) : w.Intact := by
  simp only [land] at h
  split at h
  · exact h.of_patchByte
  · exact h.of_fail

theorem intact_of_floatToInt {reg freg : Text} (h : (floatToInt w reg freg).Intact) :
    (emitAll w [.cvttsd2si reg freg, .cmpImm reg 1]).Intact := by
  have h1 := intact_of_emit (intact_of_land (intact_of_land (intact_of_land h)))
  have h2 := intact_of_emit (intact_of_jumpForward (intact_of_land h1))
  have h3 := intact_of_emitAll (intact_of_jumpForward h2)
  exact intact_of_jumpForward (intact_of_emit (intact_of_jumpForward h3))

theorem intact_of_divide {op : Operator} {dst src : Text}
    (hn : ¬(dst ≠ rax ∨ src = rax ∨ src = rdx)) (h : (divide w op dst src).Intact) :
    (emit w (.test src src)).Intact := by
  rw [divide, if_neg hn] at h
  have h1 := intact_of_emit (intact_of_land (intact_of_land h))
  have h2 := intact_of_jumpForward (intact_of_land h1)
  have h3 := intact_of_land (Intact.of_ite h2 intact_of_emit intact_of_emit)
  have h4 := Intact.of_ite (intact_of_jumpForward h3) intact_of_emit id
  have h5 := intact_of_jumpForward (intact_of_emitAll h4)
  exact intact_of_jumpForward (intact_of_emit h5)

/-- A power uses both of its registers before any of its jumps lands. -/
theorem intact_of_power {dst src : Text} (hn : ¬(dst = rdx ∨ src = rdx ∨ dst = src))
    (h : (power w dst src).Intact) :
    (emitAll w [.movEdx 1, .test src src]).Intact ∧
      ∃ u, (w.Usable → u.Usable) ∧ (emit u (.imul rdx dst)).Intact := by
  rw [power, if_neg hn] at h
  have h1 := intact_of_land (intact_of_emit (intact_of_land (intact_of_emit h)))
  have h2 := intact_of_land (intact_of_emitAll (intact_of_jumpBack h1))
  have h3 := intact_of_emit (intact_of_jumpForward (intact_of_emit h2))
  have h4 := intact_of_jumpForward (intact_of_emit (intact_of_jumpForward h3))
  refine ⟨h4, _, fun hu => ?_, h2⟩
  have u1 := jumpForward_usable (emitAll_usable hu [.movEdx 1, .test src src]) js (utf8 "js neg")
  have u2 := jumpForward_usable (emit_usable u1 (.test src src)) jz (utf8 "jz done")
  exact jumpForward_usable (emit_usable u2 (.testImm src 1)) jz (utf8 "jz skip")

theorem intact_of_intBinary {op : Operator} {dst src : Text}
    (h : (intBinary w op dst src).Intact) : w.Intact := by
  cases op with
  | add | sub | mul => exact intact_of_emit h
  | div | mod =>
    simp only [intBinary] at h
    by_cases hn : dst ≠ rax ∨ src = rax ∨ src = rdx
    · rw [divide, if_pos hn] at h
      exact h.of_fail
    · exact intact_of_emit (intact_of_divide hn h)
  | pow =>
    simp only [intBinary] at h
    by_cases hn : dst = rdx ∨ src = rdx ∨ dst = src
    · rw [power, if_pos hn] at h
      exact h.of_fail
    · exact intact_of_emitAll (intact_of_power hn h).1
  | unknown => exact Intact.of_fail h

theorem intact_of_perform {o : Operation} (h : (perform w o).Intact) : w.Intact := by
  cases o with
  | prologue | epilogue | call a | loadFloat freg a | push reg | pop reg | pushFloat freg
  | popFloat freg | floatNegate freg => exact intact_of_emitAll h
  | loadImmediate reg v | intToFloat freg reg | intNegate reg => exact intact_of_emit h
  | move dst src | moveFloat dst src => exact Intact.of_ite h id intact_of_emit
  | floatToInt reg freg => exact intact_of_emitAll (intact_of_floatToInt h)
  | intBinary op dst src => exact intact_of_intBinary h
  | floatBinary op dst src =>
    cases op with
    | add | sub | mul | div => exact intact_of_emit h
    | mod | pow | unknown => exact Intact.of_fail h

theorem lowered_of_emit (hu : w.Usable) {i : Named} (h : (emit w i).Intact) :
    (single i).isSome := by
  simpa [single] using (accepted_of_emit hu h).isSome_resolve?

theorem lowered_of_intBinary (hu : w.Usable) {op : Operator} {dst src : Text}
    (h : (intBinary w op dst src).Intact) : (lower? (.intBinary op dst src)).isSome := by
  cases op with
  | add | sub | mul => exact lowered_of_emit hu h
  | div | mod =>
    simp only [intBinary] at h
    by_cases hn : dst ≠ rax ∨ src = rax ∨ src = rdx
    · rw [divide, if_pos hn] at h
      exact absurd h (hu.not_intact_fail _)
    · have ha := accepted_of_emit hu (intact_of_divide hn h)
      simpa [lower?, hn, Instr.Accepted, Instr.operands, Operand.Known] using ha
  | pow =>
    simp only [intBinary] at h
    by_cases hn : dst = rdx ∨ src = rdx ∨ dst = src
    · rw [power, if_pos hn] at h
      exact absurd h (hu.not_intact_fail _)
    · obtain ⟨htest, u, hu', himul⟩ := intact_of_power hn h
      have hs := accepted_of_emitAll hu htest (.test src src) (by simp)
      have hd := accepted_of_emit (hu' hu) himul
      obtain ⟨r, hr⟩ := hs.general (n := src) (by simp [Instr.operands])
      obtain ⟨d, hd⟩ := hd.general (n := dst) (by simp [Instr.operands])
      simp [lower?, hn, hr, hd]
  | unknown => exact absurd h (hu.not_intact_fail _)

/-- An operation that leaves the buffer intact has instructions. -/
theorem lowered_of_perform (hu : w.Usable) {o : Operation} (h : (perform w o).Intact) :
    (lower? o).isSome := by
  cases o with
  | prologue | epilogue | call a => rfl
  | loadImmediate reg v | intToFloat freg reg | intNegate reg => exact lowered_of_emit hu h
  | loadFloat freg a | push reg | pop reg | pushFloat freg | popFloat freg | floatNegate freg =>
    have ha := accepted_of_emitAll hu h
    simp_all [lower?, Instr.Accepted, Instr.operands, Operand.Known]
  | floatToInt reg freg =>
    have ha := accepted_of_emitAll hu (intact_of_floatToInt h) (.cvttsd2si reg freg) (by simp)
    obtain ⟨r, hr⟩ := ha.general (n := reg) (by simp [Instr.operands])
    obtain ⟨x, hx⟩ := ha.float (n := freg) (by simp [Instr.operands])
    simp [lower?, hr, hx]
  | move dst src | moveFloat dst src =>
    simp only [perform, lower?] at h ⊢
    split at h
    case isTrue he => rw [if_pos he, Option.isSome_some]
    case isFalse he =>
      rw [if_neg he]
      exact lowered_of_emit hu h
  | intBinary op dst src => exact lowered_of_intBinary hu h
  | floatBinary op dst src =>
    cases op with
    | add | sub | mul | div => exact lowered_of_emit hu h
    | mod | pow | unknown => exact absurd h (hu.not_intact_fail _)

def performAll (w : Writer) (os : List Operation) : Writer := os.foldl perform w

theorem intact_of_performAll {os : List Operation} (h : (performAll w os).Intact) : w.Intact :=
  Intact.of_foldl (fun _ _ => intact_of_perform) h

theorem performAll_written {start : Buffer} {added : Bytes} (h : Written start added w)
    {os : List Operation} (hi : (performAll w os).Intact) :
    (∀ o ∈ os, (lower? o).isSome) ∧
      Written start (added ++ encodeAll (lowerAll os)) (performAll w os) := by
  induction os generalizing added w with
  | nil => exact ⟨by simp, h.of_eq (by simp [lowerAll])⟩
  | cons o os ih =>
    have htail : (performAll (perform w o) os).Intact := hi
    have ho := lowered_of_perform h.usable (intact_of_performAll htail)
    obtain ⟨is, his⟩ := Option.isSome_iff_exists.1 ho
    obtain ⟨hos, hw⟩ := ih (perform_written h his) htail
    refine ⟨List.forall_mem_cons.2 ⟨ho, hos⟩, hw.of_eq ?_⟩
    simp [lowerAll, his]

end OnePass.X86
