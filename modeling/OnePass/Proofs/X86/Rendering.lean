import OnePass.Proofs.Buffer.Assembly
import OnePass.Proofs.X86.Encoding
import OnePass.X86.Assembler

/-!
# How x86-64 instructions are shown

An instruction is shown as it is written over the names of its registers. A jump is shown by its
kind and the name of a place, with its distance only if it leads back.
-/

set_option autoImplicit false

namespace OnePass.X86

theorem Gp.name_of_ofName? {n : Text} {r : Gp} (h : Gp.ofName? n = some r) : r.name = n := by
  simpa using List.find?_some h

theorem Xmm.name_of_ofName? {n : Text} {x : Xmm} (h : Xmm.ofName? n = some x) : x.name = n := by
  simpa using List.find?_some h

namespace Instr

def map {G G' X X' : Type} (g : G → G') (f : X → X') : Instr G X → Instr G' X'
  | .pushRbp => .pushRbp
  | .popRbp => .popRbp
  | .movRbpRsp => .movRbpRsp
  | .movRspRbp => .movRspRbp
  | .ret => .ret
  | .subRsp n => .subRsp n
  | .addRsp n => .addRsp n
  | .storeRsp src => .storeRsp (g src)
  | .loadRsp dst => .loadRsp (g dst)
  | .storeRspSd src => .storeRspSd (f src)
  | .loadRspSd dst => .loadRspSd (f dst)
  | .loadSd dst base => .loadSd (f dst) (g base)
  | .movImm dst imm => .movImm (g dst) imm
  | .movEdx imm => .movEdx imm
  | .mov dst src => .mov (g dst) (g src)
  | .xor32 reg => .xor32 (g reg)
  | .call reg => .call (g reg)
  | .add dst src => .add (g dst) (g src)
  | .sub dst src => .sub (g dst) (g src)
  | .imul dst src => .imul (g dst) (g src)
  | .cqo => .cqo
  | .idiv src => .idiv (g src)
  | .neg reg => .neg (g reg)
  | .sarOne reg => .sarOne (g reg)
  | .test a b => .test (g a) (g b)
  | .testImm reg imm => .testImm (g reg) imm
  | .not reg => .not (g reg)
  | .cmpImm reg imm => .cmpImm (g reg) imm
  | .jump opcode distance => .jump opcode distance
  | .sse op dst src => .sse op (f dst) (f src)
  | .xorpd dst src => .xorpd (f dst) (f src)
  | .ucomisd a b => .ucomisd (f a) (f b)
  | .movq dst src => .movq (f dst) (g src)
  | .cvtsi2sd dst src => .cvtsi2sd (f dst) (g src)
  | .cvttsd2si dst src => .cvttsd2si (g dst) (f src)

/-- An instruction over names is the one that they name, over the names of its registers. -/
theorem map_of_resolve? {i : Named} {r : Resolved} (h : i.resolve? = some r) :
    r.map Gp.name Xmm.name = i := by
  cases i <;>
    simp only [Instr.resolve?, Option.bind_eq_bind, Option.bind_eq_some_iff, Option.pure_def,
      Option.some.injEq] at h <;>
    grind [Instr.map, Gp.name_of_ofName?, Xmm.name_of_ofName?]

end Instr

def jumpName (opcode : UInt8) : Text :=
  if opcode = jno then utf8 "jno"
  else if opcode = jz then utf8 "jz"
  else if opcode = jbe then utf8 "jbe"
  else if opcode = js then utf8 "js"
  else if opcode = jp then utf8 "jp"
  else if opcode = jmp then utf8 "jmp"
  else []

def places : List Text := ["done", "loop", "nan", "neg", "negone", "skip", "zero"].map utf8

def Labels (opcode : UInt8) (label : Text) : Prop :=
  ∃ place ∈ places, label = jumpName opcode ++ utf8 " " ++ place

instance decidableLabels (opcode : UInt8) (label : Text) : Decidable (Labels opcode label) :=
  inferInstanceAs (Decidable (∃ place ∈ places, label = jumpName opcode ++ utf8 " " ++ place))

namespace Instr

def ShownAs : Resolved → Text → Prop
  | .jump opcode d, t => ∃ label, Labels opcode label ∧
      t = label ++ utf8 " " ++
        if 0 ≤ d.toInt then utf8 "<fixup>" else Text.explicitlySigned d.toInt
  | i, t => t = (i.map Gp.name Xmm.name).text

def isJump {G X : Type} : Instr G X → Bool
  | .jump _ _ => true
  | _ => false

theorem shownAs_text {i : Named} {r : Resolved} (h : i.resolve? = some r)
    (hj : i.isJump = false) : r.ShownAs i.text := by
  obtain rfl := map_of_resolve? h
  cases r with
  | jump opcode d => cases hj
  | _ => rfl

theorem shownAs_forward {opcode : UInt8} {d d' : Int8} (hd : 0 ≤ d.toInt) (hd' : 0 ≤ d'.toInt)
    {t : Text} (h : ShownAs (.jump opcode d) t) : ShownAs (.jump opcode d') t := by
  obtain ⟨label, hl, ht⟩ := h
  rw [if_pos hd] at ht
  exact ⟨label, hl, by rw [if_pos hd', ht]⟩

theorem shownAs_plain {i : Resolved} {t : Text} (h : i.ShownAs t) : i.plain.ShownAs t := by
  cases i with
  | movRbpRsp | movRspRbp => exact Eq.trans h (by decide)
  | _ => exact h

end Instr

end OnePass.X86
