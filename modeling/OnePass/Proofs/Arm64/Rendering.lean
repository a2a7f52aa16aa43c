import OnePass.Arm64.Assembler
import OnePass.Proofs.Buffer.Assembly

/-!
# How ARM64 instructions are shown

An instruction is shown as it is written over the names of its registers; a branch that is to be
aimed later is shown without its distance.
-/

set_option autoImplicit false

namespace OnePass.Arm64

def nameIn {R : Type} [DecidableEq R] (table : List (String × R)) (r : R) : Text :=
  ((table.find? (·.2 = r)).map (utf8 ·.1)).getD []

theorem nameIn_of_find? {R : Type} [DecidableEq R] {table : List (String × R)}
    (ht : ∀ e ∈ table, nameIn table e.2 = utf8 e.1) {n : Text} {r : R}
    (h : (table.find? (utf8 ·.1 = n)).map Prod.snd = some r) : nameIn table r = n := by
  obtain ⟨e, he, rfl⟩ := Option.map_eq_some_iff.1 h
  rw [ht e (List.mem_of_find?_eq_some he)]
  simpa using List.find?_some he

def Gp.name (r : Gp) : Text := nameIn Gp.table r

def Fp.name (x : Fp) : Text := nameIn Fp.table x

theorem Gp.name_of_ofName? {n : Text} {r : Gp} (h : Gp.ofName? n = some r) : r.name = n :=
  nameIn_of_find? (by decide) h

theorem Fp.name_of_ofName? {n : Text} {x : Fp} (h : Fp.ofName? n = some x) : x.name = n :=
  nameIn_of_find? (by decide) h

theorem Gp.ofName?_inj {a b : Text} {r : Gp} (ha : Gp.ofName? a = some r)
    (hb : Gp.ofName? b = some r) : a = b :=
  (name_of_ofName? ha).symm.trans (name_of_ofName? hb)

theorem Fp.ofName?_inj {a b : Text} {x : Fp} (ha : Fp.ofName? a = some x)
    (hb : Fp.ofName? b = some x) : a = b :=
  (name_of_ofName? ha).symm.trans (name_of_ofName? hb)

namespace Instr

def map {G G' F F' : Type} (g : G → G') (f : F → F') : Instr G F → Instr G' F'
  | .stpFrame => .stpFrame
  | .ldpFrame => .ldpFrame
  | .movFpSp => .movFpSp
  | .movSpFp => .movSpFp
  | .ret => .ret
  | .strPre t => .strPre (g t)
  | .ldrPost t => .ldrPost (g t)
  | .strPreD t => .strPreD (f t)
  | .ldrPostD t => .ldrPostD (f t)
  | .ldrD t base => .ldrD (f t) (g base)
  | .movz d imm half => .movz (g d) imm half
  | .movk d imm half => .movk (g d) imm half
  | .mov d m => .mov (g d) (g m)
  | .fmov d n => .fmov (f d) (f n)
  | .blr n => .blr (g n)
  | .int op d n m => .int op (g d) (g n) (g m)
  | .msub d n m a => .msub (g d) (g n) (g m) (g a)
  | .neg d m => .neg (g d) (g m)
  | .asrOne d n => .asrOne (g d) (g n)
  | .cmpZero n => .cmpZero (g n)
  | .csel d n m cond => .csel (g d) (g n) (g m) cond
  | .scvtf d n => .scvtf (f d) (g n)
  | .fcvtzs d n => .fcvtzs (g d) (f n)
  | .float op d n m => .float op (f d) (f n) (f m)
  | .fneg d n => .fneg (f d) (f n)
  | .b distance => .b distance
  | .bCond cond distance => .bCond cond distance
  | .cbz t distance => .cbz (g t) distance
  | .tbzBit0 t distance => .tbzBit0 (g t) distance

theorem map_of_resolve? {i : Named} {r : Resolved} (h : i.resolve? = some r) :
    r.map Gp.name Fp.name = i := by
  cases i <;>
    simp only [Instr.resolve?, Option.bind_eq_bind, Option.bind_eq_some_iff, Option.pure_def,
      Option.some.injEq] at h <;>
    grind [Instr.map, Gp.name_of_ofName?, Fp.name_of_ofName?]

def ShownAs (i : Resolved) (t : Text) : Prop := t = (i.map Gp.name Fp.name).text

theorem shownAs_text {i : Named} {r : Resolved} (h : i.resolve? = some r) : r.ShownAs i.text := by
  rw [ShownAs, map_of_resolve? h]

end Instr

end OnePass.Arm64
