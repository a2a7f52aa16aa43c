import OnePass.Arm64.Decoding

/-!
# ARM64 words are read back

The word of an instruction is a pattern with disjoint fields. A field is seen through a mask that
covers it and is not seen through one beside it, so that each word passes the tests of its own
instruction and of no other, and its fields are read back.
-/

set_option autoImplicit false

namespace OnePass.Arm64

def Within (v region : UInt32) : Prop := v &&& region = v

section Masks

variable {v w region mask c M P low : UInt32}

/-- A field is not seen through a mask beside it. -/
theorem Within.hidden (h : Within v region) (hd : region &&& mask = 0) : v &&& mask = 0 := by
  rw [← h, UInt32.and_assoc, hd, UInt32.and_zero]

/-- A field is seen whole through a mask that covers it. -/
theorem Within.seen (h : Within v region) (hd : region &&& mask = region) : v &&& mask = v := by
  rw [← h, UInt32.and_assoc, hd]

/-- A word with a pattern under one mask fails the test for another pattern. -/
theorem ne_of_mask (h : w &&& M = P) (hd : P &&& mask ≠ c &&& M) : ¬w &&& mask = c := by
  rintro rfl
  apply hd
  rw [← h, UInt32.and_assoc, UInt32.and_assoc, UInt32.and_comm M]

theorem ne_of_pattern (h : w &&& M = P) (hd : P ≠ c &&& M) : ¬w = c := by
  rintro rfl
  exact hd h.symm

theorem or_and (a b c : UInt32) : (a ||| b) &&& c = a &&& c ||| b &&& c :=
  UInt32.toBitVec_inj.1 (by simp [BitVec.and_or_distrib_right])

theorem Within.field (h : Within v region) (low : UInt32) :
    Within (field v low) (field region low) := by
  rw [Within, Arm64.field, Arm64.field, ← UInt32.shiftLeft_and, h]

theorem within_of_lt {k : Nat} (h : v.toNat < Nat.pow 2 k)
    (hr : region.toNat = Nat.pow 2 k - 1) : Within v region := by
  apply UInt32.toNat_inj.1
  rw [UInt32.toNat_and, hr]
  exact (Nat.and_two_pow_sub_one_eq_mod _ _).trans (Nat.mod_eq_of_lt h)

theorem shift_back {k : Nat} (hl : low.toNat < 32) (h : v.toNat < Nat.pow 2 k)
    (hk : k + low.toNat ≤ 32) : field v low >>> low = v := by
  have hlt : v.toNat <<< low.toNat < 2 ^ 32 := by
    rw [Nat.shiftLeft_eq]
    calc v.toNat * 2 ^ low.toNat
        < 2 ^ k * 2 ^ low.toNat := Nat.mul_lt_mul_of_pos_right h (Nat.pow_pos (by decide))
      _ = 2 ^ (k + low.toNat) := (Nat.pow_add 2 k low.toNat).symm
      _ ≤ 2 ^ 32 := Nat.pow_le_pow_right (by decide) hk
  apply UInt32.toNat_inj.1
  rw [field, UInt32.toNat_shiftRight, UInt32.toNat_shiftLeft, Nat.mod_eq_of_lt hl,
    Nat.mod_eq_of_lt hlt, Nat.shiftLeft_shiftRight]

theorem read_field {k : Nat} (hw : w &&& field region low = field v low) (hl : low.toNat < 32)
    (h : v.toNat < Nat.pow 2 k) (hr : region.toNat = Nat.pow 2 k - 1) (hk : k + low.toNat ≤ 32) :
    (w >>> low) &&& region = v := by
  have hreg : region.toNat < Nat.pow 2 k := by
    have := Nat.pow_pos (n := k) (show 0 < 2 by decide)
    simp only [Nat.pow_eq] at hr ⊢
    omega
  calc (w >>> low) &&& region
      = (w >>> low) &&& (field region low >>> low) := by rw [shift_back hl hreg hk]
    _ = (w &&& field region low) >>> low := UInt32.shiftRight_and.symm
    _ = v := by rw [hw, shift_back hl h hk]

end Masks

theorem toNat_ofFin (i : Fin 32) : (UInt32.ofNat i).toNat < Nat.pow 2 5 := by
  rw [UInt32.toNat_ofNat_of_lt' (Nat.lt_trans i.isLt (by decide))]
  exact i.isLt

theorem within_code (i : Fin 32) : Within (UInt32.ofNat i) 0x1f :=
  within_of_lt (toNat_ofFin i) rfl

theorem registerField_eq {w low : UInt32} {i : Fin 32} (hl : low.toNat ≤ 16)
    (h : w &&& field 0x1f low = field (UInt32.ofNat i) low) : registerField w low = i := by
  have hw := read_field (k := 5) h (by omega) (toNat_ofFin i) rfl (by omega)
  apply Fin.ext
  simp only [registerField, hw]
  rw [UInt32.toNat_ofNat_of_lt' (Nat.lt_trans i.isLt (by decide)), Nat.mod_eq_of_lt i.isLt]

def Reachable (distance : Int) (width : Nat) : Prop :=
  -(Nat.pow 2 (width - 1) : Int) ≤ distance ∧ distance < (Nat.pow 2 (width - 1) : Int)

instance (distance : Int) (width : Nat) : Decidable (Reachable distance width) :=
  inferInstanceAs (Decidable (_ ∧ _))

theorem toNat_distanceField {d : Int} {width : Nat} (h : width < 32) :
    (distanceField d width).toNat = (d % Nat.pow 2 width).toNat := by
  have hp : Nat.pow 2 width < Nat.pow 2 32 := Nat.pow_lt_pow_right (by decide) h
  have hpos : 0 < Nat.pow 2 width := Nat.pow_pos (by decide)
  have hm := Int.emod_nonneg d (b := Nat.pow 2 width) (by omega)
  have hlt := Int.emod_lt_of_pos d (b := Nat.pow 2 width) (by omega)
  rw [distanceField, UInt32.toNat_ofNat_of_lt']
  change _ < Nat.pow 2 32
  omega

theorem distanceField_lt (d : Int) {width : Nat} (h : width < 32) :
    (distanceField d width).toNat < Nat.pow 2 width := by
  have hpos : 0 < Nat.pow 2 width := Nat.pow_pos (by decide)
  have hm := Int.emod_nonneg d (b := Nat.pow 2 width) (by omega)
  have hlt := Int.emod_lt_of_pos d (b := Nat.pow 2 width) (by omega)
  rw [toNat_distanceField h]
  omega

theorem toInt_shiftRight (x : UInt32) {s : Int32} {n : Nat} (hs : (s.toBitVec.smod 32).toNat = n) :
    (x.toInt32 >>> s).toInt = x.toInt32.toInt / Nat.pow 2 n := by
  have h : (x.toInt32 >>> s).toBitVec = x.toBitVec.sshiftRight n := by
    rw [Int32.toBitVec_shiftRight, ← hs]
    rfl
  exact (congrArg BitVec.toInt h).trans
    (by rw [BitVec.toInt_sshiftRight, Int.shiftRight_eq_div_pow]; rfl)

theorem toInt_toInt32 (x : UInt32) :
    x.toInt32.toInt = if x.toNat < 2147483648 then (x.toNat : Int) else x.toNat - 4294967296 := by
  have h : x.toInt32.toInt = x.toBitVec.toInt := rfl
  have h' : x.toBitVec.toNat = x.toNat := rfl
  have := x.toNat_lt
  rw [h, BitVec.toInt_eq_toNat_cond, h']
  split <;> split <;> omega

/-- A distance is read back from each of the three fields that hold one. -/
theorem signedField_eq {w low width : UInt32} {d : Int} (region : UInt32)
    (hl : (low, width) = (0, 26) ∨ (low, width) = (5, 19) ∨ (low, width) = (5, 14))
    (hr : region.toNat = Nat.pow 2 width.toNat - 1) (hd : Reachable d width.toNat)
    (h : w &&& field region low = field (distanceField d width.toNat) low) :
    signedField w low width = d := by
  have hw := w.toNat_lt
  -- The field as a number; sign extension then is arithmetic modulo a power of two.
  have hn : w.toNat / 2 ^ low.toNat % 2 ^ width.toNat = (d % Nat.pow 2 width.toNat).toNat := by
    have hwidth : width.toNat < 32 := by
      obtain h' | h' | h' := hl <;> cases h' <;> decide
    have hlow : low.toNat < 32 ∧ width.toNat + low.toNat ≤ 32 := by
      obtain h' | h' | h' := hl <;> cases h' <;> decide
    have := congrArg UInt32.toNat
      (read_field h hlow.1 (distanceField_lt d hwidth) hr hlow.2)
    rwa [toNat_distanceField hwidth, UInt32.toNat_and, UInt32.toNat_shiftRight, hr,
      Nat.pow_eq, Nat.and_two_pow_sub_one_eq_mod, Nat.shiftRight_eq_div_pow,
      Nat.mod_eq_of_lt hlow.1] at this
  obtain h' | h' | h' := hl <;> cases h' <;>
  · rw [signedField, toInt_shiftRight _ rfl, toInt_toInt32, UInt32.toNat_shiftLeft]
    simp [Reachable, Nat.shiftLeft_eq] at hd hn ⊢
    split <;> omega

/-- As a rule for rewriting: masks that can be decided to be disjoint. -/
theorem disjoint_of_eq {c mask : UInt32} (h : c &&& mask = 0) : c &&& mask = 0 := h

theorem within_register (i : Fin 32) (low : UInt32) :
    Within (field (UInt32.ofNat i) low) (field 0x1f low) :=
  (within_code i).field low

theorem within_immediate (v : UInt16) (low : UInt32) :
    Within (field v.toUInt32 low) (field 0xffff low) :=
  (within_of_lt (k := 16) (v := v.toUInt32) v.toNat_lt rfl).field low

theorem within_distance (d : Int) (width : Nat) (region : UInt32) (hw : width < 32)
    (hr : region.toNat = Nat.pow 2 width - 1) : Within (distanceField d width) region :=
  within_of_lt (distanceField_lt d hw) hr

theorem gpAt_eq {w low : UInt32} {r : Gp} (hl : low.toNat ≤ 16)
    (h : w &&& field 0x1f low = field (UInt32.ofNat r.index) low) : gpAt w low = r := by
  rw [gpAt, registerField_eq hl h]

theorem fpAt_eq {w low : UInt32} {r : Fp} (hl : low.toNat ≤ 16)
    (h : w &&& field 0x1f low = field (UInt32.ofNat r.index) low) : fpAt w low = r := by
  rw [fpAt, registerField_eq hl h]

theorem field_zero (v : UInt32) : field v 0 = v := UInt32.shiftLeft_zero


/-- How an instruction is recognised: the bits that are fixed, their values, and how the other bits
are read. -/
structure Format where
  mask : UInt32
  pattern : UInt32
  read : UInt32 → Resolved

namespace Instr

def format : Resolved → Format
  | .stpFrame => ⟨0xffffffff, 0xa9bf7bfd, fun _ => .stpFrame⟩
  | .ldpFrame => ⟨0xffffffff, 0xa8c17bfd, fun _ => .ldpFrame⟩
  | .movFpSp => ⟨0xffffffff, 0x910003fd, fun _ => .movFpSp⟩
  | .movSpFp => ⟨0xffffffff, 0x910003bf, fun _ => .movSpFp⟩
  | .ret => ⟨0xffffffff, 0xd65f03c0, fun _ => .ret⟩
  | .strPre _ => ⟨0xffffffe0, 0xf81f0fe0, fun w => .strPre (gpAt w 0)⟩
  | .ldrPost _ => ⟨0xffffffe0, 0xf84107e0, fun w => .ldrPost (gpAt w 0)⟩
  | .strPreD _ => ⟨0xffffffe0, 0xfc1f0fe0, fun w => .strPreD (fpAt w 0)⟩
  | .ldrPostD _ => ⟨0xffffffe0, 0xfc4107e0, fun w => .ldrPostD (fpAt w 0)⟩
  | .ldrD _ _ => ⟨0xfffffc00, 0xfd400000, fun w => .ldrD (fpAt w 0) (gpAt w 5)⟩
  | .movz _ _ _ => ⟨0xff800000, 0xd2800000, fun w =>
    .movz (gpAt w 0) ((w >>> 5) &&& 0xffff).toUInt16 ((w >>> 21) &&& 3)⟩
  | .movk _ _ _ => ⟨0xff800000, 0xf2800000, fun w =>
    .movk (gpAt w 0) ((w >>> 5) &&& 0xffff).toUInt16 ((w >>> 21) &&& 3)⟩
  | .mov _ _ => ⟨0xffe0ffe0, 0xaa0003e0, fun w => .mov (gpAt w 0) (gpAt w 16)⟩
  | .fmov _ _ => ⟨0xfffffc00, 0x1e604000, fun w => .fmov (fpAt w 0) (fpAt w 5)⟩
  | .blr _ => ⟨0xfffffc1f, 0xd63f0000, fun w => .blr (gpAt w 5)⟩
  | .int op _ _ _ => ⟨0xffe0fc00, op.pattern, fun w =>
    .int op (gpAt w 0) (gpAt w 5) (gpAt w 16)⟩
  | .msub _ _ _ _ => ⟨0xffe08000, 0x9b008000, fun w =>
    .msub (gpAt w 0) (gpAt w 5) (gpAt w 16) (gpAt w 10)⟩
  | .neg _ _ => ⟨0xffe0ffe0, 0xcb0003e0, fun w => .neg (gpAt w 0) (gpAt w 16)⟩
  | .asrOne _ _ => ⟨0xfffffc00, 0x9341fc00, fun w => .asrOne (gpAt w 0) (gpAt w 5)⟩
  | .cmpZero _ => ⟨0xfffffc1f, 0xf100001f, fun w => .cmpZero (gpAt w 5)⟩
  | .csel _ _ _ _ => ⟨0xffe00c00, 0x9a800000, fun w =>
    .csel (gpAt w 0) (gpAt w 5) (gpAt w 16) ((w >>> 12) &&& 0xf)⟩
  | .scvtf _ _ => ⟨0xfffffc00, 0x9e620000, fun w => .scvtf (fpAt w 0) (gpAt w 5)⟩
  | .fcvtzs _ _ => ⟨0xfffffc00, 0x9e780000, fun w => .fcvtzs (gpAt w 0) (fpAt w 5)⟩
  | .float op _ _ _ => ⟨0xffe0fc00, op.pattern, fun w =>
    .float op (fpAt w 0) (fpAt w 5) (fpAt w 16)⟩
  | .fneg _ _ => ⟨0xfffffc00, 0x1e614000, fun w => .fneg (fpAt w 0) (fpAt w 5)⟩
  | .b _ => ⟨0xfc000000, 0x14000000, fun w => .b (signedField w 0 26)⟩
  | .bCond _ _ => ⟨0xff000010, 0x54000000, fun w => .bCond (w &&& 0xf) (signedField w 5 19)⟩
  | .cbz _ _ => ⟨0xff000000, 0xb4000000, fun w => .cbz (gpAt w 0) (signedField w 5 19)⟩
  | .tbzBit0 _ _ => ⟨0xfff80000, 0x36000000, fun w =>
    .tbzBit0 (gpAt w 0) (signedField w 5 14)⟩

/-- The instructions whose fields can hold their operands. A subtraction from the zero register is
written as a negation. -/
def Encodable : Resolved → Prop
  | .movz _ _ half => half < 4
  | .movk _ _ half => half < 4
  | .csel _ _ _ condition => condition < 16
  | .int .sub _ n _ => n.index ≠ 31
  | .b distance => Reachable distance 26
  | .bCond condition distance => condition < 16 ∧ Reachable distance 19
  | .cbz _ distance => Reachable distance 19
  | .tbzBit0 _ distance => Reachable distance 14
  | _ => True

theorem decode_of_sub {w : UInt32} (h : w &&& 0xffe0fc00 = 0xcb000000)
    (hn : ¬w &&& 0xffe0ffe0 = 0xcb0003e0) :
    decode w = some (.int .sub (gpAt w 0) (gpAt w 5) (gpAt w 16)) := by
  simp (disch := decide) only [decode, decodeFixed?, decodeMemory?, decodeInteger?, intOp?,
    ne_of_mask h, ne_of_pattern h, h, hn, if_false, if_true]
  rfl

/-- A word of a format is read by it: the tests made before are for other patterns. -/
theorem decode_of_format {w : UInt32} (i : Resolved) (hi : ∀ d n m, i ≠ .int .sub d n m)
    (h : w &&& i.format.mask = i.format.pattern) : decode w = some (i.format.read w) := by
  cases i with
  | stpFrame | ldpFrame | movFpSp | movSpFp | ret =>
    have hw : w = _ := (UInt32.and_neg_one (a := w)).symm.trans h
    rw [hw]
    rfl
  | int op =>
    cases op with
    | sub => exact absurd rfl (hi _ _ _)
    | _ =>
      simp only [format, IntOp.pattern] at h
      simp (disch := decide) only [decode, decodeFixed?, decodeMemory?, decodeInteger?, intOp?,
        ne_of_mask h, ne_of_pattern h, h, if_false, if_true]
      rfl
  | float op =>
    cases op <;> simp only [format, FloatOp.pattern] at h <;>
    · simp (disch := decide) only [decode, decodeFixed?, decodeMemory?, decodeInteger?, intOp?,
        decodeFloat?, floatOp?, ne_of_mask h, ne_of_pattern h, h, if_false, if_true]
      rfl
  | _ =>
    simp only [format] at h
    simp (disch := decide) only [decode, decodeFixed?, decodeMemory?, decodeInteger?, intOp?,
      decodeFloat?, floatOp?, decodeBranch?, ne_of_mask h, ne_of_pattern h, h, if_false, if_true,
      Option.map_none]
    rfl

theorem word_format {i : Resolved} (h : i.Encodable) :
    i.word &&& i.format.mask = i.format.pattern := by
  cases i with
  | stpFrame | ldpFrame | movFpSp | movSpFp | ret => rfl
  | int op | float op =>
    cases op <;>
    · simp (disch := decide) only [word, format, IntOp.pattern, FloatOp.pattern, or_and, Gp.code,
        Fp.code, (within_code _).hidden, (within_register _ _).hidden, UInt32.or_zero]
      rfl
  | movz d imm half | movk d imm half =>
    have hh : Within half 3 := within_of_lt (k := 2) h rfl
    simp (disch := decide) only [word, format, or_and, Gp.code, (within_code _).hidden,
      (within_immediate _ _).hidden, (hh.field _).hidden, UInt32.or_zero]
    rfl
  | csel d n m cond =>
    have hc : Within cond 15 := within_of_lt (k := 4) h rfl
    simp (disch := decide) only [word, format, or_and, Gp.code, (within_code _).hidden,
      (within_register _ _).hidden, (hc.field _).hidden, UInt32.or_zero]
    rfl
  | b d =>
    have hd := within_distance d 26 0x3ffffff (by decide) rfl
    simp (disch := decide) only [word, format, or_and, hd.hidden, UInt32.or_zero]
    rfl
  | bCond cond d =>
    have hc : Within cond 15 := within_of_lt (k := 4) h.1 rfl
    have hd := within_distance d 19 0x7ffff (by decide) rfl
    simp (disch := decide) only [word, format, or_and, hc.hidden, (hd.field _).hidden,
      UInt32.or_zero]
    rfl
  | cbz t d =>
    have hd := within_distance d 19 0x7ffff (by decide) rfl
    simp (disch := decide) only [word, format, or_and, Gp.code, (within_code _).hidden,
      (hd.field _).hidden, UInt32.or_zero]
    rfl
  | tbzBit0 t d =>
    have hd := within_distance d 14 0x3fff (by decide) rfl
    simp (disch := decide) only [word, format, or_and, Gp.code, (within_code _).hidden,
      (hd.field _).hidden, UInt32.or_zero]
    rfl
  | _ =>
    simp (disch := decide) only [word, format, or_and, Gp.code, Fp.code, (within_code _).hidden,
      (within_register _ _).hidden, UInt32.or_zero]
    rfl

theorem read_word {i : Resolved} (h : i.Encodable) : i.format.read i.word = i := by
  cases i with
  | stpFrame | ldpFrame | movFpSp | movSpFp | ret => rfl
  | int op | float op =>
    cases op <;> simp only [format] <;> congr 1 <;>
      first
      | apply gpAt_eq (by decide)
      | apply fpAt_eq (by decide)
    all_goals
      simp (disch := decide) only [word, IntOp.pattern, FloatOp.pattern, or_and, Gp.code, Fp.code,
        (within_code _).seen, (within_code _).hidden, (within_register _ _).seen,
        (within_register _ _).hidden, disjoint_of_eq, field_zero, UInt32.zero_or, UInt32.or_zero]
  | movz d imm half | movk d imm half =>
    have hh : Within half 3 := within_of_lt (k := 2) h rfl
    simp only [format]
    congr 1
    · apply gpAt_eq (by decide)
      simp (disch := decide) only [word, or_and, Gp.code, (within_code _).seen,
        (within_immediate _ _).hidden, (hh.field _).hidden,
        disjoint_of_eq, field_zero, UInt32.zero_or]
    · have hi : imm.toUInt32.toUInt16 = imm := by simp
      rw [read_field (v := imm.toUInt32) (k := 16) _ (by decide) imm.toNat_lt rfl (by decide), hi]
      simp (disch := decide) only [word, or_and, Gp.code, (within_code _).hidden,
        (within_immediate _ _).seen, (hh.field _).hidden,
        disjoint_of_eq, UInt32.zero_or, UInt32.or_zero]
    · apply read_field (k := 2) _ (by decide) h rfl (by decide)
      simp (disch := decide) only [word, or_and, Gp.code, (within_code _).hidden,
        (within_immediate _ _).hidden, (hh.field _).seen,
        disjoint_of_eq, UInt32.zero_or, UInt32.or_zero]
  | csel d n m cond =>
    have hc : Within cond 15 := within_of_lt (k := 4) h rfl
    simp only [format]
    congr 1
    case e_cond =>
      apply read_field (k := 4) _ (by decide) h rfl (by decide)
      simp (disch := decide) only [word, or_and, Gp.code, (within_code _).hidden,
        (within_register _ _).hidden, (hc.field _).seen, disjoint_of_eq, UInt32.zero_or,
        UInt32.or_zero]
    all_goals
      apply gpAt_eq (by decide)
      simp (disch := decide) only [word, or_and, Gp.code, (within_code _).hidden,
        (within_code _).seen, (within_register _ _).hidden, (within_register _ _).seen,
        (hc.field _).hidden, field_zero, disjoint_of_eq, UInt32.zero_or, UInt32.or_zero]
  | b d =>
    have hd := within_distance d 26 0x3ffffff (by decide) rfl
    apply congrArg Instr.b
    apply signedField_eq 0x3ffffff (.inl rfl) rfl h
    simp (disch := decide) only [word, or_and, field_zero, hd.seen, disjoint_of_eq, UInt32.zero_or]
    rfl
  | bCond cond d =>
    have hc : Within cond 15 := within_of_lt (k := 4) h.1 rfl
    have hd := within_distance d 19 0x7ffff (by decide) rfl
    simp only [format, Instr.bCond.injEq]
    constructor
    · simp (disch := decide) only [word, or_and, hc.seen, (hd.field _).hidden, disjoint_of_eq,
        UInt32.zero_or, UInt32.or_zero]
    · apply signedField_eq 0x7ffff (.inr (.inl rfl)) rfl h.2
      simp (disch := decide) only [word, or_and, hc.hidden, (hd.field _).seen, disjoint_of_eq,
        UInt32.zero_or]
      rfl
  | cbz t d =>
    have hd := within_distance d 19 0x7ffff (by decide) rfl
    simp only [format, Instr.cbz.injEq]
    constructor
    · apply gpAt_eq (by decide)
      simp (disch := decide) only [word, or_and, Gp.code, (within_code _).seen, (hd.field _).hidden,
        disjoint_of_eq, field_zero, UInt32.zero_or, UInt32.or_zero]
    · apply signedField_eq 0x7ffff (.inr (.inl rfl)) rfl h
      simp (disch := decide) only [word, or_and, Gp.code, (within_code _).hidden, (hd.field _).seen,
        disjoint_of_eq, UInt32.zero_or]
      rfl
  | tbzBit0 t d =>
    have hd := within_distance d 14 0x3fff (by decide) rfl
    simp only [format, Instr.tbzBit0.injEq]
    constructor
    · apply gpAt_eq (by decide)
      simp (disch := decide) only [word, or_and, Gp.code, (within_code _).seen, (hd.field _).hidden,
        disjoint_of_eq, field_zero, UInt32.zero_or, UInt32.or_zero]
    · apply signedField_eq 0x3fff (.inr (.inr rfl)) rfl h
      simp (disch := decide) only [word, or_and, Gp.code, (within_code _).hidden, (hd.field _).seen,
        disjoint_of_eq, UInt32.zero_or]
      rfl
  | _ =>
    simp only [format]
    congr 1 <;>
      first
      | apply gpAt_eq (by decide)
      | apply fpAt_eq (by decide)
    all_goals
      simp (disch := decide) only [word, or_and, Gp.code, Fp.code,
        (within_code _).seen, (within_code _).hidden, (within_register _ _).seen,
        (within_register _ _).hidden, disjoint_of_eq, field_zero, UInt32.zero_or, UInt32.or_zero]

/-- The first operand of a subtraction tells it from a negation. -/
theorem sub_not_neg {d n m : Gp} (h : n.index ≠ 31) :
    ¬(word (.int .sub d n m)) &&& 0xffe0ffe0 = 0xcb0003e0 := by
  intro hw
  have hn : gpAt (word (.int .sub d n m)) 5 = n := congrArg (fun i => match i with
    | .int _ _ n _ => n
    | _ => n) (read_word (i := .int .sub d n m) h)
  have hzero : gpAt (word (.int .sub d n m)) 5 = ⟨31⟩ := gpAt_eq (by decide) (by
    rw [show field 0x1f 5 = 0xffe0ffe0 &&& field 0x1f 5 by decide, ← UInt32.and_assoc, hw]
    decide)
  exact h (congrArg Gp.index (hn.symm.trans hzero))

/-- The word of an instruction is read back. -/
theorem decode_word {i : Resolved} (h : i.Encodable) : decode i.word = some i := by
  by_cases hi : ∃ d n m, i = .int .sub d n m
  · obtain ⟨d, n, m, rfl⟩ := hi
    have hr := read_word h
    rw [decode_of_sub (word_format h) (sub_not_neg h)]
    exact congrArg some hr
  · have hi' : ∀ d n m, i ≠ .int .sub d n m := fun d n m he => hi ⟨d, n, m, he⟩
    rw [decode_of_format i hi' (word_format h), read_word h]

end Instr

end OnePass.Arm64
