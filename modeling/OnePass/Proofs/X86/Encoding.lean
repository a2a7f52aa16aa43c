import OnePass.Proofs.Buffer.Bytes
import OnePass.X86.Decoding
import OnePass.X86.Encoding

/-!
# x86-64 instructions read back

Decoding undoes encoding: the bytes of an instruction, whatever follows them, are read as that
instruction, and exactly its bytes are taken. The REX byte and the operand byte split a register
number into a high bit and three low bits; everything else is a matter of the opcode.
-/

set_option autoImplicit false

namespace OnePass.X86

theorem toNat_gpCode (r : Gp) : r.code.toNat = r.index.val :=
  UInt8.toNat_ofNat_of_lt' (Nat.lt_trans r.index.isLt (by decide))

theorem toNat_xmmCode (x : Xmm) : x.code.toNat = x.index.val :=
  UInt8.toNat_ofNat_of_lt' (Nat.lt_trans x.index.isLt (by decide))

theorem gpCode_lt (r : Gp) : r.code.toNat < 16 := toNat_gpCode r ▸ r.index.isLt

theorem xmmCode_lt (x : Xmm) : x.code.toNat < 16 := toNat_xmmCode x ▸ x.index.isLt

/-- A number below a bound is one of finitely many, so facts about all of them can be checked. -/
theorem exists_fin_of_lt {n : Nat} {a : UInt8} (h : a.toNat < n) :
    ∃ i : Fin n, a = UInt8.ofNat i.val :=
  ⟨⟨a.toNat, h⟩, UInt8.ofNat_toNat.symm⟩

theorem rex_fields (w : Bool) (a b : UInt8) (ha : a.toNat < 16) (hb : b.toNat < 16) :
    (rex w a b).toNat / 16 = 4 ∧ (rex w a b).toNat / 2 % 2 = 0 ∧
      decide ((rex w a b).toNat / 8 % 2 = 1) = w ∧
      decide ((rex w a b).toNat / 4 % 2 = 1) = decide (8 ≤ a.toNat) ∧
      decide ((rex w a b).toNat % 2 = 1) = decide (8 ≤ b.toNat) := by
  obtain ⟨i, rfl⟩ := exists_fin_of_lt ha
  obtain ⟨j, rfl⟩ := exists_fin_of_lt hb
  clear ha hb
  revert w i j
  decide

theorem rex_eq_plain (w : Bool) (a b : UInt8) (ha : a.toNat < 16) (hb : b.toNat < 16)
    (h : rex w a b = 0x40) : w = false ∧ decide (8 ≤ a.toNat) = false ∧
      decide (8 ≤ b.toNat) = false := by
  obtain ⟨i, rfl⟩ := exists_fin_of_lt ha
  obtain ⟨j, rfl⟩ := exists_fin_of_lt hb
  clear ha hb
  revert w i j
  decide

theorem ofByte_modrm (mode a b : UInt8) (hm : mode.toNat < 4) (ha : a.toNat < 16)
    (hb : b.toNat < 16) :
    ModRm.ofByte (modrm mode a b) = ⟨mode.toNat, a.toNat % 8, b.toNat % 8⟩ := by
  obtain ⟨k, rfl⟩ := exists_fin_of_lt hm
  obtain ⟨i, rfl⟩ := exists_fin_of_lt ha
  obtain ⟨j, rfl⟩ := exists_fin_of_lt hb
  clear hm ha hb
  revert k i j
  decide

def rexOf (w : Bool) (a b : UInt8) : Rex := ⟨w, decide (8 ≤ a.toNat), decide (8 ≤ b.toNat)⟩

theorem splitRex_rex (w : Bool) (a b : UInt8) (ha : a.toNat < 16) (hb : b.toNat < 16)
    (rest : Bytes) : splitRex (rex w a b :: rest) = (some (rexOf w a b), rest) := by
  obtain ⟨h16, h2, h8, h4, h1⟩ := rex_fields w a b ha hb
  simp only [splitRex, h16, h2, and_self, if_true, h8, h4, h1, rexOf]

theorem splitRex_other (b : UInt8) (rest : Bytes) (h : b.toNat / 16 ≠ 4) :
    splitRex (b :: rest) = (none, b :: rest) := by
  simp [splitRex, h]

/-- A REX piece before a byte that is none is split off, and says what it was made from even when
it was left out. -/
theorem splitRex_rexPiece (w : Bool) (a b opcode : UInt8) (ha : a.toNat < 16) (hb : b.toNat < 16)
    (rest : Bytes) (ho : opcode.toNat / 16 ≠ 4) :
    ∃ x?, splitRex ((rexPiece w a b).flatten ++ opcode :: rest) = (x?, opcode :: rest) ∧
      x?.getD plainRex = rexOf w a b := by
  unfold rexPiece
  split
  · rename_i h
    obtain ⟨hw, ha8, hb8⟩ := rex_eq_plain w a b ha hb h
    refine ⟨none, splitRex_other _ _ ho, ?_⟩
    simp only [rexOf, hw, ha8, hb8]
    rfl
  · exact ⟨some (rexOf w a b), splitRex_rex w a b ha hb _, rfl⟩

theorem number_split (n : Nat) (hn : n < 16) : number (decide (8 ≤ n)) (n % 8) = ⟨n, hn⟩ := by
  apply Fin.ext
  simp only [number]
  by_cases h : 8 ≤ n <;> simp [h] <;> omega

@[simp] theorem number_gp (r : Gp) :
    number (decide (8 ≤ r.code.toNat)) (r.code.toNat % 8) = r.index := by
  rw [number_split _ (gpCode_lt r)]
  exact Fin.ext (toNat_gpCode r)

@[simp] theorem number_xmm (x : Xmm) :
    number (decide (8 ≤ x.code.toNat)) (x.code.toNat % 8) = x.index := by
  rw [number_split _ (xmmCode_lt x)]
  exact Fin.ext (toNat_xmmCode x)

def Lead.bytes : Lead → Bytes
  | .none => []
  | .f2 => [0xf2]
  | .x66 => [0x66]

theorem decode_twoByte (lead : Lead) (w : Bool) (opcode mode a b : UInt8) (hm : mode.toNat < 4)
    (ha : a.toNat < 16) (hb : b.toNat < 16) (rest : Bytes) :
    decode (lead.bytes ++ (rexPiece w a b).flatten ++
        0x0f :: opcode :: modrm mode a b :: rest) =
      decodeTwoByte lead (rexOf w a b) opcode ⟨mode.toNat, a.toNat % 8, b.toNat % 8⟩ rest := by
  have hlead : splitLead (lead.bytes ++ (rexPiece w a b).flatten ++
      0x0f :: opcode :: modrm mode a b :: rest) =
        (lead, (rexPiece w a b).flatten ++ 0x0f :: opcode :: modrm mode a b :: rest) := by
    cases lead with
    | f2 => rfl
    | x66 => rfl
    | none =>
      unfold rexPiece
      split
      · rfl
      · obtain ⟨h16, -⟩ := rex_fields w a b ha hb
        have h1 : rex w a b ≠ 0xf2 := fun h => by simp [h] at h16
        have h2 : rex w a b ≠ 0x66 := fun h => by simp [h] at h16
        simp [splitLead, Lead.bytes, h1, h2]
  obtain ⟨x?, hsplit, hx⟩ := splitRex_rexPiece w a b 0x0f ha hb
    (opcode :: modrm mode a b :: rest) (by decide)
  simp only [decode, hlead, hsplit, hx, ofByte_modrm mode a b hm ha hb]

theorem rexPiece_wide (a b : UInt8) (ha : a.toNat < 16) (hb : b.toNat < 16) :
    rexPiece true a b = [[rex true a b]] := by
  unfold rexPiece
  rw [if_neg]
  intro h
  exact Bool.noConfusion (rex_eq_plain true a b ha hb h).1

theorem splitLead_rex (w : Bool) (a b : UInt8) (ha : a.toNat < 16) (hb : b.toNat < 16)
    (rest : Bytes) : splitLead (rex w a b :: rest) = (.none, rex w a b :: rest) := by
  obtain ⟨h16, -⟩ := rex_fields w a b ha hb
  have h1 : rex w a b ≠ 0xf2 := fun h => by simp [h] at h16
  have h2 : rex w a b ≠ 0x66 := fun h => by simp [h] at h16
  simp [splitLead, h1, h2]

def takesOperands (opcode : UInt8) : Bool :=
  opcode ∈ [0x89, 0x8b, 0x01, 0x29, 0x85, 0xd1, 0xf7, 0x83, 0x31, 0xff]

theorem takesOperands_cases {opcode : UInt8} (h : takesOperands opcode = true) :
    opcode = 0x89 ∨ opcode = 0x8b ∨ opcode = 0x01 ∨ opcode = 0x29 ∨ opcode = 0x85 ∨
      opcode = 0xd1 ∨ opcode = 0xf7 ∨ opcode = 0x83 ∨ opcode = 0x31 ∨ opcode = 0xff := by
  simpa [takesOperands] using h

theorem decode_wide (opcode mode a b : UInt8) (hm : mode.toNat < 4) (ha : a.toNat < 16)
    (hb : b.toNat < 16) (ho : takesOperands opcode = true) (rest : Bytes) :
    decode (rex true a b :: opcode :: modrm mode a b :: rest) =
      decodeWide (rexOf true a b) opcode ⟨mode.toNat, a.toNat % 8, b.toNat % 8⟩ rest := by
  simp only [decode, splitLead_rex _ a b ha hb, splitRex_rex _ a b ha hb]
  obtain rfl | rfl | rfl | rfl | rfl | rfl | rfl | rfl | rfl | rfl := takesOperands_cases ho <;>
    simp [decodeOneByte, rexOf, ofByte_modrm mode a b hm ha hb]

theorem decode_narrow (opcode mode a b : UInt8) (hm : mode.toNat < 4) (ha : a.toNat < 16)
    (hb : b.toNat < 16) (ho : takesOperands opcode = true) (rest : Bytes) :
    decode ((rexPiece false a b).flatten ++ opcode :: modrm mode a b :: rest) =
      decodeNarrow (rexOf false a b) opcode ⟨mode.toNat, a.toNat % 8, b.toNat % 8⟩ rest := by
  have hlead : splitLead ((rexPiece false a b).flatten ++
      opcode :: modrm mode a b :: rest) =
        (.none, (rexPiece false a b).flatten ++ opcode :: modrm mode a b :: rest) := by
    unfold rexPiece
    split
    · obtain rfl | rfl | rfl | rfl | rfl | rfl | rfl | rfl | rfl | rfl :=
        takesOperands_cases ho <;> rfl
    · exact splitLead_rex _ a b ha hb _
  have h4 : opcode.toNat / 16 ≠ 4 := by
    obtain rfl | rfl | rfl | rfl | rfl | rfl | rfl | rfl | rfl | rfl :=
      takesOperands_cases ho <;> decide
  obtain ⟨x?, hsplit, hx⟩ := splitRex_rexPiece false a b opcode ha hb
    (modrm mode a b :: rest) h4
  simp only [decode, hlead, hsplit]
  have hnarrow : x?.getD plainRex = rexOf false a b := hx
  obtain rfl | rfl | rfl | rfl | rfl | rfl | rfl | rfl | rfl | rfl := takesOperands_cases ho <;>
    simp [decodeOneByte, isShortJump, hnarrow, rexOf, ofByte_modrm mode a b hm ha hb]

theorem decode_regReg_wide (opcode a b : UInt8) (ha : a.toNat < 16) (hb : b.toNat < 16)
    (ho : takesOperands opcode = true) (rest : Bytes) :
    decode ((regReg [] true [opcode] a b).flatten ++ rest) =
      decodeWide (rexOf true a b) opcode ⟨3, a.toNat % 8, b.toNat % 8⟩ rest := by
  have h := decode_wide opcode 3 a b (by decide) ha hb ho rest
  simpa [regReg, rexPiece_wide a b ha hb] using h

theorem decode_regReg_narrow (opcode a b : UInt8) (ha : a.toNat < 16) (hb : b.toNat < 16)
    (ho : takesOperands opcode = true) (rest : Bytes) :
    decode ((regReg [] false [opcode] a b).flatten ++ rest) =
      decodeNarrow (rexOf false a b) opcode ⟨3, a.toNat % 8, b.toNat % 8⟩ rest := by
  have h := decode_narrow opcode 3 a b (by decide) ha hb ho rest
  simpa [regReg] using h

theorem decode_regReg_twoByte (lead : Lead) (w : Bool) (opcode a b : UInt8) (ha : a.toNat < 16)
    (hb : b.toNat < 16) (rest : Bytes) :
    decode (lead.bytes ++ (regReg [] w [0x0f, opcode] a b).flatten ++ rest) =
      decodeTwoByte lead (rexOf w a b) opcode ⟨3, a.toNat % 8, b.toNat % 8⟩ rest := by
  have h := decode_twoByte lead w opcode 3 a b (by decide) ha hb rest
  simpa [regReg] using h

theorem decode_regReg_f2 (w : Bool) (opcode a b : UInt8) (ha : a.toNat < 16)
    (hb : b.toNat < 16) (rest : Bytes) :
    decode ((regReg [[0xf2]] w [0x0f, opcode] a b).flatten ++ rest) =
      decodeTwoByte .f2 (rexOf w a b) opcode ⟨3, a.toNat % 8, b.toNat % 8⟩ rest := by
  have h := decode_twoByte .f2 w opcode 3 a b (by decide) ha hb rest
  simpa [regReg, Lead.bytes] using h

theorem decode_regReg_x66 (w : Bool) (opcode a b : UInt8) (ha : a.toNat < 16)
    (hb : b.toNat < 16) (rest : Bytes) :
    decode ((regReg [[0x66]] w [0x0f, opcode] a b).flatten ++ rest) =
      decodeTwoByte .x66 (rexOf w a b) opcode ⟨3, a.toNat % 8, b.toNat % 8⟩ rest := by
  have h := decode_twoByte .x66 w opcode 3 a b (by decide) ha hb rest
  simpa [regReg, Lead.bytes] using h

theorem readImmediate_littleEndian (n v : Nat) (rest : Bytes) (hv : v < Nat.pow 256 n) :
    readImmediate n (littleEndian n v ++ rest) = some (v, rest) := by
  have hlen := length_littleEndian n v
  rw [readImmediate, if_pos (by simp), List.take_left' hlen, List.drop_left' hlen,
    ofLittleEndian_littleEndian, Nat.mod_eq_of_lt hv]

namespace Instr

/-- The instruction that a decoder reports for the bytes of this one. -/
def plain : Resolved → Resolved
  | .movRbpRsp => .mov .rbp .rsp
  | .movRspRbp => .mov .rsp .rbp
  | i => i

/-- The instructions that their bytes determine: a load needs a base that the short form can
address, a jump one of the short opcodes. -/
def Encodable : Resolved → Prop
  | .loadSd _ base => base.needsLongBase = false
  | .jump opcode _ => isShortJump opcode = true
  | _ => True

theorem rex_stack (w : Bool) (a : UInt8) : rex w a 0 = rex w a 4 := rfl

theorem rexPiece_stack (w : Bool) (a : UInt8) : rexPiece w a 0 = rexPiece w a 4 := rfl

theorem rexPiece_call (r : Gp) :
    rexPiece false 2 r.code = if 8 ≤ r.code then [[0x41]] else [] := by
  by_cases h : 8 ≤ r.code
  · simp only [rexPiece, rex, h, if_true]
    rfl
  · simp [rexPiece, rex, h]

theorem decode_loadSd (x : Xmm) (base : Gp) (h : base.needsLongBase = false) (rest : Bytes) :
    decode ((Instr.loadSd x base).encode ++ rest) = some (.loadSd x base, rest) := by
  have hd := decode_twoByte .f2 false 0x10 0 x.code base.code (by decide) (xmmCode_lt x)
    (gpCode_lt base) rest
  have hbase : base.code.toNat % 8 ≠ 4 ∧ base.code.toNat % 8 ≠ 5 := by
    rw [toNat_gpCode]
    simpa [Gp.needsLongBase] using h
  simpa [encode, pieces, Lead.bytes, decodeTwoByte, decodeFloatMove, hbase, rexOf, regOf, rmOf]
    using hd

theorem decode_movImm (r : Gp) (imm : UInt64) (rest : Bytes) :
    decode ((Instr.movImm r imm).encode ++ rest) = some (.movImm r imm, rest) := by
  have hr := gpCode_lt r
  have ho : (0xb8 + (r.code &&& 7)).toNat = 0xb8 + r.code.toNat % 8 := by
    obtain ⟨i, hi⟩ := exists_fin_of_lt hr
    rw [hi]
    clear hi hr
    revert i
    decide
  have hdiv : (0xb8 + r.code.toNat % 8) / 8 = 23 := by omega
  have hmod : (0xb8 + r.code.toNat % 8) % 8 = r.code.toNat % 8 := by omega
  have hne (c : UInt8) (hc : c.toNat / 8 ≠ 23) : 0xb8 + (r.code &&& 7) ≠ c := by
    intro h
    rw [← h, ho] at hc
    exact hc hdiv
  simp only [encode, pieces, List.flatten_cons, List.flatten_nil, List.append_nil,
    List.cons_append, List.nil_append, decode, splitLead_rex true 0 r.code (by decide) hr,
    splitRex_rex true 0 r.code (by decide) hr]
  split
  · rename_i h
    exact absurd (List.cons.inj h).1 (hne 0x0f (by decide))
  · rename_i h
    obtain ⟨rfl, rfl⟩ := List.cons.inj h
    have himm := readImmediate_littleEndian 8 imm.toNat rest imm.toNat_lt
    simp [decodeOneByte, rexOf, hne 0x99 (by decide), ho, hdiv, hmod, himm]
  · rename_i h
    exact absurd h (by simp)

theorem decode_jump (opcode : UInt8) (distance : Int8) (h : isShortJump opcode = true)
    (rest : Bytes) :
    decode ((Instr.jump opcode distance : Resolved).encode ++ rest) =
      some (.jump opcode distance, rest) := by
  have hne (c : UInt8) (hc : isShortJump c = false) : opcode ≠ c := by
    rintro rfl
    simp [hc] at h
  have hrex : opcode.toNat / 16 ≠ 4 := by
    simp only [isShortJump, Bool.or_eq_true, Bool.and_eq_true, decide_eq_true_eq,
      UInt8.le_iff_toNat_le] at h
    rcases h with ⟨h1, h2⟩ | rfl
    · have h3 : (0x70 : UInt8).toNat = 112 := rfl
      omega
    · decide
  simp [encode, pieces, decode, splitLead, hne 0xf2 rfl, hne 0x66 rfl, splitRex, hrex,
    decodeOneByte, hne 0x0f rfl, hne 0x55 rfl, hne 0x5d rfl, hne 0xc3 rfl, hne 0xba rfl, h]

/-- Decoding undoes encoding. -/
theorem decode_encode (i : Resolved) (h : i.Encodable) (rest : Bytes) :
    decode (i.encode ++ rest) = some (i.plain, rest) := by
  -- By the shape of the code: lead, REX, opcode and operand bytes are split off before `i` matters.
  cases i with
  | pushRbp => rfl
  | popRbp => rfl
  | movRbpRsp => rfl
  | movRspRbp => rfl
  | ret => rfl
  | subRsp n => rfl
  | addRsp n => rfl
  | storeRsp r =>
    have hd := decode_wide 0x89 0 r.code 4 (by decide) (gpCode_lt r) (by decide) rfl (0x24 :: rest)
    simpa [encode, pieces, rex_stack, decodeWide, rexOf, regOf, plain] using hd
  | loadRsp r =>
    have hd := decode_wide 0x8b 0 r.code 4 (by decide) (gpCode_lt r) (by decide) rfl (0x24 :: rest)
    simpa [encode, pieces, rex_stack, decodeWide, rexOf, regOf, plain] using hd
  | storeRspSd x =>
    have hd := decode_twoByte .f2 false 0x11 0 x.code 4 (by decide) (xmmCode_lt x) (by decide)
      (0x24 :: rest)
    simpa [encode, pieces, rexPiece_stack, Lead.bytes, decodeTwoByte, decodeFloatMove, rexOf, regOf,
      plain] using hd
  | loadRspSd x =>
    have hd := decode_twoByte .f2 false 0x10 0 x.code 4 (by decide) (xmmCode_lt x) (by decide)
      (0x24 :: rest)
    simpa [encode, pieces, rexPiece_stack, Lead.bytes, decodeTwoByte, decodeFloatMove, rexOf, regOf,
      plain] using hd
  | loadSd x base => exact decode_loadSd x base h rest
  | movImm r imm => exact decode_movImm r imm rest
  | movEdx imm =>
    have himm := readImmediate_littleEndian 4 imm.toNat rest imm.toNat_lt
    simp [encode, pieces, decode, splitLead, splitRex, decodeOneByte, himm, plain]
  | mov d s =>
    rw [encode, pieces, decode_regReg_wide _ _ _ (gpCode_lt s) (gpCode_lt d) rfl]
    simp [decodeWide, plain, rmOf, regOf, rexOf]
  | xor32 r =>
    rw [encode, pieces, decode_regReg_narrow _ _ _ (gpCode_lt r) (gpCode_lt r) rfl]
    simp [decodeNarrow, plain, rmOf, regOf, rexOf]
  | call r =>
    have hd := decode_narrow 0xff 3 2 r.code (by decide) (by decide) (gpCode_lt r) rfl rest
    simpa [encode, pieces, rexPiece_call, decodeNarrow, rexOf, rmOf, plain] using hd
  | add d s =>
    rw [encode, pieces, decode_regReg_wide _ _ _ (gpCode_lt s) (gpCode_lt d) rfl]
    simp [decodeWide, plain, rmOf, regOf, rexOf]
  | sub d s =>
    rw [encode, pieces, decode_regReg_wide _ _ _ (gpCode_lt s) (gpCode_lt d) rfl]
    simp [decodeWide, plain, rmOf, regOf, rexOf]
  | imul d s =>
    have hd := decode_regReg_twoByte .none true 0xaf d.code s.code (gpCode_lt d) (gpCode_lt s) rest
    simpa [encode, pieces, Lead.bytes, decodeTwoByte, plain, rmOf, regOf, rexOf] using hd
  | cqo => rfl
  | idiv r =>
    rw [encode, pieces, decode_regReg_wide _ _ _ (by decide) (gpCode_lt r) rfl]
    simp [decodeWide, plain, rmOf, rexOf]
  | neg r =>
    rw [encode, pieces, decode_regReg_wide _ _ _ (by decide) (gpCode_lt r) rfl]
    simp [decodeWide, plain, rmOf, rexOf]
  | sarOne r =>
    rw [encode, pieces, decode_regReg_wide _ _ _ (by decide) (gpCode_lt r) rfl]
    simp [decodeWide, plain, rmOf, rexOf]
  | test a b =>
    rw [encode, pieces, decode_regReg_wide _ _ _ (gpCode_lt b) (gpCode_lt a) rfl]
    simp [decodeWide, plain, rmOf, regOf, rexOf]
  | testImm r imm =>
    have himm := readImmediate_littleEndian 4 imm.toNat rest imm.toNat_lt
    rw [encode, pieces, List.flatten_append, List.append_assoc,
      decode_regReg_wide _ _ _ (by decide) (gpCode_lt r) rfl]
    simp [decodeWide, plain, rmOf, rexOf, himm]
  | not r =>
    rw [encode, pieces, decode_regReg_wide _ _ _ (by decide) (gpCode_lt r) rfl]
    simp [decodeWide, plain, rmOf, rexOf]
  | cmpImm r imm =>
    rw [encode, pieces, List.flatten_append, List.append_assoc,
      decode_regReg_wide _ _ _ (by decide) (gpCode_lt r) rfl]
    simp [decodeWide, plain, rmOf, rexOf]
  | jump opcode distance => exact decode_jump opcode distance h rest
  | sse op d s =>
    rw [encode, pieces, decode_regReg_f2 _ _ _ _ (xmmCode_lt d) (xmmCode_lt s)]
    cases op <;> simp [decodeTwoByte, plain, rmOf, regOf, rexOf, sseOp?, SseOp.opcode]
  | xorpd d s =>
    rw [encode, pieces, decode_regReg_x66 _ _ _ _ (xmmCode_lt d) (xmmCode_lt s)]
    simp [decodeTwoByte, plain, rmOf, regOf, rexOf]
  | ucomisd a b =>
    rw [encode, pieces, decode_regReg_x66 _ _ _ _ (xmmCode_lt a) (xmmCode_lt b)]
    simp [decodeTwoByte, plain, rmOf, regOf, rexOf]
  | movq x r =>
    rw [encode, pieces, decode_regReg_x66 _ _ _ _ (xmmCode_lt x) (gpCode_lt r)]
    simp [decodeTwoByte, plain, rmOf, regOf, rexOf]
  | cvtsi2sd x r =>
    rw [encode, pieces, decode_regReg_f2 _ _ _ _ (xmmCode_lt x) (gpCode_lt r)]
    simp [decodeTwoByte, plain, rmOf, regOf, rexOf]
  | cvttsd2si r x =>
    rw [encode, pieces, decode_regReg_f2 _ _ _ _ (gpCode_lt r) (xmmCode_lt x)]
    simp [decodeTwoByte, plain, rmOf, regOf, rexOf]

end Instr

end OnePass.X86
