import OnePass.Buffer.Memory
import OnePass.X86.Instr

/-!
# x86-64 decoding

Bytes read back as instructions. An instruction has perhaps a mandatory lead byte, perhaps a REX
byte, an opcode of one byte or of two, and for most an operand byte. Two pairs of instructions have
the same bytes, the moves between the frame and the stack pointer; they are read as plain moves.
-/

set_option autoImplicit false

namespace OnePass.X86

inductive Lead where
  | none
  | f2
  | x66
  deriving DecidableEq, Repr

structure Rex where
  wide : Bool
  high : Bool
  highRm : Bool
  deriving DecidableEq, Repr

structure ModRm where
  mode : Nat
  reg : Nat
  rm : Nat
  deriving DecidableEq, Repr

def ModRm.ofByte (b : UInt8) : ModRm := ⟨b.toNat / 64, b.toNat / 8 % 8, b.toNat % 8⟩

def splitLead : Bytes → Lead × Bytes
  | 0xf2 :: rest => (.f2, rest)
  | 0x66 :: rest => (.x66, rest)
  | s => (.none, s)

/-- The REX byte, if there is one; its unused bit must be clear. -/
def splitRex : Bytes → Option Rex × Bytes
  | b :: rest =>
    let n := b.toNat
    if n / 16 = 4 ∧ n / 2 % 2 = 0 then (some ⟨n / 8 % 2 = 1, n / 4 % 2 = 1, n % 2 = 1⟩, rest)
    else (none, b :: rest)
  | [] => (none, [])

def number (high : Bool) (low : Nat) : Fin 16 :=
  ⟨((if high then 8 else 0) + low) % 16, Nat.mod_lt _ (by decide)⟩

def readImmediate (n : Nat) (s : Bytes) : Option (Nat × Bytes) :=
  if n ≤ s.length then some (ofLittleEndian (s.take n), s.drop n) else none

def regOf (x : Rex) (m : ModRm) : Fin 16 := number x.high m.reg

def rmOf (x : Rex) (m : ModRm) : Fin 16 := number x.highRm m.rm

def plainRex : Rex := ⟨false, false, false⟩

def decodeWide (x : Rex) (opcode : UInt8) (m : ModRm) (rest : Bytes) : Option (Resolved × Bytes) :=
  if m.mode = 0 then
    match opcode, rest with
    | 0x89, 0x24 :: rest =>
      if m.rm = 4 ∧ !x.highRm then some (.storeRsp ⟨regOf x m⟩, rest) else none
    | 0x8b, 0x24 :: rest =>
      if m.rm = 4 ∧ !x.highRm then some (.loadRsp ⟨regOf x m⟩, rest) else none
    | _, _ => none
  else if m.mode = 3 then
    match opcode with
    | 0x89 => some (.mov ⟨rmOf x m⟩ ⟨regOf x m⟩, rest)
    | 0x01 => some (.add ⟨rmOf x m⟩ ⟨regOf x m⟩, rest)
    | 0x29 => some (.sub ⟨rmOf x m⟩ ⟨regOf x m⟩, rest)
    | 0x85 => some (.test ⟨rmOf x m⟩ ⟨regOf x m⟩, rest)
    | 0xd1 => if m.reg = 7 then some (.sarOne ⟨rmOf x m⟩, rest) else none
    | 0xf7 =>
      match m.reg with
      | 0 => do
        let (imm, rest) ← readImmediate 4 rest
        return (.testImm ⟨rmOf x m⟩ (UInt32.ofNat imm), rest)
      | 2 => some (.not ⟨rmOf x m⟩, rest)
      | 3 => some (.neg ⟨rmOf x m⟩, rest)
      | 7 => some (.idiv ⟨rmOf x m⟩, rest)
      | _ => none
    | 0x83 =>
      match rest with
      | [] => none
      | imm :: rest =>
        match m.reg with
        | 7 => some (.cmpImm ⟨rmOf x m⟩ imm.toInt8, rest)
        | 5 => if rmOf x m = Gp.rsp.index then some (.subRsp imm, rest) else none
        | 0 => if rmOf x m = Gp.rsp.index then some (.addRsp imm, rest) else none
        | _ => none
    | _ => none
  else none

def decodeNarrow (x : Rex) (opcode : UInt8) (m : ModRm) (rest : Bytes) :
    Option (Resolved × Bytes) :=
  if m.mode = 3 then
    match opcode with
    | 0x31 => if regOf x m = rmOf x m then some (.xor32 ⟨rmOf x m⟩, rest) else none
    | 0xff => if m.reg = 2 ∧ !x.high then some (.call ⟨rmOf x m⟩, rest) else none
    | _ => none
  else none

def isShortJump (opcode : UInt8) : Bool := (0x70 ≤ opcode && opcode ≤ 0x7f) || opcode = 0xeb

def decodeOneByte (x? : Option Rex) (opcode : UInt8) (rest : Bytes) : Option (Resolved × Bytes) :=
  let x := x?.getD plainRex
  if x?.isNone ∧ opcode = 0x55 then some (.pushRbp, rest)
  else if x?.isNone ∧ opcode = 0x5d then some (.popRbp, rest)
  else if x?.isNone ∧ opcode = 0xc3 then some (.ret, rest)
  else if x?.isNone ∧ opcode = 0xba then do
    let (imm, rest) ← readImmediate 4 rest
    return (.movEdx (UInt32.ofNat imm), rest)
  else if x?.isNone ∧ isShortJump opcode then
    match rest with
    | distance :: rest => some (.jump opcode distance.toInt8, rest)
    | [] => none
  else if x.wide ∧ opcode = 0x99 then
    if x.high ∨ x.highRm then none else some (.cqo, rest)
  else if x.wide ∧ opcode.toNat / 8 = 0xb8 / 8 then
    if x.high then none
    else do
      let (imm, rest) ← readImmediate 8 rest
      return (.movImm ⟨number x.highRm (opcode.toNat % 8)⟩ (UInt64.ofNat imm), rest)
  else
    match rest with
    | [] => none
    | b :: rest =>
      if x.wide then decodeWide x opcode (.ofByte b) rest
      else decodeNarrow x opcode (.ofByte b) rest

def sseOp? (opcode : UInt8) : Option SseOp :=
  match opcode with
  | 0x58 => some .addsd
  | 0x59 => some .mulsd
  | 0x5c => some .subsd
  | 0x5e => some .divsd
  | 0x10 => some .movsd
  | _ => none

def decodeFloatMove (x : Rex) (opcode : UInt8) (m : ModRm) (rest : Bytes) :
    Option (Resolved × Bytes) :=
  if m.rm = 4 then
    match opcode, rest with
    | 0x10, 0x24 :: rest => if x.highRm then none else some (.loadRspSd ⟨regOf x m⟩, rest)
    | 0x11, 0x24 :: rest => if x.highRm then none else some (.storeRspSd ⟨regOf x m⟩, rest)
    | _, _ => none
  else if opcode = 0x10 ∧ m.rm ≠ 5 then some (.loadSd ⟨regOf x m⟩ ⟨rmOf x m⟩, rest)
  else none

def decodeTwoByte (lead : Lead) (x : Rex) (opcode : UInt8) (m : ModRm) (rest : Bytes) :
    Option (Resolved × Bytes) :=
  match lead, x.wide with
  | .none, true =>
    if opcode = 0xaf ∧ m.mode = 3 then some (.imul ⟨regOf x m⟩ ⟨rmOf x m⟩, rest) else none
  | .none, false => none
  | .f2, false =>
    if m.mode = 3 then (sseOp? opcode).map fun op => (.sse op ⟨regOf x m⟩ ⟨rmOf x m⟩, rest)
    else if m.mode = 0 then decodeFloatMove x opcode m rest
    else none
  | .f2, true =>
    if m.mode ≠ 3 then none
    else
      match opcode with
      | 0x2a => some (.cvtsi2sd ⟨regOf x m⟩ ⟨rmOf x m⟩, rest)
      | 0x2c => some (.cvttsd2si ⟨regOf x m⟩ ⟨rmOf x m⟩, rest)
      | _ => none
  | .x66, false =>
    if m.mode ≠ 3 then none
    else
      match opcode with
      | 0x57 => some (.xorpd ⟨regOf x m⟩ ⟨rmOf x m⟩, rest)
      | 0x2e => some (.ucomisd ⟨regOf x m⟩ ⟨rmOf x m⟩, rest)
      | _ => none
  | .x66, true =>
    if opcode = 0x6e ∧ m.mode = 3 then some (.movq ⟨regOf x m⟩ ⟨rmOf x m⟩, rest) else none

def decode (s : Bytes) : Option (Resolved × Bytes) :=
  let (lead, s) := splitLead s
  let (x?, s) := splitRex s
  match s with
  | 0x0f :: opcode :: b :: rest => decodeTwoByte lead (x?.getD plainRex) opcode (.ofByte b) rest
  | opcode :: rest => if lead = .none then decodeOneByte x? opcode rest else none
  | [] => none

def decodeUpTo : Nat → Bytes → Option (List Resolved)
  | _, [] => some []
  | 0, _ :: _ => none
  | limit + 1, s => do
    let (i, rest) ← decode s
    return i :: (← decodeUpTo limit rest)

/-- The instructions that a text of bytes consists of. Every instruction has a byte at least, so
there are no more of them than bytes. -/
def decodeAll (s : Bytes) : Option (List Resolved) := decodeUpTo s.length s

end OnePass.X86
