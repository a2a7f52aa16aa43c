import OnePass.Arm64.Encoding
import OnePass.Buffer.Memory

/-!
# ARM64 decoding

Words read back as instructions, by masks. A subtraction from the zero register is a negation.
-/

set_option autoImplicit false

namespace OnePass.Arm64

def registerField (word low : UInt32) : Fin 32 :=
  ⟨((word >>> low) &&& 0x1f).toNat % 32, Nat.mod_lt _ (by decide)⟩

def signedField (word low width : UInt32) : Int :=
  ((word <<< (32 - low - width)).toInt32 >>> (32 - width).toInt32).toInt

def gpAt (word low : UInt32) : Gp := ⟨registerField word low⟩

def fpAt (word low : UInt32) : Fp := ⟨registerField word low⟩

def intOp? (word : UInt32) : Option IntOp :=
  let pattern := word &&& 0xffe0fc00
  if pattern = 0x8b000000 then some .add
  else if pattern = 0xcb000000 then some .sub
  else if pattern = 0x9b007c00 then some .mul
  else if pattern = 0x9ac00c00 then some .sdiv
  else none

def floatOp? (word : UInt32) : Option FloatOp :=
  let pattern := word &&& 0xffe0fc00
  if pattern = 0x1e602800 then some .fadd
  else if pattern = 0x1e603800 then some .fsub
  else if pattern = 0x1e600800 then some .fmul
  else if pattern = 0x1e601800 then some .fdiv
  else none

def decodeFixed? (word : UInt32) : Option Resolved :=
  if word = 0xa9bf7bfd then some .stpFrame
  else if word = 0xa8c17bfd then some .ldpFrame
  else if word = 0x910003fd then some .movFpSp
  else if word = 0x910003bf then some .movSpFp
  else if word = 0xd65f03c0 then some .ret
  else none

def decodeMemory? (word : UInt32) : Option Resolved :=
  if word &&& 0xffffffe0 = 0xf81f0fe0 then some (.strPre (gpAt word 0))
  else if word &&& 0xffffffe0 = 0xf84107e0 then some (.ldrPost (gpAt word 0))
  else if word &&& 0xffffffe0 = 0xfc1f0fe0 then some (.strPreD (fpAt word 0))
  else if word &&& 0xffffffe0 = 0xfc4107e0 then some (.ldrPostD (fpAt word 0))
  else if word &&& 0xfffffc00 = 0xfd400000 then some (.ldrD (fpAt word 0) (gpAt word 5))
  else if word &&& 0xfffffc1f = 0xd63f0000 then some (.blr (gpAt word 5))
  else none

def decodeInteger? (word : UInt32) : Option Resolved :=
  let imm := ((word >>> 5) &&& 0xffff).toUInt16
  let half := (word >>> 21) &&& 3
  if word &&& 0xff800000 = 0xd2800000 then some (.movz (gpAt word 0) imm half)
  else if word &&& 0xff800000 = 0xf2800000 then some (.movk (gpAt word 0) imm half)
  else if word &&& 0xffe0ffe0 = 0xaa0003e0 then some (.mov (gpAt word 0) (gpAt word 16))
  else if word &&& 0xffe0ffe0 = 0xcb0003e0 then some (.neg (gpAt word 0) (gpAt word 16))
  else if word &&& 0xfffffc00 = 0x9341fc00 then some (.asrOne (gpAt word 0) (gpAt word 5))
  else if word &&& 0xfffffc1f = 0xf100001f then some (.cmpZero (gpAt word 5))
  else if word &&& 0xffe00c00 = 0x9a800000 then
    some (.csel (gpAt word 0) (gpAt word 5) (gpAt word 16) ((word >>> 12) &&& 0xf))
  else if word &&& 0xffe08000 = 0x9b008000 then
    some (.msub (gpAt word 0) (gpAt word 5) (gpAt word 16) (gpAt word 10))
  else (intOp? word).map fun op => .int op (gpAt word 0) (gpAt word 5) (gpAt word 16)

def decodeFloat? (word : UInt32) : Option Resolved :=
  if word &&& 0xfffffc00 = 0x1e604000 then some (.fmov (fpAt word 0) (fpAt word 5))
  else if word &&& 0xfffffc00 = 0x1e614000 then some (.fneg (fpAt word 0) (fpAt word 5))
  else if word &&& 0xfffffc00 = 0x9e620000 then some (.scvtf (fpAt word 0) (gpAt word 5))
  else if word &&& 0xfffffc00 = 0x9e780000 then some (.fcvtzs (gpAt word 0) (fpAt word 5))
  else (floatOp? word).map fun op => .float op (fpAt word 0) (fpAt word 5) (fpAt word 16)

def decodeBranch? (word : UInt32) : Option Resolved :=
  if word &&& 0xfc000000 = 0x14000000 then some (.b (signedField word 0 26))
  else if word &&& 0xff000010 = 0x54000000 then
    some (.bCond (word &&& 0xf) (signedField word 5 19))
  else if word &&& 0xff000000 = 0xb4000000 then some (.cbz (gpAt word 0) (signedField word 5 19))
  else if word &&& 0xfff80000 = 0x36000000 then
    some (.tbzBit0 (gpAt word 0) (signedField word 5 14))
  else none

def decode (word : UInt32) : Option Resolved :=
  decodeFixed? word <|> decodeMemory? word <|> decodeInteger? word <|> decodeFloat? word <|>
    decodeBranch? word

def words : Bytes → Option (List UInt32)
  | [] => some []
  | a :: b :: c :: d :: rest =>
    (words rest).map (UInt32.ofNat (ofLittleEndian [a, b, c, d]) :: ·)
  | _ => none

def decodeAll (s : Bytes) : Option (List Resolved) := do (← words s).mapM decode

end OnePass.Arm64
