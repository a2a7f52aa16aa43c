import OnePass.Arm64.Encoding
import OnePass.Buffer.Writer

/-!
# Assembling ARM64 code

Instructions over register names are written one by one, each as one little-endian word. A name
that names no register is recorded as a failure. Forward branches are written with distance zero
and pointed to their target later, by setting the field their pattern calls for.
-/

set_option autoImplicit false

namespace OnePass.Arm64

def emit (w : Writer) (i : Named) : Writer :=
  let w := (i.operands.filterMap Operand.rejection?).foldl Writer.fail w
  (w.note (.arm64 w.offset i)).append
    ((i.resolve?.map fun r => littleEndian 4 r.word.toNat).getD [])

def branchForward (w : Writer) (i : Named) : Int64 × Writer :=
  let w := emit w i
  (Int64.ofNat w.offset - 4, w)

/-- A distance in bytes as a distance in instructions, in 32-bit arithmetic. -/
def instructionDistance (bytes : Int64) : Int32 := bytes.toInt32 / 4

def branchBack (w : Writer) (target : Int64) : Writer :=
  emit w (.b (instructionDistance (target - Int64.ofNat w.offset)).toInt)

def setDistance? (word : UInt32) (distance : Int32) : Option UInt32 :=
  let d := distance.toUInt32
  if word &&& 0xfc000000 = 0x14000000 then some (word ||| (d &&& 0x03ffffff))
  else if word &&& 0xff000010 = 0x54000000 ∨ word &&& 0x7f000000 = 0x34000000 then
    some (word ||| field (d &&& 0x7ffff) 5)
  else if word &&& 0x7f000000 = 0x36000000 then some (word ||| field (d &&& 0x3fff) 5)
  else none

def land (w : Writer) (place : Int64) : Writer :=
  match w.buffer.readWord place with
  | .error m => w.use fun _ => .error m
  | .ok word =>
    match setDistance? word (instructionDistance (Int64.ofNat w.offset - place)) with
    | some patched => w.patchWord place patched
    | none => w.fail (.notBranch place word)

end OnePass.Arm64
