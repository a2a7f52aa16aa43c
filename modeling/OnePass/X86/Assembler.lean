import OnePass.Buffer.Writer
import OnePass.X86.Encoding

/-!
# Assembling x86-64 code

Instructions over register names are written one by one. A name that names no register is recorded
as a failure. Forward jumps are written without a distance and pointed to their target later.
-/

set_option autoImplicit false

namespace OnePass.X86

def longBase? : Named → Option Text
  | .loadSd _ base =>
    match Gp.ofName? base with
    | some r => if r.needsLongBase then some base else none
    | none => none
  | _ => none

def noteLine (w : Writer) (l : Line) : Writer := w.note (.x86 w.offset l)

def emit (w : Writer) (i : Named) : Writer :=
  let w := (i.operands.filterMap Operand.rejection?).foldl Writer.fail w
  match longBase? i with
  | some base => w.fail (.baseRegister base)
  | none => (noteLine w (.plain i)).appendAll ((i.resolve?.map Instr.pieces).getD [[]])

def jno : UInt8 := 0x71
def jz : UInt8 := 0x74
def jbe : UInt8 := 0x76
def js : UInt8 := 0x78
def jp : UInt8 := 0x7a
def jmp : UInt8 := 0xeb

def jumpForward (w : Writer) (opcode : UInt8) (label : Text) : Int64 × Writer :=
  let w := (noteLine w (.forward label)).append [opcode, 0]
  (Int64.ofNat w.offset - 1, w)

def fitsByte (distance : Int64) : Bool := -128 ≤ distance && distance ≤ 127

def jumpBack (w : Writer) (opcode : UInt8) (label : Text) (target : Int64) : Writer :=
  let distance := target - (Int64.ofNat w.offset + 2)
  if fitsByte distance then
    (noteLine w (.backward label distance.toInt)).append [opcode, distance.toInt8.toUInt8]
  else w.fail (.jumpDistance (some label) distance.toInt)

def land (w : Writer) (place : Int64) : Writer :=
  let distance := Int64.ofNat w.offset - (place + 1)
  if fitsByte distance then w.patchByte place distance.toInt8.toUInt8
  else w.fail (.jumpDistance none distance.toInt)

end OnePass.X86
