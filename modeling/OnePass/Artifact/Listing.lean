import OnePass.Artifact.Basic
import OnePass.Size

/-!
# Hexadecimal listings

The bytes of an artifact, sixteen to a line, each line with its address.
-/

set_option autoImplicit false

namespace OnePass

namespace Listing

def bytesPerLine : Nat := 16

def line (address : UInt64) (bs : Bytes) : Text :=
  Text.hexPadded 16 address.toNat ++ utf8 " " ++
    (bs.flatMap fun b => utf8 " " ++ Text.hexByte b) ++ [Text.newline]

def lines (address : UInt64) (bs : Bytes) : Text :=
  match bs with
  | [] => []
  | b :: rest =>
    line address ((b :: rest).take bytesPerLine) ++
      lines (address + UInt64.ofNat bytesPerLine) ((b :: rest).drop bytesPerLine)
termination_by bs.length
decreasing_by
  rw [List.length_drop, List.length_cons]
  unfold bytesPerLine
  omega

end Listing

def Artifact.listing (a : Artifact) : Text :=
  let code := a.code.getD []
  let data := a.data.getD []
  utf8 "; " ++ a.source ++ utf8 "\n; arch " ++ a.arch ++ utf8 ", result " ++ a.resultType ++
    utf8 ", code " ++ Size.text code.length ++ utf8 ", data " ++ Size.text data.length ++
    utf8 "\n\ncode:\n" ++ Listing.lines a.codeBase code ++
    (if data = [] then [] else utf8 "\ndata:\n" ++ Listing.lines a.dataBase data)

end OnePass
