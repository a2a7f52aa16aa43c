import OnePass.Text.Basic

/-!
# x86-64 registers

The sixteen general purpose registers and the sixteen SSE registers, by number and by name.
-/

set_option autoImplicit false

namespace OnePass.X86

instance neZero_registers : @NeZero Nat Zero.ofOfNat0 16 := ⟨by decide⟩

structure Gp where
  index : Fin 16
  deriving DecidableEq, Repr, Inhabited

structure Xmm where
  index : Fin 16
  deriving DecidableEq, Repr, Inhabited

namespace Gp

def names : List Text :=
  ["rax", "rcx", "rdx", "rbx", "rsp", "rbp", "rsi", "rdi",
    "r8", "r9", "r10", "r11", "r12", "r13", "r14", "r15"].map utf8

def name (r : Gp) : Text := names.getD r.index []

def all : List Gp := (List.finRange 16).map Gp.mk

def ofName? (s : Text) : Option Gp := all.find? (·.name = s)

def code (r : Gp) : UInt8 := UInt8.ofNat r.index

def rax : Gp := ⟨0⟩
def rcx : Gp := ⟨1⟩
def rdx : Gp := ⟨2⟩
def rsp : Gp := ⟨4⟩
def rbp : Gp := ⟨5⟩
def rsi : Gp := ⟨6⟩
def rdi : Gp := ⟨7⟩
def r11 : Gp := ⟨11⟩

/-- Registers that need an index byte or a displacement to be a base address. -/
def needsLongBase (r : Gp) : Bool := r.index.val % 8 = 4 || r.index.val % 8 = 5

end Gp

namespace Xmm

def names : List Text :=
  ["xmm0", "xmm1", "xmm2", "xmm3", "xmm4", "xmm5", "xmm6", "xmm7",
    "xmm8", "xmm9", "xmm10", "xmm11", "xmm12", "xmm13", "xmm14", "xmm15"].map utf8

def name (r : Xmm) : Text := names.getD r.index []

def all : List Xmm := (List.finRange 16).map Xmm.mk

def ofName? (s : Text) : Option Xmm := all.find? (·.name = s)

def code (r : Xmm) : UInt8 := UInt8.ofNat r.index

def xmm0 : Xmm := ⟨0⟩
def xmm1 : Xmm := ⟨1⟩

end Xmm

end OnePass.X86
