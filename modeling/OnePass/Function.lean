import OnePass.Artifact.Basic
import OnePass.Value
import OnePass.X86.Machine

/-!
# Functions

A function is a compiled expression on two pages of its own, an executable one with the code and a
read-only one with the constants. Calling it runs the code; releasing it gives the pages back. The
pages of all functions live in one address space.
-/

set_option autoImplicit false

namespace OnePass

/-- What the system offers: its platform, whether generated code can be called here and where the
routines then are, which requests for memory it grants, by their number and size, where the pages
are that it grants, by their number, and where calls find free memory and the stack. -/
structure Host where
  platform : Platform := ⟨.x86, .linux⟩
  linked : Bool
  grants : Nat → Nat → Bool := fun _ size => size < 0x800000000000
  routines : Symbols :=
    { pow := 0x7ff000000000, fmod := 0x7ff000000010, concat := 0x7ff000000020 }
  address : Nat → UInt64 := fun number => 0x100000000000 + UInt64.ofNat number * 0x100000000
  pageSize : Nat := Page.granularity
  pageSize_isPowerOfTwo : pageSize.isPowerOfTwo := by exact ⟨12, rfl⟩
  pageSize_le : pageSize ≤ 0x40000000 := by decide
  heap : UInt64 := 0x600000000000
  stack : UInt64 := 0x7fffffff0000 - 8

namespace Host

def symbols (h : Host) : Symbols := if h.linked then h.routines else {}

def artifactSymbols (h : Host) (arch : Arch) : Symbols :=
  if h.linked && h.platform.canExecute arch then h.symbols else Artifact.placeholders

end Host

/-- All pages that were ever granted, in order, and the number of requests. -/
structure AddressSpace where
  pages : Array Page := #[]
  requests : Nat := 0
  deriving DecidableEq, Repr, Inhabited

namespace AddressSpace

def page (s : AddressSpace) (number : Nat) : Page := s.pages.getD number default

def set (s : AddressSpace) (number : Nat) (p : Page) : AddressSpace :=
  { s with pages := s.pages.setIfInBounds number p }

def allocate (h : Host) (size : Int64) (s : AddressSpace) : Except PageFault Nat × AddressSpace :=
  match Page.allocate (h.grants s.requests) size h.pageSize with
  | .ok p => (.ok s.pages.size, { pages := s.pages.push p, requests := s.requests + 1 })
  | .error f => (.error f, { s with requests := s.requests + 1 })

def release (s : AddressSpace) (number : Nat) : AddressSpace :=
  s.set number (s.page number).release

def mapped (s : AddressSpace) : Nat := (s.pages.filter Page.isMapped).size

end AddressSpace

structure Function where
  /-- The numbers of the code page and the data page, until the function is released. -/
  pages : Option (Nat × Nat)
  codeLength : Nat
  dataLength : Nat
  result : Ty
  arch : Arch
  source : Text
  deriving DecidableEq, Repr

namespace Function

def compileInto (h : Host) (arch : Arch) (sizes : RegionSizes) (source : Text) (code data : Nat)
    (s : AddressSpace) (verbose : Bool := true) : Build (Function × AddressSpace) :=
  match (s.page code).buffer (utf8 "code") sizes.code (h.address code),
    (s.page data).buffer (utf8 "data") sizes.data (h.address data), arch.target? with
  | .error f, _, _ => { outcome := .error (.pageBuffer (utf8 "code") f) }
  | .ok _, .error f, _ => { outcome := .error (.pageBuffer (utf8 "data") f) }
  | .ok _, .ok _, none => { outcome := .error (.noTarget arch) }
  | .ok codeBuffer, .ok dataBuffer, some target =>
    let c := compileTokens target h.symbols (tokenize source) codeBuffer dataBuffer verbose
    match c.outcome with
    | .error d => ⟨.error (.diagnostic (d.withSource source)), c.emission.trace⟩
    | .ok ty =>
      let e := c.emission.commit
      match ((s.page data).ofBuffer e.data).makeReadOnly,
        ((s.page code).ofBuffer e.code).makeExecutable with
      | .error f, _ => ⟨.error (.page f), e.trace⟩
      | .ok _, .error f => ⟨.error (.page f), e.trace⟩
      | .ok dataPage, .ok codePage =>
        let f : Function :=
          { pages := some (code, data), codeLength := e.code.offset, dataLength := e.data.offset,
            result := ty, arch, source }
        ⟨.ok (f, (s.set data dataPage).set code codePage), e.trace⟩

/-- Compiles a source for the host. When it fails, the pages it took are given back. -/
def compile (h : Host) (arch : Arch) (sizes : RegionSizes) (source : Text) (s : AddressSpace)
    (verbose : Bool := true) : Build Function × AddressSpace :=
  if !h.platform.canExecute arch then
    ({ outcome := .error (.notExecutable arch h.platform) }, s)
  else
    match s.allocate h (Int64.ofNat sizes.code) with
    | (.error f, s) => ({ outcome := .error (.page f) }, s)
    | (.ok code, s) =>
      match s.allocate h (Int64.ofNat sizes.data) with
      | (.error f, s) => ({ outcome := .error (.page f) }, s.release code)
      | (.ok data, s) =>
        let b := compileInto h arch sizes source code data s verbose
        match b.outcome with
        | .error e => (⟨.error e, b.trace⟩, (s.release code).release data)
        | .ok (f, s) => (⟨.ok f, b.trace⟩, s)

def released (f : Function) : Bool := f.pages.isNone

def initialRam (h : Host) (s : AddressSpace) (code data : Nat) : Ram := fun a =>
  let inCode := (a - h.address code).toNat
  let inData := (a - h.address data).toNat
  if inData < (s.page data).size then (s.page data).memory.byte inData
  else if inCode < (s.page code).size then (s.page code).memory.byte inCode
  else 0

def entryMachine (h : Host) (ram : Ram) : X86.Machine :=
  { gp := (Vector.replicate 16 0).set X86.Gp.rsp.index h.stack,
    xmm := Vector.replicate 16 ⟨0⟩, flags := none, ram, free := h.heap, position := 0 }

/-- How many instructions code of the given length can take: each is executed once, except in the
loop of a power, which has a round for each bit of the exponent. -/
def instructionLimit (length : Nat) : Nat := 65 * length + 1

def resultOf (ty : Ty) (m : X86.Machine) : Value :=
  match ty with
  | .null => .null
  | .bool => .bool (m.get .rax ≠ 0)
  | .int => .int (m.get .rax).toInt64
  | .float => .float (m.getX .xmm0)
  | .string => .string (m.textAt (m.get .rax))
  | .unknown => .unknown

def call (h : Host) (s : AddressSpace) (f : Function) : Except Error Value :=
  match f.pages with
  | none => .error .released
  | some (code, data) =>
    if (s.page code).state ≠ .executable then .error .released
    else if !h.linked then .error .notCallable
    else
      let bytes := ((s.page code).memory.slice 0 f.codeLength).toArray
      match X86.run (X86.worldOf .standard h.symbols) (h.address code) bytes
          (instructionLimit f.codeLength) (entryMachine h (initialRam h s code data)) with
      | .returned m => .ok (resultOf f.result m)
      | _ => .error .crashed

def release (s : AddressSpace) (f : Function) : Function × AddressSpace :=
  match f.pages with
  | none => (f, s)
  | some (code, data) => ({ f with pages := none }, (s.release code).release data)

def snapshot (s : AddressSpace) (f : Function) (page : Nat × Nat → Nat) (length : Nat) :
    Except Error Bytes :=
  match f.pages with
  | none => .error .released
  | some numbers =>
    match (s.page (page numbers)).snapshot length with
    | .ok b => .ok b
    | .error fault => .error (.page fault)

def code (s : AddressSpace) (f : Function) : Except Error Bytes :=
  f.snapshot s Prod.fst f.codeLength

def data (s : AddressSpace) (f : Function) : Except Error Bytes :=
  f.snapshot s Prod.snd f.dataLength

end Function

def evaluate (h : Host) (arch : Arch) (sizes : RegionSizes) (source : Text) (s : AddressSpace)
    (verbose : Bool := true) : Build Value × AddressSpace :=
  let (b, s) := Function.compile h arch sizes source s verbose
  match b.outcome with
  | .error e => (⟨.error e, b.trace⟩, s)
  | .ok f => (⟨f.call h s, b.trace⟩, (f.release s).2)

end OnePass
