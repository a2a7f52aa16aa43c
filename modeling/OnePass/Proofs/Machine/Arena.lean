import OnePass.Proofs.Machine.Memory
import OnePass.Proofs.Machine.Native

/-!
# Texts in memory

Which addresses are in use depends on where memory is free; an arena says how. Routines leave what
is in use as it is, and a concatenation puts a text where nothing was in use. Values are represented
by words: a text by the address of its first byte, with a zero byte behind its last.
-/

set_option autoImplicit false

namespace OnePass

structure Heap where
  memory : Ram
  free : UInt64

/-- The addresses that are in use and the number of bytes that can still be taken, when memory is
free from an address on. -/
structure Arena where
  used : UInt64 → UInt64 → Prop
  room : UInt64 → Nat

namespace Arena

variable (A : Arena)

def Stored (h : Heap) (a : UInt64) (bs : Bytes) : Prop :=
  ∀ (i : Nat) (hi : i < bs.length),
    A.used h.free (a + UInt64.ofNat i) ∧ h.memory (a + UInt64.ofNat i) = bs[i]

structure TextAt (h : Heap) (a : UInt64) (s : Text) : Prop where
  nonzero : 0 ∉ s
  stored : A.Stored h a (s ++ [0])

/-- What was in use stays as it is, and `n` bytes are taken at most. -/
structure Grows (h h' : Heap) (n : Nat) : Prop where
  kept : ∀ a, A.used h.free a → A.used h'.free a ∧ h'.memory a = h.memory a
  room : A.room h.free ≤ A.room h'.free + n

def Holds (h : Heap) (w : UInt64) : Value → Prop
  | .null => w = 0
  | .bool b => w = if b then 1 else 0
  | .int n => w = n.toUInt64
  | .float x => w = x.bits
  | .string s => A.TextAt h w s
  | .unknown => False

def Shows (h : Heap) (w : UInt64) (x : Binary64) : Value → Prop
  | .float y => x = y
  | value => A.Holds h w value

variable {A} {h h' h'' : Heap} {m n : Nat}

theorem Grows.refl (h : Heap) : A.Grows h h 0 := ⟨fun _ ha => ⟨ha, rfl⟩, Nat.le_refl _⟩

theorem Grows.trans (g : A.Grows h h' m) (g' : A.Grows h' h'' n) : A.Grows h h'' (m + n) where
  kept a ha :=
    ⟨(g'.kept a (g.kept a ha).1).1, (g'.kept a (g.kept a ha).1).2.trans (g.kept a ha).2⟩
  room := by
    have := g.room
    have := g'.room
    omega

theorem Grows.of_eq (g : A.Grows h h' m) (he : m = n) : A.Grows h h' n := he ▸ g

theorem Stored.mono {a : UInt64} {bs : Bytes} (s : A.Stored h a bs) (g : A.Grows h h' n) :
    A.Stored h' a bs := fun i hi =>
  ⟨(g.kept _ (s i hi).1).1, (g.kept _ (s i hi).1).2.trans (s i hi).2⟩

theorem TextAt.mono {a : UInt64} {s : Text} (t : A.TextAt h a s) (g : A.Grows h h' n) :
    A.TextAt h' a s := ⟨t.nonzero, t.stored.mono g⟩

theorem Holds.mono {w : UInt64} {v : Value} (hv : A.Holds h w v) (g : A.Grows h h' n) :
    A.Holds h' w v := by
  cases v with
  | string s => exact TextAt.mono hv g
  | _ => exact hv

theorem Stored.left {a : UInt64} {as bs : Bytes} (s : A.Stored h a (as ++ bs)) :
    A.Stored h a as := by
  intro i hi
  have hs := s i (by rw [List.length_append]; omega)
  rwa [List.getElem_append_left hi] at hs

theorem Stored.right {a : UInt64} {as bs : Bytes} (s : A.Stored h a (as ++ bs)) :
    A.Stored h (a + UInt64.ofNat as.length) bs := by
  intro i hi
  have hs := s (as.length + i) (by rw [List.length_append]; omega)
  rw [List.getElem_append_right (by omega)] at hs
  simpa [UInt64.ofNat_add, UInt64.add_assoc] using hs

theorem Stored.load {a : UInt64} {bs : Bytes} (s : A.Stored h a bs) :
    h.memory.load a bs.length = bs := by
  refine List.ext_getElem (by simp) fun i hi hi' => ?_
  simp [Ram.load, (s i hi').2]

theorem Stored.word {a v : UInt64} (s : A.Stored h a (littleEndian 8 v.toNat)) :
    h.memory.word a = v := by
  have hl := s.load
  rw [length_littleEndian] at hl
  rw [Ram.word, hl, word_of_bytes]

end Arena

/-- Where the stack pointer is when a function that was entered with `top`, and uses so many slots,
has called a routine. It is aligned as it was on entry. -/
def Below (top : UInt64) (slots : Nat) (sp : UInt64) : Prop :=
  top.toNat ≤ sp.toNat + 16 * slots + 16 ∧ sp.toNat + 16 ≤ top.toNat ∧
    sp.toNat % 16 = top.toNat % 16

/-- The stack of a function that is entered with `top` and uses so many slots: there is room for it,
apart from the memory in use. -/
structure Arena.Clears (A : Arena) (top : UInt64) (slots : Nat) : Prop where
  space : 16 * slots + 16 ≤ top.toNat
  apart : ∀ free a, A.used free a →
    a.toNat + 16 * slots + 16 < top.toNat ∨ top.toNat ≤ a.toNat

def Native.View.heap (v : Native.View) : Heap := ⟨v.memory, v.free⟩

/-- What routines ask for and promise in an arena. A concatenation asks for two texts and room for
both; everything that was in use stays as it is. -/
def Arena.contract (A : Arena) (D : Doubles) (roles : Roles) : Native.Contract where
  total := True
  asks
    | .concat, v => ∃ s t, A.TextAt v.heap (v.word roles.firstArgument) s ∧
        A.TextAt v.heap (v.word roles.secondArgument) t ∧ s.length + t.length + 1 ≤ A.room v.free
    | _, _ => True
  promises
    | .pow, v, v' => v'.double roles.floatResult =
        D.pow (v.double roles.floatAccumulator) (v.double roles.floatOperand) ∧
        A.Grows v.heap v'.heap 0
    | .fmod, v, v' => v'.double roles.floatResult =
        D.fmod (v.double roles.floatAccumulator) (v.double roles.floatOperand) ∧
        A.Grows v.heap v'.heap 0
    | .concat, v, v' => ∀ s t, A.TextAt v.heap (v.word roles.firstArgument) s →
        A.TextAt v.heap (v.word roles.secondArgument) t →
        s.length + t.length + 1 ≤ A.room v.free →
        A.TextAt v'.heap (v'.word roles.result) (s ++ t) ∧
          A.Grows v.heap v'.heap (s.length + t.length + 1)

structure Native.View.SameArguments (roles : Roles) (v v' : Native.View) : Prop where
  first : v'.word roles.firstArgument = v.word roles.firstArgument
  second : v'.word roles.secondArgument = v.word roles.secondArgument
  accumulator : v'.double roles.floatAccumulator = v.double roles.floatAccumulator
  operand : v'.double roles.floatOperand = v.double roles.floatOperand

namespace Arena

variable {A : Arena} {D : Doubles} {roles : Roles} {v v' v'' : Native.View} {r : Routine}

/-- What is asked of a routine does not depend on what its caller leaves on the stack. -/
theorem asks_of_grows (g : A.Grows v.heap v'.heap 0) (h : v.SameArguments roles v')
    (hask : (A.contract D roles).asks r v) : (A.contract D roles).asks r v' := by
  cases r with
  | pow | fmod => trivial
  | concat =>
    obtain ⟨s, t, hs, ht, hroom⟩ := hask
    refine ⟨s, t, ?_, ?_, Nat.le_trans hroom g.room⟩
    · rw [h.first]
      exact hs.mono g
    · rw [h.second]
      exact ht.mono g

theorem promises_of_grows (g : A.Grows v.heap v'.heap 0) (h : v.SameArguments roles v')
    (hp : (A.contract D roles).promises r v' v'') : (A.contract D roles).promises r v v'' := by
  cases r with
  | pow | fmod =>
    obtain ⟨hx, g'⟩ := hp
    rw [h.accumulator, h.operand] at hx
    exact ⟨hx, g.trans g'⟩
  | concat =>
    intro s t hs ht hroom
    obtain ⟨hst, g'⟩ := hp s t (h.first ▸ hs.mono g) (h.second ▸ ht.mono g)
      (Nat.le_trans hroom g.room)
    exact ⟨hst, (g.trans g').of_eq (Nat.zero_add _)⟩

end Arena

end OnePass
