import OnePass.Proofs.Machine.Arena
import OnePass.Proofs.Machine.Execution

/-!
# Processors

What is said of functions is said once for all architectures, over what each of them provides: how
code is executed, how routines are called and what they keep for their callers. A run of a function
stands in one frame of the stack. It relies on routines that keep to the calling convention and to a
contract.
-/

set_option autoImplicit false

namespace OnePass.Native

structure Processor (σ ι κ : Type) where
  target : Target
  operand : target.roles.operand ≠ target.roles.accumulator
  floatOperand : target.roles.floatOperand ≠ target.roles.floatAccumulator
  secondArgument : target.roles.secondArgument ≠ target.roles.firstArgument
  view : σ → List UInt64 → View
  view_eq : ∀ s slots, view s slots = { view s [] with slots := slots }
  position : σ → Nat
  stackPointer : σ → UInt64
  framePointer : σ → UInt64
  /-- Code from its bytes; a position counts `unit` of them. -/
  load : Bytes → Option κ
  unit : Nat
  unit_pos : 0 < unit
  fetch : κ → σ → Option ι
  step : World σ → UInt64 → κ → σ → Outcome σ
  calls : ι → Prop
  stores : σ → ι → List UInt64
  /-- Instructions that call nothing change no memory but the words that they store. -/
  memory : ∀ {world base code s s'}, step world base code s = .running s' →
    (∀ i, fetch code s = some i → ¬calls i) → ∀ a : UInt64,
    (∀ i, fetch code s = some i → ∀ w ∈ stores s i, w.toNat + 8 ≤ 0x10000000000000000 ∧
      (a.toNat < w.toNat ∨ w.toNat + 8 ≤ a.toNat)) →
    (view s' []).memory a = (view s []).memory a
  /-- How far a frame is below the stack pointer on entry. -/
  rise : Nat
  rise_le : rise ≤ 16
  /-- The state that a routine finds when code calls it, by the position to go on, the address of
  the routine and the return address. -/
  calling : σ → Nat → UInt64 → UInt64 → σ
  stackPointer_calling : ∀ s p a ret,
    stackPointer (calling s p a ret) = stackPointer s - UInt64.ofNat (16 - rise)
  arguments_calling : ∀ s p a ret,
    (view s []).SameArguments target.roles (view (calling s p a ret) [])
  free_calling : ∀ s p a ret, (view (calling s p a ret) []).free = (view s []).free
  memory_calling : ∀ s p a ret,
    (stackPointer (calling s p a ret)).toNat + 16 < 0x10000000000000000 →
    ∀ b : UInt64, b.toNat < (stackPointer (calling s p a ret)).toNat ∨
      (stackPointer (calling s p a ret)).toNat + 16 ≤ b.toNat →
    (view (calling s p a ret) []).memory b = (view s []).memory b
  /-- What a routine keeps for callers whose stack ends at an address. -/
  kept : UInt64 → σ → σ → Prop
  restored : σ → σ → Prop

namespace Processor

variable {σ ι κ : Type} (P : Processor σ ι κ)

def heap (s : σ) : Heap := (P.view s []).heap

def Returns (A : Arena) (s : σ) (value : Value) : Prop :=
  A.Shows (P.heap s) ((P.view s []).word P.target.roles.result)
    ((P.view s []).double P.target.roles.floatResult) value

/-- What a function relies on that is entered with the stack pointer `top` and uses so many slots:
its stack is apart from the memory in use, and the routines that are there return, keep to the
calling convention and to the contract of the arena. -/
structure Runtime (A : Arena) (symbols : Symbols) (world : World σ) (top : UInt64) (slots : Nat) :
    Prop extends A.Clears top slots where
  serves : ∀ r, symbols.address r ≠ 0 → ∀ s, Below top slots (P.stackPointer s) →
    (A.contract world.doubles P.target.roles).asks r (P.view s []) →
    ∃ s', world.routine (symbols.address r) s = some s' ∧ P.kept top s s' ∧
      (A.contract world.doubles P.target.roles).promises r (P.view s []) (P.view s' [])

/-- Routines that keep to the calling convention if they return, when they are called by a function
that was entered with the stack pointer `top` and uses so many slots. -/
def Conventional (symbols : Symbols) (world : World σ) (top : UInt64) (slots : Nat) : Prop :=
  ∀ r, symbols.address r ≠ 0 → ∀ s s', Below top slots (P.stackPointer s) →
    world.routine (symbols.address r) s = some s' → P.kept top s s'

end Processor

structure Activation {σ ι κ : Type} (P : Processor σ ι κ) where
  world : World σ
  base : UInt64
  code : κ
  symbols : Symbols
  contract : Contract
  entry : σ
  start : P.position entry = 0
  limit : Nat
  space : 16 * limit + 16 ≤ (P.stackPointer entry).toNat
  serves : ∀ (r : Routine) (s : σ) (slots : List UInt64) (p : Nat) (ret : UInt64),
    symbols.address r ≠ 0 →
    Below (P.stackPointer entry) limit (P.stackPointer (P.calling s p (symbols.address r) ret)) →
    (contract.total → contract.asks r (P.view s slots)) →
    (contract.total →
      ∃ s', world.routine (symbols.address r) (P.calling s p (symbols.address r) ret) = some s') ∧
    ∀ s', world.routine (symbols.address r) (P.calling s p (symbols.address r) ret) = some s' →
      P.kept (P.stackPointer entry) (P.calling s p (symbols.address r) ret) s' ∧
      (contract.asks r (P.view s slots) → contract.promises r (P.view s slots) (P.view s' slots))

namespace Activation

variable {σ ι κ : Type} {P : Processor σ ι κ} (A : Activation P)

def frame : UInt64 := P.stackPointer A.entry - UInt64.ofNat P.rise

theorem toNat_frame : A.frame.toNat = (P.stackPointer A.entry).toNat - P.rise := by
  have hspace := A.space
  have hrise := P.rise_le
  have hlt := (P.stackPointer A.entry).toNat_lt
  have hof : (UInt64.ofNat P.rise).toNat = P.rise :=
    UInt64.toNat_ofNat_of_lt' (Nat.lt_of_le_of_lt hrise (by decide))
  rw [frame, UInt64.toNat_sub_of_le _ _ (UInt64.le_iff_toNat_le.2 (by omega)), hof]

theorem frame_space : 16 * A.limit + 16 ≤ A.frame.toNat + P.rise := by
  have hspace := A.space
  have hrise := P.rise_le
  have hframe := A.toNat_frame
  omega

/-- What operations depend on. The stack's own memory are the frame, the slots and a return
address. -/
def context : Context where
  doubles := A.world.doubles
  symbols := A.symbols
  contract := A.contract
  limit := A.limit
  own a := (P.stackPointer A.entry).toNat - 16 * A.limit - 16 ≤ a.toNat ∧
    a.toNat < (P.stackPointer A.entry).toNat

/-- Where a run may be lost: in a routine that need not return. -/
def Lost (s : σ) : Prop :=
  ¬A.contract.total ∧ P.step A.world A.base A.code s = .stuck ∧
    ∃ i, P.fetch A.code s = some i ∧ P.calls i

def Leads (visited done : σ → Prop) (s : σ) : Prop :=
  OnePass.Leads (successor (P.step A.world A.base A.code)) A.Lost visited done s

/-- An instruction that is about to be executed keeps to the stack: a call finds the stack pointer
below a number of slots, and a store stays between the last slot and the frame. -/
structure Safe (s : σ) (i : ι) : Prop where
  call : P.calls i → ∃ k ≤ A.limit, P.stackPointer s = stackTop A.frame k
  store : ∀ a ∈ P.stores s i, A.frame.toNat - 16 * A.limit ≤ a.toNat ∧
    a.toNat + 8 ≤ (P.stackPointer A.entry).toNat

def Level (k : Nat) (s : σ) : Prop :=
  P.framePointer s = A.frame ∧ (P.stackPointer s).toNat + 16 * k = A.frame.toNat

structure Visits (start stop depth : Nat) (s : σ) : Prop where
  low : start ≤ P.position s
  high : P.position s < stop
  begins : P.position s = start → A.Level depth s
  safe : ∀ i, P.fetch A.code s = some i → A.Safe s i

variable {A} {s : σ} {i : ι}

/-- A routine that is called below a number of slots finds the stack as it needs it. -/
theorem below_calling {k : Nat} (hk : k ≤ A.limit) (h : P.stackPointer s = stackTop A.frame k)
    (p : Nat) (a ret : UInt64) :
    Below (P.stackPointer A.entry) A.limit (P.stackPointer (P.calling s p a ret)) := by
  have hspace := A.space
  have hrise := P.rise_le
  have hframe := A.toNat_frame
  have htop := toNat_stackTop A.frame k (by omega)
  have hof : (UInt64.ofNat (16 - P.rise)).toNat = 16 - P.rise :=
    UInt64.toNat_ofNat_of_lt' (Nat.lt_of_le_of_lt (Nat.sub_le ..) (by decide))
  have hsp := UInt64.toNat_sub_of_le (stackTop A.frame k) (UInt64.ofNat (16 - P.rise))
    (UInt64.le_iff_toNat_le.2 (by omega))
  rw [P.stackPointer_calling, h, Below, hsp, htop, hof]
  omega

section Calls

variable {a : UInt64} {slots : List UInt64} {k p : Nat} {ret : UInt64}
  (he : A.context.Enabled (.call a) (P.view s slots)) (hk : k ≤ A.limit)
  (h : P.stackPointer s = stackTop A.frame k)
include he hk h

/-- A routine that returns has kept to the calling convention and to its contract. -/
theorem effect_of_call {s' : σ} (hs : A.world.routine a (P.calling s p a ret) = some s') :
    P.kept (P.stackPointer A.entry) (P.calling s p a ret) s' ∧
      A.context.Effect (.call a) (P.view s slots) (P.view s' slots) := by
  obtain ⟨ha, r, rfl, hask⟩ := he
  have hbelow := below_calling hk h p (A.symbols.address r) ret
  refine ⟨((A.serves r s slots p ret ha hbelow hask).2 s' hs).1, ?_, fun r' hr' hask' => ?_⟩
  · rw [P.view_eq s, P.view_eq s']
  · change A.symbols.address r' = A.symbols.address r at hr'
    have hserves := A.serves r' s slots p ret (hr' ▸ ha) (hr' ▸ hbelow) fun _ => hask'
    rw [hr'] at hserves
    exact (hserves.2 s' hs).2 hask'

theorem not_total_of_call (hs : A.world.routine a (P.calling s p a ret) = none) :
    ¬A.contract.total := by
  intro ht
  obtain ⟨ha, r, rfl, hask⟩ := he
  obtain ⟨s', hs'⟩ := (A.serves r s slots p ret ha (below_calling hk h p _ ret) hask).1 ht
  cases hs.symm.trans hs'

end Calls

theorem Safe.of_still (hcall : ¬P.calls i) (hstore : P.stores s i = []) : A.Safe s i where
  call h := absurd h hcall
  store a ha := by
    rw [hstore] at ha
    cases ha

theorem Safe.aligned (h : A.Safe s i) (hc : P.calls i)
    (ha : (P.stackPointer A.entry).toNat % 16 = P.rise % 16) :
    (P.stackPointer s).toNat % 16 = 0 := by
  obtain ⟨k, hk, hsp⟩ := h.call hc
  have hspace := A.space
  have hrise := P.rise_le
  have hframe := A.toNat_frame
  rw [hsp, toNat_stackTop A.frame k (by omega)]
  omega

/-- The code's own stores are between the entry stack pointer and the last slot. -/
theorem Safe.within (h : A.Safe s i) {a : UInt64} (ha : a ∈ P.stores s i) :
    (P.stackPointer A.entry).toNat ≤ a.toNat + 16 * A.limit + P.rise ∧
      a.toNat + 8 ≤ (P.stackPointer A.entry).toNat := by
  obtain ⟨hlow, hhigh⟩ := h.store a ha
  have hspace := A.space
  have hframe := A.toNat_frame
  omega

/-- Where instructions keep to the stack, no other memory changes but in a call. -/
theorem memory_of_safe (h : ∀ i, P.fetch A.code s = some i → A.Safe s i) {s' : σ}
    (hs : P.step A.world A.base A.code s = .running s')
    (hcall : ∀ i, P.fetch A.code s = some i → ¬P.calls i) {a : UInt64}
    (hne : (P.heap s').memory a ≠ (P.heap s).memory a) :
    (P.stackPointer A.entry).toNat ≤ a.toNat + 16 * A.limit + P.rise ∧
      a.toNat < (P.stackPointer A.entry).toNat := by
  have hlt := (P.stackPointer A.entry).toNat_lt
  refine Decidable.byContradiction fun hout => hne (P.memory hs hcall a fun i hf w hw => ?_)
  have hwithin := (h i hf).within hw
  omega

end Activation

namespace Processor

variable {σ ι κ : Type} {P : Processor σ ι κ} {A : Arena} {symbols : Symbols} {world : World σ}
  {slots : Nat} {m : σ}

theorem Runtime.grows_calling {top : UInt64} (R : P.Runtime A symbols world top slots) {s : σ}
    {p : Nat} {a ret : UInt64} (h : Below top slots (P.stackPointer (P.calling s p a ret))) :
    A.Grows (P.heap s) (P.heap (P.calling s p a ret)) 0 := by
  have hfree := P.free_calling s p a ret
  have hlt := top.toNat_lt
  obtain ⟨hlow, hhigh, -⟩ := h
  refine ⟨fun b hb => ⟨?_, ?_⟩, Nat.le_of_eq (congrArg A.room hfree.symm)⟩
  · exact (congrArg (A.used · b) hfree).mpr hb
  · have hout := R.apart _ b hb
    exact P.memory_calling s p a ret (by omega) b (by omega)

def Runtime.activation (R : P.Runtime A symbols world (P.stackPointer m) slots)
    (start : P.position m = 0) (base : UInt64) (code : κ) : Activation P where
  world := world
  base := base
  code := code
  symbols := symbols
  contract := A.contract world.doubles P.target.roles
  entry := m
  start := start
  limit := slots
  space := R.space
  serves r s values p ret hr hbelow hask := by
    have g := R.grows_calling hbelow
    have hargs := P.arguments_calling s p (symbols.address r) ret
    rw [P.view_eq s values] at hask ⊢
    obtain ⟨s', hs', hk, hp⟩ := R.serves r hr _ hbelow
      (Arena.asks_of_grows g hargs (by cases r <;> exact hask trivial))
    refine ⟨fun _ => ⟨s', hs'⟩, fun s'' hs'' => ?_⟩
    cases hs'.symm.trans hs''
    refine ⟨hk, fun _ => ?_⟩
    have hp' := Arena.promises_of_grows g hargs hp
    rw [P.view_eq s' values]
    cases r <;> exact hp'

def Conventional.activation (h : P.Conventional symbols world (P.stackPointer m) slots)
    (start : P.position m = 0) (space : 16 * slots + 16 ≤ (P.stackPointer m).toNat)
    (base : UInt64) (code : κ) : Activation P where
  world := world
  base := base
  code := code
  symbols := symbols
  contract := ⟨False, fun _ _ => False, fun _ _ _ => True⟩
  entry := m
  start := start
  limit := slots
  space := space
  serves r _ _ _ _ hr hbelow _ :=
    ⟨False.elim, fun s' hs' => ⟨h r hr _ s' hbelow hs', False.elim⟩⟩

end Processor

end OnePass.Native
