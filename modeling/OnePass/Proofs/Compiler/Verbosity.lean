import OnePass.Compiler.Basic
import OnePass.Proofs.Arm64.Congruence
import OnePass.Proofs.X86.Congruence

/-!
# Compiling without a trace

A compilation that is verbose keeps a trace of what it does, and one that is silent keeps none. Both
do the same to the buffers at every step, so they end in the same way.
-/

set_option autoImplicit false

namespace OnePass

def Target.InLockstep (target : Target) : Prop :=
  ∀ ⦃R : Writer → Writer → Prop⦄, Writer.Lockstep R →
    ∀ ⦃w w' : Writer⦄, R w w' → ∀ o, R (target.perform w o) (target.perform w' o)

theorem Arch.inLockstep {arch : Arch} {target : Target} (h : arch.target? = some target) :
    target.InLockstep := by
  cases arch with
  | x86 =>
    cases h
    exact fun _ hR _ _ => X86.perform_congr hR.congruence
  | arm64 =>
    cases h
    exact fun _ hR _ _ => Arm64.perform_congr hR
  | _ => cases h

/-- A silent emission beside one into the same buffers. -/
structure Emission.Hushed (e e' : Emission) : Prop where
  code : e'.code = e.code
  data : e'.data = e.data
  misuse : e'.misuse = e.misuse
  silent : e'.verbose = false
  trace : e'.trace = #[]

namespace Emission.Hushed

variable {e e' : Emission} {target : Target}

theorem onCode (h : e.Hushed e') {f f' : Writer → Writer}
    (hf : ∀ {w w' : Writer}, w.Hushed w' → (f w).Hushed (f' w')) :
    (e.onCode f).Hushed (e'.onCode f') := by
  have hw : (f e.codeWriter).Hushed (f' e'.codeWriter) :=
    hf ⟨⟨h.code, h.misuse⟩, h.silent, h.trace⟩
  exact ⟨hw.buffer, h.data, hw.misuse, h.silent, hw.trace⟩

theorem onData (h : e.Hushed e') {f f' : Writer → Writer}
    (hf : ∀ {w w' : Writer}, w.Hushed w' → (f w).Hushed (f' w')) :
    (e.onData f).Hushed (e'.onData f') := by
  have hw : (f e.dataWriter).Hushed (f' e'.dataWriter) :=
    hf ⟨⟨h.data, h.misuse⟩, h.silent, h.trace⟩
  exact ⟨h.code, hw.buffer, hw.misuse, h.silent, hw.trace⟩

theorem note (h : e.Hushed e') (event event' : Event) :
    (e.onCode (·.note event)).Hushed (e'.onCode (·.note event')) :=
  h.onCode fun hw => Writer.Hushed.lockstep.note hw event event'

theorem constant (ht : target.InLockstep) (h : e.Hushed e') (o : UInt64 → Operation)
    (f : Writer → Writer) (hf : ∀ {w w' : Writer}, w.Hushed w' → (f w).Hushed (f w')) :
    (((e.onData (·.align 8)).onData f).onCode
        (target.perform · (o (e.onData (·.align 8)).data.address))).Hushed
      (((e'.onData (·.align 8)).onData f).onCode
        (target.perform · (o (e'.onData (·.align 8)).data.address))) := by
  have haligned : (e.onData (·.align 8)).Hushed (e'.onData (·.align 8)) :=
    h.onData fun hw => Writer.Hushed.lockstep.align hw 8
  rw [haligned.data]
  exact (haligned.onData hf).onCode fun hw => ht Writer.Hushed.lockstep hw _

theorem perform (ht : target.InLockstep) (h : e.Hushed e') (a : Action) :
    (e.perform target a).Hushed (e'.perform target a) := by
  cases a with
  | operation o => exact h.onCode fun hw => ht Writer.Hushed.lockstep hw o
  | loadFloat freg x =>
    exact h.constant ht (.loadFloat freg) (·.append _) fun hw =>
      Writer.Hushed.lockstep.append hw _
  | loadText reg s =>
    exact h.constant ht (.loadImmediate reg) (·.appendAll _) fun hw =>
      Writer.Hushed.lockstep.congruence.appendAll hw _
  | note event => exact h.note event event

theorem performAll (ht : target.InLockstep) (h : e.Hushed e') (actions : Array Action) :
    (e.performAll target actions).Hushed (e'.performAll target actions) := by
  rw [Emission.performAll, Emission.performAll, ← Array.foldl_toList, ← Array.foldl_toList]
  generalize actions.toList = todo
  induction todo generalizing e e' with
  | nil => exact h
  | cons a todo ih => exact ih (h.perform ht a)

theorem failure? (h : e.Hushed e') : e'.failure? = e.failure? := by
  rw [Emission.failure?, Emission.failure?, h.code, h.data]

theorem commit (h : e.Hushed e') : e.commit.Hushed e'.commit :=
  (h.onCode fun hw => Writer.Hushed.lockstep.commit hw).onData fun hw =>
    Writer.Hushed.lockstep.commit hw

end Emission.Hushed

/-- In silence a compilation ends in the same way, with the same in its buffers and without a
trace. -/
theorem compileTokens_hushed {target : Target} (ht : target.InLockstep) (symbols : Symbols)
    (tokens : List Token) (code data : Buffer) :
    let c := compileTokens target symbols tokens code data true
    let c' := compileTokens target symbols tokens code data false
    c'.outcome = c.outcome ∧ c.emission.Hushed c'.emission := by
  have hbegin : Emission.Hushed { code, data, verbose := true } { code, data, verbose := false } :=
    ⟨rfl, rfl, rfl, rfl, rfl⟩
  unfold compileTokens
  cases Generate.function ⟨target.roles, symbols⟩ (.start tokens) with
  | error d g => exact ⟨rfl, hbegin.performAll ht g.actions⟩
  | ok ty g =>
    have hall := hbegin.performAll ht g.actions
    dsimp only
    rw [hall.failure?]
    cases (Emission.performAll target { code, data, verbose := true } g.actions).failure? with
    | some f => exact ⟨rfl, hall⟩
    | none => exact ⟨rfl, hall.note _ _⟩

end OnePass
