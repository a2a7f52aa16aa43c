import OnePass.Proofs.Buffer.Congruence
import OnePass.Proofs.Compiler.Faults

/-!
# Both targets compile alike

The data buffer depends on the constants of the actions alone: not on the target, and not on what
was traced. As long as the code fits for both targets, a compilation for one of them ends as it does
for the other, with the same type and the same constants or with the same diagnostic.
-/

set_option autoImplicit false

namespace OnePass

theorem Emission.data_perform (target : Target) (e : Emission) (a : Action) :
    (e.perform target a).data = match a.pieces? with
      | none => e.data
      | some pieces => ((e.onData (·.align 8)).dataWriter.appendAll pieces).buffer := by
  cases a <;> rfl

section Data

variable {target target' : Target} {E : Encoder target} {E' : Encoder target'}
  {code code' data : Buffer} {symbols symbols' : Symbols}

theorem Emitted.data_step {done done' : List Action} {e e' : Emission}
    (h : Emitted E code data done e) (h' : Emitted E' code' data done' e') (hd : e'.data = e.data)
    {a a' : Action} (hp : a'.pieces? = a.pieces?) :
    (e'.perform target' a').data = (e.perform target a).data := by
  have htwin : Writer.Twin e.dataWriter e'.dataWriter :=
    ⟨hd, h'.stored.misuse.trans h.stored.misuse.symm⟩
  have haligned : Writer.Twin (e.onData (·.align 8)).dataWriter
      (e'.onData (·.align 8)).dataWriter :=
    ⟨(Writer.Twin.lockstep.align htwin 8).buffer, (Writer.Twin.lockstep.align htwin 8).misuse⟩
  rw [Emission.data_perform, Emission.data_perform, hp]
  cases a.pieces? with
  | none => exact hd
  | some pieces => exact (Writer.Twin.lockstep.congruence.appendAll haligned pieces).buffer

theorem Emitted.data_run {todo todo' : List Action}
    (hp : List.Forall₂ (Action.Paired ⟨target.roles, symbols⟩ ⟨target'.roles, symbols'⟩) todo todo')
    {done done' : List Action} {e e' : Emission} (h : Emitted E code data done e)
    (h' : Emitted E' code' data done' e') (hd : e'.data = e.data) :
    (todo'.foldl (Emission.perform target') e').data =
      (todo.foldl (Emission.perform target) e).data := by
  induction hp generalizing done done' e e' with
  | nil => exact hd
  | cons ha _ ih =>
    exact ih (h.perform (ha.left.takes E)) (h'.perform (ha.right.takes E'))
      (data_step h h' hd ha.pieces)

end Data

def Buffer.Overflowed (b : Buffer) : Prop :=
  ∃ name needed capacity, b.failure = some (.overflow name needed capacity)

section Compilations

variable {target target' : Target} {symbols symbols' : Symbols} {code code' data : Buffer}
  {verbose : Bool}

theorem compileTokens_data (E : Encoder target) (E' : Encoder target') (tokens : List Token)
    (verbose verbose' : Bool)
    (hl : Linkage.Like ⟨target.roles, symbols⟩ ⟨target'.roles, symbols'⟩)
    (hc : code.Ready) (hc' : code'.Ready) (hd : data.Ready) :
    (compileTokens target' symbols' tokens code' data verbose').emission.data =
      (compileTokens target symbols tokens code data verbose).emission.data := by
  obtain ⟨slots, hg⟩ := compileTokens_alike tokens hl code data code' data verbose verbose'
  rw [(compileTokens_emission target symbols tokens code data verbose).2.1,
    (compileTokens_emission target' symbols' tokens code' data verbose').2.1,
    Emission.performAll, Emission.performAll, ← Array.foldl_toList, ← Array.foldl_toList]
  have hb : Emitted E code data [] { code, data, verbose } := .begin hc hd verbose
  have hb' : Emitted E' code' data [] { code := code', data, verbose := verbose' } :=
    .begin hc' hd verbose'
  exact Emitted.data_run hg.actions hb hb' rfl

theorem compileTokens_failure? (E : Encoder target) {tokens : List Token} (hc : code.Ready)
    (hd : data.Ready)
    (h : ¬(compileTokens target symbols tokens code data verbose).emission.code.Overflowed) :
    (Emission.performAll target { code, data, verbose }
      (compileTokens target symbols tokens code data verbose).generator.actions).failure? =
      (compileTokens target symbols tokens code data verbose).emission.data.failure := by
  obtain ⟨hcode, hdata, -⟩ := compileTokens_emission target symbols tokens code data verbose
  have he := compileTokens_emitted symbols tokens verbose E hc hd
  rw [Emission.failure?, hdata]
  rcases he.code_failure with hnone | ⟨needed, hover⟩
  · simp [hnone]
  · exact absurd ⟨_, needed, _, hcode ▸ hover⟩ h

end Compilations

/-- For every source, the two targets end in the same way as long as the code fits for both: with
the same type or the same diagnostic, with the same data, and with the operand stack and the tokens
at the same point. -/
theorem compileTokens_same_for_targets (symbols : Symbols) (tokens : List Token)
    {code code' data : Buffer} (hc : code.Ready) (hc' : code'.Ready) (hd : data.Ready)
    {verbose verbose' : Bool} {x a : Compilation}
    (hx : compileTokens X86.target symbols tokens code data verbose = x)
    (ha : compileTokens Arm64.target symbols tokens code' data verbose' = a)
    (hfx : ¬x.emission.code.Overflowed) (hfa : ¬a.emission.code.Overflowed) :
    a.outcome = x.outcome ∧ a.emission.data = x.emission.data ∧
      a.generator.stack.depth = x.generator.stack.depth ∧
      a.generator.stack.maxDepth = x.generator.stack.maxDepth ∧
      a.generator.position = x.generator.position := by
  subst hx ha
  have hl : Linkage.Like ⟨X86.target.roles, symbols⟩ ⟨Arm64.target.roles, symbols⟩ :=
    fun _ => Iff.rfl
  have hdata := compileTokens_data X86.encoder Arm64.encoder tokens verbose verbose' hl hc hc' hd
  obtain ⟨slots, hg⟩ := compileTokens_alike tokens hl code data code' data verbose verbose'
  refine ⟨?_, hdata, ?_, hg.maxDepth, hg.position⟩
  · have hrun := Generate.function_agree hl _ _ (.start _ _ tokens)
    rw [compileTokens_outcome, compileTokens_outcome,
      compileTokens_failure? X86.encoder hc hd hfx,
      compileTokens_failure? Arm64.encoder hc' hd hfa, hdata]
    generalize Generate.function ⟨X86.target.roles, symbols⟩ (.start tokens) = r at hrun ⊢
    generalize Generate.function ⟨Arm64.target.roles, symbols⟩ (.start tokens) = r' at hrun ⊢
    cases hrun <;> rfl
  · rw [OperandStack.depth, OperandStack.depth, hg.left, hg.right]

/-- A remainder of doubles, with two constants and a call, compiles for both targets alike. -/
theorem remainder_same_for_targets :
    ∃ x a, compileTokens X86.target ⟨1, 2, 3⟩ (tokenize (utf8 "7.5 % 2.0"))
        (.create [] 512 0) (.create [] 64 0x1000) = x ∧
      compileTokens Arm64.target ⟨1, 2, 3⟩ (tokenize (utf8 "7.5 % 2.0"))
        (.create [] 512 0) (.create [] 64 0x1000) = a ∧
      x.outcome = .ok .float ∧ a.outcome = .ok .float ∧ a.emission.data = x.emission.data ∧
      x.emission.data.bytes.length = 16 := by
  generalize hx : compileTokens X86.target ⟨1, 2, 3⟩ (tokenize (utf8 "7.5 % 2.0"))
    (.create [] 512 0) (.create [] 64 0x1000) = x
  generalize ha : compileTokens Arm64.target ⟨1, 2, 3⟩ (tokenize (utf8 "7.5 % 2.0"))
    (.create [] 512 0) (.create [] 64 0x1000) = a
  have hfx : x.outcome.toOption = some .float ∧ x.emission.code.failure = none ∧
      x.emission.data.bytes.length = 16 := by
    rw [← hx]
    decide +kernel
  have hfa : a.emission.code.failure = none := by
    rw [← ha]
    decide +kernel
  have hok : x.outcome = .ok .float := Compilation.outcome_eq_ok hfx.1
  obtain ⟨hout, hdata, -⟩ := compileTokens_same_for_targets ⟨1, 2, 3⟩ _
    ⟨rfl, rfl, by decide, by decide⟩ ⟨rfl, rfl, by decide, by decide⟩
    ⟨rfl, rfl, by decide, by decide⟩ hx ha (by simp [Buffer.Overflowed, hfx.2.1])
    (by simp [Buffer.Overflowed, hfa])
  exact ⟨x, a, rfl, rfl, hok, hout.trans hok, hdata, hfx.2.2⟩

end OnePass
