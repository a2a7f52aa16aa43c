import OnePass.Proofs.Compiler.Compilation
import OnePass.Proofs.Compiler.Discipline
import OnePass.Proofs.Compiler.Evaluation

/-!
# Compiled code on a processor

The code that is emitted for a source runs to its end and returns the value of the expression that
the source denotes, on every machine that has the constants in memory and routines that do what
they are there for. Whatever routines compute, the code keeps to its stack: between two steps of
compilation the native stack is as high as the operand stack is deep, routines are called with an
aligned stack pointer, nothing is written outside the frame and its slots, and callers find their
registers again.
-/

set_option autoImplicit false

namespace OnePass.Native

open Grammar (Derivation)

variable {σ ι κ : Type}

structure Backend (P : Processor σ ι κ) where
  encoder : Encoder P.target
  procedure : (A : Activation P) → Procedure A
  loads : ∀ os, ∃ text, P.load (encoder.encode os) = some text
  code_of_load : ∀ (A : Activation P) {os : List Operation},
    P.load (encoder.encode os) = some A.code → (procedure A).code 0 os
  length_encode : ∀ (A : Activation P) (os : List Operation),
    (encoder.encode os).length = P.unit * (procedure A).span os

namespace Processor

variable (P : Processor σ ι κ)

/-- What compiled code does: on every machine that has the constants in memory, routines and room
for what they join, it runs to its end and returns the value of the expression. -/
def Evaluates (symbols : Symbols) (code data : Buffer) (c : Compilation) (e : Expr) : Prop :=
  ∃ text, P.load (c.codeBehind code) = some text ∧
    ∀ (A : Arena) (world : World σ) (base : UInt64) (m : σ), P.position m = 0 →
      P.Runtime A symbols world (P.stackPointer m) c.generator.stack.maxDepth →
      A.Stored (P.heap m) data.base c.emission.data.bytes →
      e.joined world.doubles ≤ A.room (P.heap m).free →
      ∃ n m', run (P.step world base text) n m = .returned m' ∧
        P.Returns A m' (e.eval world.doubles)

/-- What holds whenever compiled code is about to execute an instruction, on a machine that entered
it as `entry`; `text` is the code. -/
structure Orderly (world : World σ) (base : UInt64) (text : κ) (code data : Buffer)
    (c : Compilation) (entry m : σ) : Prop where
  /-- Behind the code of the first steps, the stack is as high as the operand stack was deep. -/
  height : ∀ pre post, c.generator.actions.toList = pre ++ post → pre ≠ [] → Settled pre →
    code.offset + P.unit * P.position m =
      (Emission.performAll P.target { code, data } pre.toArray).code.offset →
    (P.framePointer m).toNat + P.rise = (P.stackPointer entry).toNat ∧
      (P.framePointer m).toNat =
        (P.stackPointer m).toNat + 16 * (OperandStack.after pre).depth
  aligned : ∀ i, P.fetch text m = some i → P.calls i → (P.stackPointer m).toNat % 16 = 0
  stores : ∀ i, P.fetch text m = some i → ∀ a ∈ P.stores m i,
    (P.stackPointer entry).toNat ≤ a.toNat + 16 * c.generator.stack.maxDepth + P.rise ∧
      a.toNat + 8 ≤ (P.stackPointer entry).toNat
  /-- No other memory changes but in a call. -/
  memory : ∀ m', P.step world base text m = .running m' →
    (∀ i, P.fetch text m = some i → ¬P.calls i) →
    ∀ a, (P.heap m').memory a ≠ (P.heap m).memory a →
      (P.stackPointer entry).toNat ≤ a.toNat + 16 * c.generator.stack.maxDepth + P.rise ∧
        a.toNat < (P.stackPointer entry).toNat
  restored : ∀ m', P.step world base text m = .returned m' → P.restored entry m
  /-- The run goes on, or returns, or a routine does not return. -/
  progress : (∃ m', P.step world base text m = .running m') ∨
    (∃ m', P.step world base text m = .returned m') ∨ ∃ i, P.fetch text m = some i ∧ P.calls i

/-- Compiled code keeps to its stack in every run that enters it with the frame on a multiple of
sixteen. -/
def Disciplined (symbols : Symbols) (code data : Buffer) (c : Compilation) : Prop :=
  ∃ text, P.load (c.codeBehind code) = some text ∧
    ∀ (world : World σ) (base : UInt64) (entry : σ), P.position entry = 0 →
      (P.stackPointer entry).toNat % 16 = P.rise % 16 →
      16 * c.generator.stack.maxDepth + 16 ≤ (P.stackPointer entry).toNat →
      P.Conventional symbols world (P.stackPointer entry) c.generator.stack.maxDepth →
      ∀ n m, run (P.step world base text) n entry = .running m →
        P.Orderly world base text code data c entry m

variable {P}

theorem Runtime.setting {A : Arena} {symbols : Symbols} {world : World σ} {m : σ} {slots : Nat}
    (R : P.Runtime A symbols world (P.stackPointer m) slots) (start : P.position m = 0)
    (base : UInt64) (code : κ) :
    Setting ⟨P.target.roles, symbols⟩ A (R.activation start base code).context where
  contract := rfl
  symbols := rfl
  apart free a ha hown := by
    have hout := R.apart free a ha
    obtain ⟨hlow, hhigh⟩ := hown
    change (P.stackPointer m).toNat - 16 * slots - 16 ≤ a.toNat at hlow
    change a.toNat < (P.stackPointer m).toNat at hhigh
    omega
  operand := P.operand
  floatOperand := P.floatOperand
  secondArgument := P.secondArgument

end Processor

namespace Backend

variable {P : Processor σ ι κ} (B : Backend P)

section Compiled

variable {symbols : Symbols} {tokens : List Token} {code data : Buffer}
  {d : Derivation .expression} {t : Ty} {c : Compilation} {A : Activation P}
  (h : Compiled B.encoder symbols code data tokens d t c)
include h

theorem exists_load : ∃ text, P.load (c.codeBehind code) = some text := by
  rw [h.codeBehind_eq]
  exact B.loads _

theorem leads_compiled (hsymbols : A.symbols = symbols)
    (hload : P.load (c.codeBehind code) = some A.code) (post : View → Prop)
    (hw : ∀ v, v.slots = [] → A.context.Quiet (P.view A.entry []) v →
      A.context.wp (linked data.base data.offset (d.expr.body ⟨P.target.roles, symbols⟩))
        (fun v => v.slots = [] ∧ post v) v) :
    A.Leads ((B.procedure A).Inside
        (linked data.base data.offset (d.expr.function ⟨P.target.roles, symbols⟩)))
      ((B.procedure A).Leaving
        (linked data.base data.offset (d.expr.function ⟨P.target.roles, symbols⟩)) post)
      A.entry := by
  subst hsymbols
  rw [h.codeBehind_eq] at hload
  have hat := B.code_of_load A hload
  rw [linked_function] at hat ⊢
  exact (B.procedure A).leads post (linked_used (d.expr.body_uses d.known) _ _) hat
    ((Expr.steps_body h.type (Nat.le_refl _)).height_eq data.base data.offset) hw

theorem disciplined_of_compiled (hc : code.Ready) (hd : data.Ready) :
    P.Disciplined symbols code data c := by
  obtain ⟨text, hload⟩ := B.exists_load h
  refine ⟨text, hload, fun world base entry hpos halign hspace hconv n m hrun => ?_⟩
  let A := hconv.activation hpos hspace base text
  have hsteps : Steps ⟨P.target.roles, symbols⟩ A.limit 0
      (d.expr.body ⟨P.target.roles, symbols⟩) 0 :=
    Expr.steps_body h.type (Nat.le_of_eq h.maxDepth.symm)
  have hlead := B.leads_compiled h (A := A) rfl hload (fun _ => True) fun v hv _ =>
    Context.wp_mono (fun v hv => ⟨List.eq_nil_of_length_eq_zero hv, trivial⟩)
      (hsteps.wp (c := A.context) rfl id rfl data.base data.offset (congrArg _ hv))
  have hm := run_eq_running_iff.1 hrun
  have hin := (hlead.visits Realization.Leaving.successor_eq_none n hm).elim id (·.inside)
  have hstop := hlead.stops Realization.Leaving.successor_eq_none n hm
  refine ⟨fun pre post he hne hset hp => ?_, fun i hf hi => (hin.safe i hf).aligned hi halign,
    fun i hf a ha => (hin.safe i hf).within ha,
    fun m' hs hcall a ha => Activation.memory_of_safe hin.safe hs hcall ha, fun m' hret => ?_, ?_⟩
  · have hsolid := (B.procedure A).solid_function
      (linked_used (d.expr.body_uses d.known) data.base data.offset)
    rw [← linked_function] at hsolid
    rw [h.offset_eq hc hd he, B.length_encode A] at hp
    obtain ⟨hframe, hsp⟩ := hin.level_depth hsteps hsolid (h.actions.symm.trans he) hne hset
      (Nat.mul_left_cancel P.unit_pos (Nat.add_left_cancel hp))
    have hrise := P.rise_le
    have htop : A.frame.toNat = (P.stackPointer entry).toNat - P.rise := A.toNat_frame
    rw [hframe, ← hsp]
    omega
  · rcases hstop (successor_of_returned hret) with hleave | ⟨-, hstuck, -⟩
    · exact hleave.restored
    · cases hret.symm.trans hstuck
  · cases hs : successor (P.step world base text) m with
    | some m' => exact .inl ⟨m', running_of_successor hs⟩
    | none =>
      rcases hstop hs with hleave | ⟨-, -, hcall⟩
      · obtain ⟨m', hret, -⟩ := hleave.returns
        exact .inr (.inl ⟨m', hret⟩)
      · exact .inr (.inr hcall)

end Compiled

theorem evaluates_of_compiled {symbols : Symbols} {source : Text} {code data : Buffer}
    {d : Derivation .expression} {t : Ty} {c : Compilation}
    (h : Compiled B.encoder symbols code data (tokenize source) d t c) :
    P.Evaluates symbols code data c d.expr := by
  obtain ⟨text, hload⟩ := B.exists_load h
  refine ⟨text, hload, fun A world base m hpos R hst hroom => ?_⟩
  rw [h.maxDepth] at R
  have S := R.setting hpos base text
  have hconst := (h.data_bytes ▸ hst).right
  rw [Buffer.length_bytes, constants_function] at hconst
  have hlead := B.leads_compiled h (A := R.activation hpos base text) rfl hload
    (Returned ⟨P.target.roles, symbols⟩ A · (d.expr.eval world.doubles)) fun v hv q => by
      refine body_computes S h.type (Derivation.zeroFree_of_source h.lexemes) data.base data.offset
        hv (Nat.le_refl _) (hconst.mono (S.grows q)) ?_
      rw [q.free]
      exact hroom
  obtain ⟨n, s, hs, hleave⟩ := hlead.reaches fun s hl => hl.1 trivial
  obtain ⟨m', hret, hvalue⟩ := hleave.returns
  exact ⟨n + 1, m', run_of_iterate hs hret, hvalue⟩

end Backend

/-- A call of a compiled function: it returns the value of its expression, with the registers as
they were. -/
theorem Processor.Disciplined.returns {P : Processor σ ι κ} {symbols : Symbols}
    {code data : Buffer} {c : Compilation} {e : Expr} (h : P.Disciplined symbols code data c)
    (he : P.Evaluates symbols code data c e) {A : Arena} {world : World σ} (base : UInt64) {m : σ}
    (hpos : P.position m = 0) (halign : (P.stackPointer m).toNat % 16 = P.rise % 16)
    (R : P.Runtime A symbols world (P.stackPointer m) c.generator.stack.maxDepth)
    (hconv : P.Conventional symbols world (P.stackPointer m) c.generator.stack.maxDepth)
    (hst : A.Stored (P.heap m) data.base c.emission.data.bytes)
    (hroom : e.joined world.doubles ≤ A.room (P.heap m).free) :
    ∃ text n s m', P.load (c.codeBehind code) = some text ∧
      run (P.step world base text) n m = .running s ∧
      P.step world base text s = .returned m' ∧ P.restored m s ∧
      P.Returns A m' (e.eval world.doubles) := by
  obtain ⟨text, hload, h⟩ := h
  obtain ⟨text', hload', he⟩ := he
  cases Option.some.inj (hload.symm.trans hload')
  obtain ⟨n, m', hrun, hvalue⟩ := he A world base m hpos R hst hroom
  obtain ⟨k, s, hs, hret⟩ := exists_running_of_returned hrun
  have ho := h world base m hpos halign R.space hconv k s hs
  exact ⟨text, k, s, m', hload, hs, hret, ho.restored m' hret, hvalue⟩

end OnePass.Native
