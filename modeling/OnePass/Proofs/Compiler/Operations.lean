import OnePass.Proofs.Compiler.Generation
import OnePass.Proofs.Compiler.Linking

/-!
# The operations of compiled code

Which operations the code of an expression consists of, and that a target has them all.
-/

set_option autoImplicit false

namespace OnePass

open Native (Used)

def Expr.Known : Expr → Prop
  | .sign op e => op ≠ .unknown ∧ e.Known
  | .binary op a b => op ≠ .unknown ∧ a.Known ∧ b.Known
  | _ => True

theorem Grammar.Derivation.known {c : Grammar.Category} (d : Derivation c) : d.expr.Known := by
  induction d with
  | literal x => cases x <;> trivial
  | parens d ih | atom d ih | factor d ih | term d ih => exact ih
  | sign s d ih => exact ⟨by cases s <;> nofun, ih⟩
  | multiply a o b iha ihb => exact ⟨by cases o <;> nofun, iha, ihb⟩
  | add a o b iha ihb => exact ⟨by cases o <;> nofun, iha, ihb⟩

def Action.Uses (l : Linkage) (a : Action) : Prop := ∀ address, ∀ o ∈ a.operations address, Used l o

section Uses

variable {l : Linkage}

theorem Action.uses_operation {o : Operation} (h : Used l o) : (Action.operation o).Uses l := by
  rintro _ o' ho
  obtain rfl := List.mem_singleton.1 ho
  exact h

theorem Action.uses_note (e : Event) : (Action.note e).Uses l := fun _ => List.forall_mem_nil _

theorem pushCode_uses (ty : Ty) (depth : Nat) : ∀ a ∈ l.pushCode ty depth, a.Uses l := by
  simp only [Linkage.pushCode, Linkage.register, List.forall_mem_cons]
  refine ⟨Action.uses_operation ?_, Action.uses_note _, List.forall_mem_nil _⟩
  cases ty.isFloat with
  | true => exact .pushFloat
  | false => exact .push

theorem popCode_uses {r : Text} (h : Used l (.pop r)) (ty : Ty) (depth : Nat) :
    ∀ a ∈ popCode r ty depth, a.Uses l := by
  simp only [popCode, List.forall_mem_cons]
  exact ⟨Action.uses_note _, Action.uses_operation h, List.forall_mem_nil _⟩

theorem popFloatCode_uses {r : Text} (h : Used l (.popFloat r)) (depth : Nat) :
    ∀ a ∈ popFloatCode r depth, a.Uses l := by
  simp only [popFloatCode, List.forall_mem_cons]
  exact ⟨Action.uses_note _, Action.uses_operation h, List.forall_mem_nil _⟩

theorem popAsFloatCode_uses {freg reg : Text} (hf : Used l (.popFloat freg))
    (hp : Used l (.pop reg))
    (hc : Used l (.intToFloat freg reg)) (ty : Ty) (depth : Nat) :
    ∀ a ∈ popAsFloatCode freg reg ty depth, a.Uses l := by
  unfold popAsFloatCode
  split
  · exact popFloatCode_uses hf depth
  · simp only [List.forall_mem_append, List.forall_mem_cons]
    exact ⟨popCode_uses hp ty depth, Action.uses_operation hc, List.forall_mem_nil _⟩

theorem operandsCode_uses (left right : Ty) (depth : Nat) (c : Coercion) :
    ∀ a ∈ l.operandsCode left right depth c, a.Uses l := by
  cases c with
  | int =>
    exact List.forall_mem_append.2 ⟨popCode_uses .popOperand _ _, popCode_uses .popAccumulator _ _⟩
  | float =>
    exact List.forall_mem_append.2
      ⟨popAsFloatCode_uses .popFloatOperand .popOperand .convertOperand _ _,
        popAsFloatCode_uses .popFloatAccumulator .popAccumulator .convertAccumulator _ _⟩
  | concat =>
    exact List.forall_mem_append.2 ⟨popCode_uses .popSecond _ _, popCode_uses .popFirst _ _⟩

theorem computeCode_used {op : Operator} (hop : op ≠ .unknown) (c : Coercion) :
    ∀ o ∈ l.computeCode c op, Used l o := by
  unfold Linkage.computeCode
  cases hr : c.routine? op with
  | some r =>
    simp only [Linkage.callCode, List.forall_mem_cons]
    refine ⟨.call r, ?_, List.forall_mem_nil _⟩
    cases r with
    | concat => exact .moveResult
    | pow | fmod => exact .moveFloatResult
  | none =>
    cases c with
    | int => exact List.forall_mem_cons.2 ⟨.intBinary op hop, List.forall_mem_nil _⟩
    | float =>
      refine List.forall_mem_cons.2 ⟨.floatBinary op ?_, List.forall_mem_nil _⟩
      cases op <;> simp_all [Coercion.routine?]
    | concat => cases hr

theorem binaryCode_uses {op : Operator} (hop : op ≠ .unknown) (left right : Ty) (depth : Nat) :
    ∀ a ∈ l.binaryCode op left right depth, a.Uses l := by
  unfold Linkage.binaryCode
  split
  · exact List.forall_mem_nil _
  · rename_i result c _
    simp only [List.forall_mem_cons, List.forall_mem_append, List.forall_mem_map]
    exact ⟨Action.uses_note _, ⟨operandsCode_uses left right depth c,
      fun o ho => Action.uses_operation (computeCode_used hop c o ho)⟩, pushCode_uses result depth⟩

theorem signCode_uses (op : Operator) (operand : Ty) (depth : Nat) :
    ∀ a ∈ l.signCode op operand depth, a.Uses l := by
  unfold Linkage.signCode
  split
  · exact List.forall_mem_append.2 ⟨popFloatCode_uses .popFloatAccumulator depth,
      List.forall_mem_cons.2 ⟨Action.uses_operation .truncate, pushCode_uses .int depth⟩⟩
  · exact List.forall_mem_append.2 ⟨popFloatCode_uses .popFloatAccumulator depth,
      List.forall_mem_cons.2 ⟨Action.uses_operation .negateFloat, pushCode_uses .float depth⟩⟩
  · exact List.forall_mem_append.2 ⟨popCode_uses .popAccumulator .int depth,
      List.forall_mem_cons.2 ⟨Action.uses_operation .negate, pushCode_uses .int depth⟩⟩
  · exact List.forall_mem_nil _

theorem resultCode_uses (ty : Ty) : ∀ a ∈ l.resultCode ty, a.Uses l := by
  unfold Linkage.resultCode
  split
  · exact popFloatCode_uses .popFloatResult 0
  · exact popCode_uses .popResult ty 0

theorem Expr.code_uses {e : Expr} (he : e.Known) (depth : Nat) :
    ∀ a ∈ e.code l depth, a.Uses l := by
  induction e generalizing depth with
  | null | bool b | int n =>
    exact List.forall_mem_cons.2 ⟨Action.uses_operation (.loadWord _), pushCode_uses _ depth⟩
  | float x =>
    refine List.forall_mem_cons.2 ⟨fun address o ho => ?_, pushCode_uses _ depth⟩
    obtain rfl := List.mem_singleton.1 ho
    exact .loadFloat address
  | string s =>
    refine List.forall_mem_cons.2 ⟨fun address o ho => ?_, pushCode_uses _ depth⟩
    obtain rfl := List.mem_singleton.1 ho
    exact .loadWord address
  | sign op e ih =>
    exact List.forall_mem_append.2 ⟨ih he.2 depth, signCode_uses op e.ty depth⟩
  | binary op a b iha ihb =>
    exact List.forall_mem_append.2 ⟨List.forall_mem_append.2 ⟨iha he.2.1 depth,
      ihb he.2.2 (depth + 1)⟩, binaryCode_uses he.1 a.ty b.ty depth⟩

theorem Expr.body_uses {e : Expr} (he : e.Known) : ∀ a ∈ e.body l, a.Uses l :=
  List.forall_mem_append.2 ⟨code_uses he 0, resultCode_uses e.ty⟩

theorem linked_used {as : List Action} (h : ∀ a ∈ as, a.Uses l) (base : UInt64) (offset : Nat) :
    ∀ o ∈ linked base offset as, Used l o := by
  induction as generalizing offset with
  | nil => exact List.forall_mem_nil _
  | cons a as ih =>
    obtain ⟨ha, has⟩ := List.forall_mem_cons.1 h
    exact List.forall_mem_append.2 ⟨ha _, ih has _⟩

end Uses

theorem Encoder.takes_function {target : Target} (E : Encoder target) (symbols : Symbols) {e : Expr}
    (he : e.Known) : ∀ a ∈ e.function ⟨target.roles, symbols⟩, E.Takes a := by
  have hone : ∀ {o : Operation}, (E.bytes? o).isSome → E.Takes (.operation o) := by
    intro o ho address o' ho'
    obtain rfl := List.mem_singleton.1 ho'
    exact ho
  refine List.forall_mem_cons.2 ⟨hone E.prologue, List.forall_mem_append.2 ⟨fun a ha => ?_,
    List.forall_mem_cons.2 ⟨hone E.epilogue, List.forall_mem_nil _⟩⟩⟩
  exact fun address o ho => E.used (e.body_uses he a ha address o ho)

def popAsFloat (freg reg : Text) (ty : Ty) : List Operation :=
  if ty = .float then [.popFloat freg] else [.pop reg, .intToFloat freg reg]

def operands (l : Linkage) (left right : Ty) : Coercion → List Operation
  | .int => [.pop l.roles.operand, .pop l.roles.accumulator]
  | .float => popAsFloat l.roles.floatOperand l.roles.operand right ++
      popAsFloat l.roles.floatAccumulator l.roles.accumulator left
  | .concat => [.pop l.roles.secondArgument, .pop l.roles.firstArgument]

def pushed (l : Linkage) (ty : Ty) : Operation :=
  if ty.isFloat then .pushFloat l.roles.floatAccumulator else .push l.roles.accumulator

def signed (l : Linkage) : Operator → Ty → List Operation
  | .add, .float => [.popFloat l.roles.floatAccumulator,
      .floatToInt l.roles.accumulator l.roles.floatAccumulator, pushed l .int]
  | .sub, .float => [.popFloat l.roles.floatAccumulator,
      .floatNegate l.roles.floatAccumulator, pushed l .float]
  | .sub, .int => [.pop l.roles.accumulator, .intNegate l.roles.accumulator, pushed l .int]
  | _, _ => []

section Plain

variable {l : Linkage} {depth : Nat}

structure Plain (as : List Action) (os : List Operation) : Prop where
  linked : ∀ base offset, linked base offset as = os
  constants : ∀ offset, constants offset as = []

theorem Plain.append {as bs : List Action} {os os' : List Operation} (ha : Plain as os)
    (hb : Plain bs os') : Plain (as ++ bs) (os ++ os') where
  linked base offset := by
    rw [linked_append, ha.linked, hb.linked]
  constants offset := by
    rw [constants_append, ha.constants, hb.constants]
    rfl

theorem plain_operations (os : List Operation) : Plain (os.map .operation) os :=
  ⟨fun base offset => linked_operations base offset os,
    fun offset => constants_operations offset os⟩

theorem plain_popAsFloatCode (freg reg : Text) (ty : Ty) :
    Plain (popAsFloatCode freg reg ty depth) (popAsFloat freg reg ty) := by
  unfold popAsFloatCode popAsFloat
  split
  · exact ⟨fun _ _ => rfl, fun _ => rfl⟩
  · exact ⟨fun _ _ => rfl, fun _ => rfl⟩

theorem plain_operandsCode (left right : Ty) (co : Coercion) :
    Plain (l.operandsCode left right depth co) (operands l left right co) := by
  cases co with
  | int | concat => exact ⟨fun _ _ => rfl, fun _ => rfl⟩
  | float => exact (plain_popAsFloatCode ..).append (plain_popAsFloatCode ..)

theorem plain_pushCode (ty : Ty) : Plain (l.pushCode ty depth) [pushed l ty] := by
  unfold Linkage.pushCode Linkage.register pushed
  cases ty.isFloat <;> exact ⟨fun _ _ => rfl, fun _ => rfl⟩

theorem plain_literal (o : Operation) (ty : Ty) :
    Plain (.operation o :: l.pushCode ty depth) [o, pushed l ty] :=
  (plain_operations [o]).append (plain_pushCode ty)

theorem plain_binaryCode {op : Operator} {left right t : Ty} {co : Coercion}
    (hp : op.promote left right = .ok (t, co)) :
    Plain (l.binaryCode op left right depth)
      (operands l left right co ++ l.computeCode co op ++ [pushed l t]) := by
  have h := (((plain_operandsCode left right co).append
    (plain_operations (l.computeCode co op))).append
    (plain_pushCode t) : Plain (l.operandsCode left right depth co ++ _ ++ l.pushCode t depth) _)
  unfold Linkage.binaryCode
  rw [hp]
  exact ⟨h.linked, h.constants⟩

theorem plain_signCode (op : Operator) (ty : Ty) :
    Plain (l.signCode op ty depth) (signed l op ty) := by
  cases op <;> cases ty <;> exact ⟨fun _ _ => rfl, fun _ => rfl⟩

def popped (l : Linkage) (ty : Ty) : Operation :=
  if ty.isFloat then .popFloat l.roles.floatResult else .pop l.roles.result

theorem plain_resultCode (ty : Ty) : Plain (l.resultCode ty) [popped l ty] := by
  unfold Linkage.resultCode popped
  split <;> exact ⟨fun _ _ => rfl, fun _ => rfl⟩

theorem linked_function (e : Expr) (base : UInt64) (offset : Nat) :
    linked base offset (e.function l) =
      .prologue :: (linked base offset (e.body l) ++ [Operation.epilogue]) := by
  rw [Expr.function, linked, linked_append]
  rfl

theorem constants_function (e : Expr) (offset : Nat) :
    constants offset (e.function l) = constants offset (e.code l 0) := by
  rw [Expr.function, constants, constants_append, Expr.body, constants_append,
    (plain_resultCode _).constants, List.append_nil]
  exact List.append_nil _

end Plain

end OnePass
