import OnePass.Compiler.Generator
import OnePass.Expr.Basic

/-!
# The code of an expression

What a compilation decides about an expression, said by recursion over the expression: its actions
above a number of values on the stack, how many slots they need, and the type it compiles to when
the routines that it calls are there.
-/

set_option autoImplicit false

namespace OnePass

inductive Operator.Promotes : Operator → Ty → Ty → Ty → Coercion → Prop where
  | ints (op : Operator) : Promotes op .int .int .int .int
  | intFloat (op : Operator) : Promotes op .int .float .float .float
  | floatInt (op : Operator) : Promotes op .float .int .float .float
  | floats (op : Operator) : Promotes op .float .float .float .float
  | strings : Promotes .add .string .string .string .concat

theorem Operator.promotes_of_promote {op : Operator} {left right result : Ty} {c : Coercion}
    (h : op.promote left right = .ok (result, c)) : op.Promotes left right result c := by
  cases left <;> cases right <;> simp [promote, Ty.isNumeric] at h
  · obtain ⟨rfl, rfl⟩ := h
    exact .ints op
  · obtain ⟨rfl, rfl⟩ := h
    exact .intFloat op
  · obtain ⟨rfl, rfl⟩ := h
    exact .floatInt op
  · obtain ⟨rfl, rfl⟩ := h
    exact .floats op
  · split at h
    · rename_i hop
      cases h
      exact hop ▸ .strings
    · cases h

inductive Operator.Signs : Operator → Ty → Ty → Prop where
  | plusInt : Signs .add .int .int
  | plusFloat : Signs .add .float .int
  | minusInt : Signs .sub .int .int
  | minusFloat : Signs .sub .float .float

theorem Operator.signs_of_unaryResult {op : Operator} {operand result : Ty}
    (h : op.unaryResult operand = .ok result) : op.Signs operand result := by
  cases operand <;> cases op <;> simp [unaryResult, Ty.isNumeric] at h <;> subst h <;> constructor

def Coercion.routine? : Coercion → Operator → Option Routine
  | .concat, _ => some .concat
  | .float, .mod => some .fmod
  | .float, .pow => some .pow
  | _, _ => none

def Symbols.has (s : Symbols) (c : Coercion) (op : Operator) : Prop :=
  ∀ r ∈ c.routine? op, s.address r ≠ 0

instance (s : Symbols) (c : Coercion) (op : Operator) : Decidable (s.has c op) :=
  match h : c.routine? op with
  | none => .isTrue (by simp [Symbols.has, h])
  | some r => decidable_of_iff (s.address r ≠ 0) (by simp [Symbols.has, h])

def Symbols.join? (s : Symbols) (op : Operator) (left right : Ty) : Option Ty :=
  match op.promote left right with
  | .error _ => none
  | .ok (result, c) => if s.has c op then some result else none

theorem Symbols.join?_eq_some_iff {s : Symbols} {op : Operator} {left right result : Ty} :
    s.join? op left right = some result ↔
      ∃ c, op.promote left right = .ok (result, c) ∧ s.has c op := by
  unfold join?
  cases op.promote left right with
  | error f => simp
  | ok r =>
    obtain ⟨t, c⟩ := r
    by_cases hc : s.has c op
    · simp only [hc, if_true, Option.some.injEq, Except.ok.injEq, Prod.mk.injEq]
      constructor
      · rintro rfl
        exact ⟨c, ⟨rfl, rfl⟩, hc⟩
      · rintro ⟨c', ⟨rfl, -⟩, -⟩
        rfl
    · simp only [hc, if_false, Except.ok.injEq, Prod.mk.injEq, reduceCtorEq, false_iff]
      rintro ⟨c', ⟨-, rfl⟩, hc'⟩
      exact hc hc'

namespace Linkage

variable (l : Linkage)

def register (ty : Ty) : Text :=
  if ty.isFloat then l.roles.floatAccumulator else l.roles.accumulator

def pushCode (ty : Ty) (depth : Nat) : List Action :=
  [.operation (if ty.isFloat then .pushFloat (l.register ty) else .push (l.register ty)),
    .note (.pushed (l.register ty) ty (depth + 1))]

end Linkage

def popCode (register : Text) (ty : Ty) (depth : Nat) : List Action :=
  [.note (.popped register ty depth), .operation (.pop register)]

def popFloatCode (register : Text) (depth : Nat) : List Action :=
  [.note (.popped register .float depth), .operation (.popFloat register)]

def popAsFloatCode (freg reg : Text) (ty : Ty) (depth : Nat) : List Action :=
  if ty = .float then popFloatCode freg depth
  else popCode reg ty depth ++ [.operation (.intToFloat freg reg)]

namespace Linkage

variable (l : Linkage)

def operandsCode (left right : Ty) (depth : Nat) : Coercion → List Action
  | .int =>
    popCode l.roles.operand right (depth + 1) ++ popCode l.roles.accumulator left depth
  | .float =>
    popAsFloatCode l.roles.floatOperand l.roles.operand right (depth + 1) ++
      popAsFloatCode l.roles.floatAccumulator l.roles.accumulator left depth
  | .concat =>
    popCode l.roles.secondArgument right (depth + 1) ++ popCode l.roles.firstArgument left depth

def callCode (r : Routine) : List Operation :=
  [.call (l.symbols.address r),
    match r with
    | .concat => .move l.roles.accumulator l.roles.result
    | _ => .moveFloat l.roles.floatAccumulator l.roles.floatResult]

def computeCode (c : Coercion) (op : Operator) : List Operation :=
  match c.routine? op with
  | some r => l.callCode r
  | none =>
    match c with
    | .float => [.floatBinary op l.roles.floatAccumulator l.roles.floatOperand]
    | _ => [.intBinary op l.roles.accumulator l.roles.operand]

def binaryCode (op : Operator) (left right : Ty) (depth : Nat) : List Action :=
  match op.promote left right with
  | .error _ => []
  | .ok (result, c) =>
    .note (.combined left op right result c) ::
      (l.operandsCode left right depth c ++ (l.computeCode c op).map .operation ++
        l.pushCode result depth)

def signCode (op : Operator) (operand : Ty) (depth : Nat) : List Action :=
  match op, operand with
  | .add, .float =>
    popFloatCode l.roles.floatAccumulator depth ++
      .operation (.floatToInt l.roles.accumulator l.roles.floatAccumulator) ::
        l.pushCode .int depth
  | .sub, .float =>
    popFloatCode l.roles.floatAccumulator depth ++
      .operation (.floatNegate l.roles.floatAccumulator) :: l.pushCode .float depth
  | .sub, .int =>
    popCode l.roles.accumulator .int depth ++
      .operation (.intNegate l.roles.accumulator) :: l.pushCode .int depth
  | _, _ => []

def resultCode (ty : Ty) : List Action :=
  if ty.isFloat then popFloatCode l.roles.floatResult 0 else popCode l.roles.result ty 0

end Linkage

namespace Expr

def ty (e : Expr) : Ty := e.type?.getD .unknown

def compiles? (s : Symbols) : Expr → Option Ty
  | .sign op e =>
    match e.compiles? s with
    | none => none
    | some t => (op.unaryResult t).toOption
  | .binary op a b =>
    match a.compiles? s, b.compiles? s with
    | some t, some u => s.join? op t u
    | _, _ => none
  | e => e.type?

def code (l : Linkage) : Nat → Expr → List Action
  | depth, .null => .operation (.loadImmediate l.roles.accumulator 0) :: l.pushCode .null depth
  | depth, .bool b =>
    .operation (.loadImmediate l.roles.accumulator (if b then 1 else 0)) :: l.pushCode .bool depth
  | depth, .int n =>
    .operation (.loadImmediate l.roles.accumulator n.toUInt64) :: l.pushCode .int depth
  | depth, .float x => .loadFloat l.roles.floatAccumulator x :: l.pushCode .float depth
  | depth, .string s => .loadText l.roles.accumulator s :: l.pushCode .string depth
  | depth, .sign op e => e.code l depth ++ l.signCode op e.ty depth
  | depth, .binary op a b =>
    a.code l depth ++ b.code l (depth + 1) ++ l.binaryCode op a.ty b.ty depth

def body (l : Linkage) (e : Expr) : List Action := e.code l 0 ++ l.resultCode e.ty

def function (l : Linkage) (e : Expr) : List Action :=
  .operation .prologue :: (e.body l ++ [.operation .epilogue])

def need : Expr → Nat
  | .sign _ e => e.need
  | .binary _ a b => max a.need (b.need + 1)
  | _ => 1

theorem need_pos (e : Expr) : 0 < e.need := by
  induction e with
  | null | bool b | int n | float x | string s => exact Nat.one_pos
  | sign op e ih => exact ih
  | binary op a b iha _ => exact Nat.lt_of_lt_of_le iha (Nat.le_max_left ..)

theorem compiles?_sign {s : Symbols} {op : Operator} {e : Expr} {t : Ty}
    (h : (Expr.sign op e).compiles? s = some t) :
    ∃ u, e.compiles? s = some u ∧ op.unaryResult u = .ok t := by
  simp only [compiles?] at h
  split at h
  · cases h
  · rename_i u hu
    refine ⟨u, hu, ?_⟩
    cases hr : op.unaryResult u with
    | error f =>
      rw [hr] at h
      cases h
    | ok r =>
      rw [hr] at h
      cases h
      rfl

theorem compiles?_binary {s : Symbols} {op : Operator} {a b : Expr} {t : Ty}
    (h : (Expr.binary op a b).compiles? s = some t) :
    ∃ u w c, a.compiles? s = some u ∧ b.compiles? s = some w ∧
      op.promote u w = .ok (t, c) ∧ s.has c op := by
  simp only [compiles?] at h
  split at h
  · rename_i u w hu hw
    obtain ⟨c, hp, hc⟩ := Symbols.join?_eq_some_iff.1 h
    exact ⟨u, w, c, hu, hw, hp, hc⟩
  · cases h

/-- What compiles is typed. -/
theorem type?_of_compiles? {s : Symbols} {e : Expr} {t : Ty} (h : e.compiles? s = some t) :
    e.type? = some t := by
  induction e generalizing t with
  | null | bool b | int n | float x | string s => exact h
  | sign op e ih =>
    obtain ⟨u, hu, hr⟩ := compiles?_sign h
    simp only [type?, ih hu, hr]
    rfl
  | binary op a b iha ihb =>
    obtain ⟨u, w, c, hu, hw, hp, -⟩ := compiles?_binary h
    simp only [type?, iha hu, ihb hw, hp]
    rfl

theorem ty_of_compiles? {s : Symbols} {e : Expr} {t : Ty} (h : e.compiles? s = some t) :
    e.ty = t := by
  rw [ty, type?_of_compiles? h]
  rfl

/-- With all routines there, what is typed compiles. -/
theorem compiles?_eq_type? {s : Symbols} (hs : ∀ r, s.address r ≠ 0) (e : Expr) :
    e.compiles? s = e.type? := by
  induction e with
  | null | bool b | int n | float x | string s => rfl
  | sign op e ih =>
    rw [compiles?, ih]
    rfl
  | binary op a b iha ihb =>
    have hhas : ∀ c, s.has c op := fun c r _ => hs r
    simp only [compiles?, type?, iha, ihb, Symbols.join?, if_pos (hhas _)]
    cases a.type? <;> cases b.type? <;> try rfl
    rename_i t u
    dsimp only
    cases op.promote t u <;> rfl

end Expr

end OnePass
