import OnePass.Compiler.Basic

/-!
# The operand stack in the actions

The generator keeps an operand stack, and its actions note every push and pop. At every point of
generation, whether it ends well or not, the stack is what the notes of the actions so far make of
an empty one; so the depth at an earlier point can be told from the actions that were decided up to
there.
-/

set_option autoImplicit false

namespace OnePass

def OperandStack.follow (s : OperandStack) : Action → OperandStack
  | .note (.pushed register ty _) => s.push ty register
  | .note (.popped register _ _) =>
    match s.pop register with
    | .ok (_, s') => s'
    | .error _ => s
  | _ => s

def OperandStack.after (actions : List Action) : OperandStack := actions.foldl follow {}

def Generator.Mirrored (g : Generator) : Prop := OperandStack.after g.actions.toList = g.stack

theorem Generator.after_act (g : Generator) (a : Action) :
    OperandStack.after (g.act a).actions.toList =
      (OperandStack.after g.actions.toList).follow a := by
  simp [Generator.act, OperandStack.after]

namespace Generate

variable {ε α β : Type}

/-- A step of generation after which the operand stack is still the one that the actions note. -/
def Mirrors (m : Generate ε α) : Prop :=
  ∀ g, g.Mirrored → match m g with
    | .ok _ g' => g'.Mirrored
    | .error _ g' => g'.Mirrored

namespace Mirrors

theorem pure (a : α) : Mirrors (Pure.pure a : Generate ε α) := fun _ h => h

theorem throw (e : ε) : Mirrors (MonadExcept.throw e : Generate ε α) := fun _ h => h

theorem get : Mirrors (MonadState.get : Generate ε Generator) := fun _ h => h

theorem bind {m : Generate ε α} {f : α → Generate ε β} (h : Mirrors m) (k : ∀ a, Mirrors (f a)) :
    Mirrors (m >>= f) := by
  intro g hg
  have hm := h g hg
  simp only [Bind.bind, EStateM.bind]
  cases he : m g with
  | ok a g' =>
    rw [he] at hm
    exact k a g' hm
  | error e g' =>
    rw [he] at hm
    exact hm

theorem balanced {m : Generate Imbalance α} (h : Mirrors m) : Mirrors (Generate.balanced m) := by
  intro g hg
  have hm := h g hg
  simp only [Generate.balanced, EStateM.adaptExcept]
  cases he : m g with
  | ok a g' =>
    rw [he] at hm
    exact hm
  | error e g' =>
    rw [he] at hm
    exact hm

theorem leaving {p : Production} (h : Mirrors p) : Mirrors (Generate.leaving p) := by
  intro g hg
  have hm := h g hg
  simp only [Generate.leaving]
  cases he : p g with
  | ok a g' =>
    rw [he] at hm
    exact hm
  | error e g' =>
    rw [he] at hm
    exact hm

theorem modify {f : Generator → Generator} (hs : ∀ g, (f g).stack = g.stack)
    (ha : ∀ g, (f g).actions = g.actions) : Mirrors (modify f : Generate ε Unit) := by
  intro g hg
  change OperandStack.after (f g).actions.toList = (f g).stack
  rw [hs, ha]
  exact hg

theorem act {a : Action} (h : ∀ s : OperandStack, s.follow a = s) :
    Mirrors (Generate.act a : Generate ε Unit) := by
  intro g hg
  change OperandStack.after (g.act a).actions.toList = g.stack
  rw [g.after_act, h]
  exact hg

theorem emit (o : Operation) : Mirrors (Generate.emit o : Generate ε Unit) := act fun _ => rfl

theorem advance : Mirrors (Generate.advance : Generate ε Unit) := by
  refine modify (fun g => ?_) fun g => ?_ <;> unfold Generator.advance <;> split <;> rfl

theorem peek : Mirrors (Generate.peek : Generate ε Token) := get.bind fun _ => pure _

end Mirrors

theorem push_mirrors (l : Linkage) (ty : Ty) : Mirrors (push l ty : Generate ε Unit) := by
  intro g hg
  change OperandStack.after (Generator.act _ _).actions.toList = _
  rw [Generator.after_act]
  have hop := (g.after_act (.operation (if ty.isFloat then .pushFloat
    (if ty.isFloat then l.roles.floatAccumulator else l.roles.accumulator) else .push
    (if ty.isFloat then l.roles.floatAccumulator else l.roles.accumulator)))).trans hg
  exact congrArg (OperandStack.push · ty _) hop

theorem popType_mirrors (r : Text) : Mirrors (popType r) := by
  intro g hg
  have hget (f : Generator → Generate Imbalance Ty) : (get >>= f) g = f g g := rfl
  rw [popType, hget]
  cases hp : g.stack.pop r with
  | error i => exact hg
  | ok p =>
    obtain ⟨ty, stack⟩ := p
    change OperandStack.after (Generator.act _ _).actions.toList = stack
    rw [Generator.after_act]
    have hg' : OperandStack.after g.actions.toList = g.stack := hg
    simp only [OperandStack.follow, hg', hp]

theorem popInt_mirrors (r : Text) : Mirrors (popInt r) := by
  refine (popType_mirrors r).bind fun ty => ?_
  split
  · exact (Mirrors.throw _).bind fun _ => .emit _
  · exact .emit _

theorem popFloat_mirrors (r : Text) : Mirrors (popFloat r) := by
  refine (popType_mirrors r).bind fun ty => ?_
  split
  · exact (Mirrors.throw _).bind fun _ => .emit _
  · exact .emit _

theorem popAsFloat_mirrors (freg reg : Text) : Mirrors (popAsFloat freg reg) := by
  refine Mirrors.get.bind fun g => ?_
  split
  · exact popFloat_mirrors freg
  · exact (popInt_mirrors reg).bind fun _ => .emit _

theorem validate_mirrors (expected : Nat) (label : Text) : Mirrors (validate expected label) := by
  refine Mirrors.get.bind fun g => ?_
  split
  · exact .throw _
  · exact .pure _

theorem callRoutine_mirrors (l : Linkage) (r : Routine) (location : Location) :
    Mirrors (callRoutine l r location) := by
  unfold callRoutine
  split
  · exact (Mirrors.throw _).bind fun _ => .emit _
  · exact .emit _

theorem push_return_mirrors (l : Linkage) (ty : Ty) :
    Mirrors (do push l ty; return ty : Production) :=
  (push_mirrors l ty).bind fun _ => .pure ty

theorem binary_mirrors (l : Linkage) (op : Operator) (location : Location) (left right : Ty) :
    Mirrors (binary l op location left right) := by
  have hend := push_return_mirrors l
  unfold binary
  split
  · exact .throw _
  · rename_i result c _
    refine (Mirrors.act fun _ => rfl).bind fun _ => ?_
    cases c with
    | int =>
      exact (popInt_mirrors _).balanced.bind fun _ => (popInt_mirrors _).balanced.bind fun _ =>
        (Mirrors.emit _).bind fun _ => hend result
    | float =>
      refine (popAsFloat_mirrors _ _).balanced.bind fun _ =>
        (popAsFloat_mirrors _ _).balanced.bind fun _ => ?_
      split
      · exact (callRoutine_mirrors l _ _).bind fun _ => (Mirrors.emit _).bind fun _ => hend result
      · exact (callRoutine_mirrors l _ _).bind fun _ => (Mirrors.emit _).bind fun _ => hend result
      · exact (Mirrors.emit _).bind fun _ => hend result
    | concat =>
      exact (popInt_mirrors _).balanced.bind fun _ => (popInt_mirrors _).balanced.bind fun _ =>
        (callRoutine_mirrors l _ _).bind fun _ => (Mirrors.emit _).bind fun _ => hend result

theorem sign_mirrors (l : Linkage) (op : Operator) (location : Location) (operand : Ty) :
    Mirrors (sign l op location operand) := by
  have hend := push_return_mirrors l
  unfold sign
  split
  · exact .throw _
  · rename_i result _
    split
    · exact .pure _
    · split
      · exact (popFloat_mirrors _).balanced.bind fun _ =>
          (Mirrors.emit _).bind fun _ => hend result
      · split
        · exact (popFloat_mirrors _).balanced.bind fun _ =>
            (Mirrors.emit _).bind fun _ => hend result
        · exact (popInt_mirrors _).balanced.bind fun _ =>
            (Mirrors.emit _).bind fun _ => hend result

theorem binaryRest_mirrors (l : Linkage) (operator? : Lexeme → Option Operator)
    {operand : Production} (h : Mirrors operand) (tokens : Nat) (left : Ty) :
    Mirrors (binaryRest l operator? operand tokens left) := by
  induction tokens generalizing left with
  | zero => exact .pure left
  | succ tokens ih =>
    refine Mirrors.peek.bind fun token => ?_
    split
    · exact .pure left
    · exact Mirrors.advance.bind fun _ => h.bind fun right =>
        (binary_mirrors l _ _ left right).bind fun result => ih result

theorem binaryLevel_mirrors (l : Linkage) (operator? : Lexeme → Option Operator)
    {operand : Production} (h : Mirrors operand) :
    Mirrors (binaryLevel l operator? operand) :=
  h.bind fun left => Mirrors.get.bind fun g => binaryRest_mirrors l operator? h g.rest.length left

theorem expression_mirrors (l : Linkage) {unary : Production} (h : Mirrors unary) :
    Mirrors (expression l unary) :=
  binaryLevel_mirrors l additiveOperator? (binaryLevel_mirrors l multiplicativeOperator? h)

theorem nested_mirrors (location : Location) {inner : Option Production}
    {body : Production → Production} (h : ∀ p ∈ inner, Mirrors (body p)) :
    Mirrors (nested location inner body) := by
  have hdown : Mirrors (modify fun g => { g with nesting := g.nesting + 1 } :
      Generate Diagnostic Unit) := .modify (fun _ => rfl) fun _ => rfl
  refine hdown.bind fun _ => ?_
  cases inner with
  | none => exact .throw _
  | some p => exact (h p rfl).leaving

theorem parenthesised_mirrors (l : Linkage) (opening : Location) {unary : Production}
    (h : Mirrors unary) : Mirrors (parenthesised l opening unary) := by
  refine (expression_mirrors l h).bind fun ty => Mirrors.peek.bind fun closing => ?_
  split
  · exact Mirrors.advance.bind fun _ => .pure ty
  · exact .throw _

theorem literal_mirrors (l : Linkage) {load : Action} (h : ∀ s : OperandStack, s.follow load = s)
    (ty : Ty) : Mirrors (literal l load ty) :=
  (Mirrors.act h).bind fun _ => push_return_mirrors l ty

theorem primary_mirrors (l : Linkage) {inner : Option Production} (h : ∀ p ∈ inner, Mirrors p) :
    Mirrors (primary l inner) := by
  refine Mirrors.peek.bind fun token => Mirrors.advance.bind fun _ => ?_
  split
  · exact nested_mirrors _ fun p hp => parenthesised_mirrors l _ (h p hp)
  all_goals first | exact literal_mirrors l (fun _ => rfl) _ | exact .throw _

theorem unaryWith_mirrors (l : Linkage) {inner : Option Production} (h : ∀ p ∈ inner, Mirrors p) :
    Mirrors (unaryWith l inner) := by
  refine Mirrors.peek.bind fun token => ?_
  split
  · exact primary_mirrors l h
  · exact Mirrors.advance.bind fun _ => nested_mirrors _ fun p hp =>
      (h p hp).bind fun ty => sign_mirrors l _ _ ty

theorem unary_mirrors (l : Linkage) (levels : Nat) : Mirrors (unary l levels) := by
  induction levels with
  | zero => exact unaryWith_mirrors l fun p hp => nomatch hp
  | succ levels ih =>
    refine unaryWith_mirrors l fun p hp => ?_
    obtain rfl := Option.some.inj hp
    exact ih

theorem function_mirrors (l : Linkage) : Mirrors (function l) := by
  refine (Mirrors.emit _).bind fun _ => Mirrors.bind (fun g => ?_) fun ty => ?_
  · exact expression_mirrors l (unary_mirrors l (maxNesting - g.nesting)) g
  · have hend : Mirrors atEnd := by
      refine Mirrors.peek.bind fun token => ?_
      split
      · exact .pure _
      · exact .throw _
      · exact .throw _
    have hresult : Mirrors (popResult l ty) := by
      unfold popResult
      split
      · exact popFloat_mirrors _
      · exact popInt_mirrors _
    exact hend.bind fun _ => (validate_mirrors _ _).balanced.bind fun _ =>
      hresult.balanced.bind fun _ => (validate_mirrors _ _).balanced.bind fun _ =>
        (Mirrors.emit _).bind fun _ => .pure ty

end Generate

/-- At the end of a compilation, the operand stack is the one that the actions note. -/
theorem compileTokens_mirrored (target : Target) (symbols : Symbols) (tokens : List Token)
    (code data : Buffer) (verbose : Bool) :
    (compileTokens target symbols tokens code data verbose).generator.Mirrored := by
  have hg := Generate.function_mirrors ⟨target.roles, symbols⟩ (.start tokens) rfl
  unfold compileTokens
  cases he : Generate.function ⟨target.roles, symbols⟩ (.start tokens) with
  | error d g =>
    rw [he] at hg
    exact hg
  | ok ty g =>
    rw [he] at hg
    dsimp only
    split <;> exact hg

end OnePass
