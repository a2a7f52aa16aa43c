import Mathlib.Data.List.Forall2
import OnePass.Proofs.Compiler.Operations

/-!
# Two runs of the generator

The generator looks at its linkage for one thing only: whether a routine is there. With two linkages
that have the same routines it reads the same tokens, keeps the same types on its stack and decides
actions that store the same constants; it ends with the same type or with the same diagnostic. The
types on the stack are always those that the productions expect, so no run ends with an imbalance.
-/

set_option autoImplicit false

namespace OnePass

open Native (Used)

inductive Sentinel where
  | grammar
  | typing
  | overflow
  | routine
  deriving DecidableEq, Repr

def Sentinel.category : Sentinel → Category
  | .grammar => .parsing
  | .typing => .typing
  | .overflow => .codegen
  | .routine => .codegen

def Cause.sentinel? : Cause → Option Sentinel
  | .grammar => some .grammar
  | .typing => some .typing
  | .buffer (.overflow _ _ _) => some .overflow
  | .buffer (.rejected _ _) => none
  | .stack _ => none
  | .routine _ => some .routine
  | .reported _ => none

def Diagnostic.Classified (d : Diagnostic) : Prop :=
  ∃ s, d.cause.sentinel? = some s ∧ d.category = s.category

def Diagnostic.OfTokens (d : Diagnostic) : Prop :=
  ∃ s, d.cause.sentinel? = some s ∧ s ≠ .overflow ∧ d.category = s.category

theorem Diagnostic.OfTokens.classified {d : Diagnostic} (h : d.OfTokens) : d.Classified := by
  obtain ⟨s, hs, -, hk⟩ := h
  exact ⟨s, hs, hk⟩

theorem unknownWord_ofTokens (name : Text) (location : Location) :
    (Generate.unknownWord name location).OfTokens := by
  unfold Generate.unknownWord
  dsimp only
  split <;> exact ⟨.grammar, rfl, by decide, rfl⟩

def Action.pieces? : Action → Option (List Bytes)
  | .loadFloat _ x => some [littleEndian 8 x.bits.toNat]
  | .loadText _ s => some [s, [0]]
  | _ => none

def Action.Made (l : Linkage) (a : Action) : Prop :=
  ∀ address, ∀ o ∈ a.operations address, Used l o ∨ o = .prologue ∨ o = .epilogue

/-- Actions that generators for two linkages decide at the same point. -/
structure Action.Paired (l l' : Linkage) (a a' : Action) : Prop where
  left : a.Made l
  right : a'.Made l'
  pieces : a'.pieces? = a.pieces?

def Linkage.Like (l l' : Linkage) : Prop :=
  ∀ r, l.symbols.address r = 0 ↔ l'.symbols.address r = 0

section Actions

variable {l l' : Linkage}

theorem Action.made_operation {o : Operation} (h : Used l o) : (Action.operation o).Made l := by
  intro _ o' ho
  obtain rfl := List.mem_singleton.1 ho
  exact .inl h

theorem Expr.function_made {e : Expr} (he : e.Known) : ∀ a ∈ e.function l, a.Made l := by
  have hbody : ∀ a ∈ e.body l, a.Made l := fun a ha address o ho =>
    .inl (e.body_uses he a ha address o ho)
  have hends : ∀ {o : Operation}, o = .prologue ∨ o = .epilogue → (Action.operation o).Made l := by
    intro o ho _ o' ho'
    obtain rfl := List.mem_singleton.1 ho'
    exact .inr ho
  exact List.forall_mem_cons.2 ⟨hends (.inl rfl), List.forall_mem_append.2 ⟨hbody,
    List.forall_mem_singleton.2 (hends (.inr rfl))⟩⟩

theorem Action.Paired.operation {o o' : Operation} (h : Used l o) (h' : Used l' o') :
    Paired l l' (.operation o) (.operation o') :=
  ⟨made_operation h, made_operation h', rfl⟩

theorem Action.Paired.note (e e' : Event) : Paired l l' (.note e) (.note e') :=
  ⟨fun _ => List.forall_mem_nil _, fun _ => List.forall_mem_nil _, rfl⟩

theorem Action.Paired.loadFloat (x : Binary64) :
    Paired l l' (.loadFloat l.roles.floatAccumulator x) (.loadFloat l'.roles.floatAccumulator x) :=
  ⟨fun a => made_operation (.loadFloat a) a, fun a => made_operation (.loadFloat a) a, rfl⟩

theorem Action.Paired.loadText (s : Text) :
    Paired l l' (.loadText l.roles.accumulator s) (.loadText l'.roles.accumulator s) :=
  ⟨fun a => made_operation (.loadWord a) a, fun a => made_operation (.loadWord a) a, rfl⟩

end Actions

structure Generator.Alike (l l' : Linkage) (slots : List Ty) (g g' : Generator) : Prop where
  rest : g'.rest = g.rest
  finish : g'.finish = g.finish
  position : g'.position = g.position
  nesting : g'.nesting = g.nesting
  left : g.stack.slots = slots
  right : g'.stack.slots = slots
  maxDepth : g'.stack.maxDepth = g.stack.maxDepth
  actions : List.Forall₂ (Action.Paired l l') g.actions.toList g'.actions.toList

namespace Generator.Alike

variable {l l' : Linkage} {slots : List Ty} {g g' : Generator}

theorem start (l l' : Linkage) (tokens : List Token) :
    Alike l l' [] (.start tokens) (.start tokens) :=
  ⟨rfl, rfl, rfl, rfl, rfl, rfl, rfl, .nil⟩

theorem next (h : Alike l l' slots g g') : g'.next = g.next := by
  rw [Generator.next, Generator.next, h.rest, h.finish]

theorem act (h : Alike l l' slots g g') {a a' : Action} (ha : Action.Paired l l' a a') :
    Alike l l' slots (g.act a) (g'.act a') := by
  refine { h with actions := ?_ }
  simp only [Generator.act, Array.toList_push]
  exact List.rel_append h.actions (.cons ha .nil)

theorem advance (h : Alike l l' slots g g') : Alike l l' slots g.advance g'.advance := by
  unfold Generator.advance
  rw [h.rest]
  cases g.rest with
  | nil => exact h
  | cons t rest => exact { h with rest := rfl, position := congrArg (· + 1) h.position }

theorem nest (h : Alike l l' slots g g') (f : Nat → Nat) :
    Alike l l' slots { g with nesting := f g.nesting } { g' with nesting := f g'.nesting } :=
  { h with nesting := congrArg f h.nesting }

theorem push (h : Alike l l' slots g g') (ty : Ty) (r r' : Text) :
    Alike l l' (ty :: slots) { g with stack := g.stack.push ty r }
      { g' with stack := g'.stack.push ty r' } where
  rest := h.rest
  finish := h.finish
  position := h.position
  nesting := h.nesting
  left := congrArg (ty :: ·) h.left
  right := congrArg (ty :: ·) h.right
  maxDepth := by
    simp only [OperandStack.push, OperandStack.record, h.maxDepth, h.left, h.right]
  actions := h.actions

theorem popped {ty : Ty} (h : Alike l l' (ty :: slots) g g') (r r' : Text) :
    Alike l l' slots (g.popped r ty slots) (g'.popped r' ty slots) := by
  unfold Generator.popped
  refine Alike.act ?_ (.note _ _)
  exact { h with left := rfl, right := rfl }

end Generator.Alike

namespace Generate

variable {ε α β : Type} {l l' : Linkage}

/-- Two runs have ended in the same way: with one value and the types that go with it on the stack,
or with one fault. -/
inductive Ended (l l' : Linkage) (after : α → List Ty) (fault : ε → Prop) :
    EStateM.Result ε Generator α → EStateM.Result ε Generator α → Prop where
  | ok (a : α) {g g' : Generator} (h : g.Alike l l' (after a) g') :
      Ended l l' after fault (.ok a g) (.ok a g')
  | error (e : ε) {slots : List Ty} {g g' : Generator} (he : fault e) (h : g.Alike l l' slots g') :
      Ended l l' after fault (.error e g) (.error e g')

def Agree (l l' : Linkage) (before : List Ty) (after : α → List Ty) (fault : ε → Prop)
    (m m' : Generate ε α) : Prop :=
  ∀ g g', g.Alike l l' before g' → Ended l l' after fault (m g) (m' g')

namespace Agree

variable {before : List Ty} {fault : ε → Prop}

theorem pure (a : α) {after : α → List Ty} (h : after a = before) :
    Agree l l' before after fault (Pure.pure a) (Pure.pure a) :=
  fun _ _ hg => .ok a (h ▸ hg)

theorem throw {e : ε} (he : fault e) {after : α → List Ty} :
    Agree l l' before after fault (MonadExcept.throw e) (MonadExcept.throw e) :=
  fun _ _ hg => .error e he hg

theorem bind {middle : α → List Ty} {after : β → List Ty} {m m' : Generate ε α}
    {f f' : α → Generate ε β} (h : Agree l l' before middle fault m m')
    (k : ∀ a, Agree l l' (middle a) after fault (f a) (f' a)) :
    Agree l l' before after fault (m >>= f) (m' >>= f') := by
  intro g g' hg
  have hm := h g g' hg
  simp only [Bind.bind, EStateM.bind]
  -- The first steps have ended alike, and only a value lets either go on.
  generalize m g = r at hm ⊢
  generalize m' g' = r' at hm ⊢
  cases hm with
  | ok a ha => exact k a _ _ ha
  | error e he ha => exact .error e he ha

theorem balanced {after : α → List Ty} {m m' : Generate Imbalance α} {fault : Diagnostic → Prop}
    (h : Agree l l' before after (fun _ => False) m m') :
    Agree l l' before after fault (Generate.balanced m) (Generate.balanced m') := by
  intro g g' hg
  have hm := h g g' hg
  simp only [Generate.balanced, EStateM.adaptExcept]
  generalize m g = r at hm ⊢
  generalize m' g' = r' at hm ⊢
  cases hm with
  | ok a ha => exact .ok a ha
  | error e he ha => exact he.elim

theorem leaving {after : Ty → List Ty} {p p' : Production} {fault : Diagnostic → Prop}
    (h : Agree l l' before after fault p p') :
    Agree l l' before after fault (Generate.leaving p) (Generate.leaving p') := by
  intro g g' hg
  have hm := h g g' hg
  simp only [Generate.leaving]
  generalize p g = r at hm ⊢
  generalize p' g' = r' at hm ⊢
  cases hm with
  | ok a ha => exact .ok a (ha.nest (· - 1))
  | error e he ha => exact .error e he (ha.nest (· - 1))

theorem act {a a' : Action} (h : Action.Paired l l' a a') :
    Agree l l' before (fun _ => before) fault (Generate.act a) (Generate.act a') :=
  fun _ _ hg => .ok () (hg.act h)

theorem emit {o o' : Operation} (h : Used l o) (h' : Used l' o') :
    Agree l l' before (fun _ => before) fault (Generate.emit o) (Generate.emit o') :=
  act (.operation h h')

theorem advance : Agree l l' before (fun _ => before) fault Generate.advance Generate.advance :=
  fun _ _ hg => .ok () hg.advance

theorem peek : Agree l l' before (fun _ => before) fault Generate.peek Generate.peek := by
  intro g g' hg
  have hp : (Generate.peek g' : EStateM.Result ε Generator Token) = .ok g.next g' := by
    rw [← hg.next]
    rfl
  rw [hp]
  exact .ok g.next hg

theorem push (ty : Ty) :
    Agree l l' before (fun _ => ty :: before) fault (Generate.push l ty) (Generate.push l' ty) := by
  intro g g' hg
  have hop : Action.Paired l l'
      (.operation (if ty.isFloat then .pushFloat
        (if ty.isFloat then l.roles.floatAccumulator else l.roles.accumulator)
        else .push (if ty.isFloat then l.roles.floatAccumulator else l.roles.accumulator)))
      (.operation (if ty.isFloat then .pushFloat
        (if ty.isFloat then l'.roles.floatAccumulator else l'.roles.accumulator)
        else .push (if ty.isFloat then l'.roles.floatAccumulator else l'.roles.accumulator))) := by
    cases ty.isFloat with
    | true => exact .operation .pushFloat .pushFloat
    | false => exact .operation .push .push
  exact .ok () (((hg.act hop).push ty _ _).act (.note _ _))

theorem push_return (ty : Ty) :
    Agree l l' before (fun t => t :: before) fault (do Generate.push l ty; return ty)
      (do Generate.push l' ty; return ty) :=
  (push ty).bind fun _ => pure ty rfl

end Agree

section Pops

variable {slots : List Ty} {ty : Ty} {g g' : Generator}

theorem popInt_eq (r : Text) (h : g.stack.slots = ty :: slots) (hf : ty ≠ .float) :
    popInt r g = .ok () ((g.popped r ty slots).act (.operation (.pop r))) := by
  have hint : ¬ty.isFloat = true := by simpa [Ty.isFloat] using hf
  rw [popInt, bind_of_ok (popType_eq r h), if_neg hint]
  rfl

theorem popFloat_eq (r : Text) (h : g.stack.slots = .float :: slots) :
    popFloat r g = .ok () ((g.popped r .float slots).act (.operation (.popFloat r))) := by
  rw [popFloat, bind_of_ok (popType_eq r h)]
  rfl

theorem popInt_agree {r r' : Text} (h : Used l (.pop r)) (h' : Used l' (.pop r'))
    (hf : ty ≠ .float) :
    Agree l l' (ty :: slots) (fun _ => slots) (fun _ => False) (popInt r) (popInt r') := by
  intro g g' hg
  rw [popInt_eq r hg.left hf, popInt_eq r' hg.right hf]
  exact .ok () ((hg.popped r r').act (.operation h h'))

theorem popFloat_agree {r r' : Text} (h : Used l (.popFloat r)) (h' : Used l' (.popFloat r')) :
    Agree l l' (.float :: slots) (fun _ => slots) (fun _ => False) (popFloat r) (popFloat r') := by
  intro g g' hg
  rw [popFloat_eq r hg.left, popFloat_eq r' hg.right]
  exact .ok () ((hg.popped r r').act (.operation h h'))

theorem popAsFloat_eq (freg reg : Text) (h : g.stack.slots = ty :: slots) :
    popAsFloat freg reg g = (if ty = .float then popFloat freg
      else popInt reg >>= fun _ => emit (.intToFloat freg reg) : Generate Imbalance Unit) g := by
  have ht : g.stack.top? = some ty := by simp [OperandStack.top?, h]
  have he : popAsFloat freg reg g = (if g.stack.top? = some .float then popFloat freg
      else popInt reg >>= fun _ => emit (.intToFloat freg reg) : Generate Imbalance Unit) g := rfl
  rw [he, ht]
  simp only [Option.some.injEq]

theorem popAsFloat_agree {freg freg' reg reg' : Text}
    (hf : Used l (.popFloat freg)) (hf' : Used l' (.popFloat freg'))
    (hp : Used l (.pop reg)) (hp' : Used l' (.pop reg'))
    (hc : Used l (.intToFloat freg reg)) (hc' : Used l' (.intToFloat freg' reg')) :
    Agree l l' (ty :: slots) (fun _ => slots) (fun _ => False) (popAsFloat freg reg)
      (popAsFloat freg' reg') := by
  intro g g' hg
  rw [popAsFloat_eq freg reg hg.left, popAsFloat_eq freg' reg' hg.right]
  by_cases ht : ty = .float
  · subst ht
    exact popFloat_agree hf hf' g g' hg
  · rw [if_neg ht, if_neg ht]
    exact (popInt_agree hp hp' ht).bind (fun _ => .emit hc hc') g g' hg

theorem validate_agree (label : Text) :
    Agree l l' slots (fun _ => slots) (fun _ => False) (validate slots.length label)
      (validate slots.length label) := by
  intro g g' hg
  rw [validate_eq label (congrArg List.length hg.left),
    validate_eq label (congrArg List.length hg.right)]
  exact .ok () hg

end Pops

def Parallel (l l' : Linkage) (p p' : Production) : Prop :=
  ∀ slots, Agree l l' slots (fun t => t :: slots) Diagnostic.OfTokens p p'

section Operators

variable {slots : List Ty}

theorem callRoutine_agree (h : l.Like l') (r : Routine) (location : Location) :
    Agree l l' slots (fun _ => slots) Diagnostic.OfTokens (callRoutine l r location)
      (callRoutine l' r location) := by
  unfold callRoutine
  by_cases h0 : l.symbols.address r = 0
  · rw [if_pos h0, if_pos ((h r).1 h0)]
    exact Agree.throw ⟨.routine, rfl, by decide, rfl⟩
  · rw [if_neg h0, if_neg fun h0' => h0 ((h r).2 h0')]
    exact .emit (.call r) (.call r)

theorem operands_agree {op : Operator} {left right result : Ty} {c : Coercion}
    (h : op.Promotes left right result c) :
    Agree l l' (right :: left :: slots) (fun _ => slots) Diagnostic.OfTokens (operands l c)
      (operands l' c) := by
  cases h with
  | ints =>
    exact (popInt_agree .popOperand .popOperand (by decide)).balanced.bind fun _ =>
      (popInt_agree .popAccumulator .popAccumulator (by decide)).balanced
  | strings =>
    exact (popInt_agree .popSecond .popSecond (by decide)).balanced.bind fun _ =>
      (popInt_agree .popFirst .popFirst (by decide)).balanced
  | intFloat | floatInt | floats =>
    exact (popAsFloat_agree .popFloatOperand .popFloatOperand .popOperand .popOperand
      .convertOperand .convertOperand).balanced.bind fun _ =>
        (popAsFloat_agree .popFloatAccumulator .popFloatAccumulator .popAccumulator .popAccumulator
          .convertAccumulator .convertAccumulator).balanced

theorem compute_agree (h : l.Like l') {op : Operator} (hop : op ≠ .unknown) (c : Coercion)
    (location : Location) :
    Agree l l' slots (fun _ => slots) Diagnostic.OfTokens (compute l c op location)
      (compute l' c op location) := by
  unfold compute
  cases hr : c.routine? op with
  | some r =>
    refine (callRoutine_agree h r location).bind fun _ => ?_
    cases r with
    | concat => exact .emit .moveResult .moveResult
    | pow | fmod => exact .emit .moveFloatResult .moveFloatResult
  | none =>
    cases c with
    | int => exact .emit (.intBinary op hop) (.intBinary op hop)
    | float =>
      have hfour : op = .add ∨ op = .sub ∨ op = .mul ∨ op = .div := by
        cases op <;> simp_all [Coercion.routine?]
      exact .emit (.floatBinary op hfour) (.floatBinary op hfour)
    | concat => cases hr

theorem binary_agree (h : l.Like l') {op : Operator} (hop : op ≠ .unknown) (location : Location)
    (left right : Ty) :
    Agree l l' (right :: left :: slots) (fun t => t :: slots) Diagnostic.OfTokens
      (binary l op location left right) (binary l' op location left right) := by
  cases hp : op.promote left right with
  | error fault =>
    unfold binary
    rw [hp]
    exact .throw ⟨.typing, rfl, by decide, rfl⟩
  | ok r =>
    obtain ⟨result, c⟩ := r
    rw [binary_eq hp, binary_eq hp]
    exact (Agree.act (.note _ _)).bind fun _ =>
      (operands_agree (Operator.promotes_of_promote hp)).bind fun _ =>
        (compute_agree h hop c location).bind fun _ => .push_return result

theorem sign_agree (op : Operator) (location : Location) (operand : Ty) :
    Agree l l' (operand :: slots) (fun t => t :: slots) Diagnostic.OfTokens
      (sign l op location operand) (sign l' op location operand) := by
  unfold sign
  cases hr : op.unaryResult operand with
  | error fault => exact .throw ⟨.typing, rfl, by decide, rfl⟩
  | ok result =>
    cases Operator.signs_of_unaryResult hr with
    | plusInt => exact .pure _ rfl
    | plusFloat =>
      exact (popFloat_agree .popFloatAccumulator .popFloatAccumulator).balanced.bind fun _ =>
        (Agree.emit .truncate .truncate).bind fun _ => .push_return _
    | minusFloat =>
      exact (popFloat_agree .popFloatAccumulator .popFloatAccumulator).balanced.bind fun _ =>
        (Agree.emit .negateFloat .negateFloat).bind fun _ => .push_return _
    | minusInt =>
      exact (popInt_agree .popAccumulator .popAccumulator (by decide)).balanced.bind fun _ =>
        (Agree.emit .negate .negate).bind fun _ => .push_return _

end Operators

theorem binaryRest_agree (h : l.Like l') {operator? : Lexeme → Option Operator}
    (ho : ∀ x op, operator? x = some op → op ≠ .unknown) {p p' : Production}
    (hp : Parallel l l' p p') (tokens : Nat) (left : Ty) (slots : List Ty) :
    Agree l l' (left :: slots) (fun t => t :: slots) Diagnostic.OfTokens
      (binaryRest l operator? p tokens left) (binaryRest l' operator? p' tokens left) := by
  induction tokens generalizing left with
  | zero => exact .pure left rfl
  | succ tokens ih =>
    refine Agree.peek.bind fun token => ?_
    cases hop : operator? token.lexeme with
    | none => exact .pure left rfl
    | some op =>
      exact Agree.advance.bind fun _ => (hp (left :: slots)).bind fun right =>
        (binary_agree h (ho _ op hop) token.location left right).bind fun result => ih result

theorem binaryLevel_agree (h : l.Like l') {operator? : Lexeme → Option Operator}
    (ho : ∀ x op, operator? x = some op → op ≠ .unknown) {p p' : Production}
    (hp : Parallel l l' p p') :
    Parallel l l' (binaryLevel l operator? p) (binaryLevel l' operator? p') := by
  intro slots
  refine (hp slots).bind fun left g g' hg => ?_
  -- The same tokens are left to both, so both loops may go round equally often.
  have hrest := binaryRest_agree h ho hp g.rest.length left slots g g' hg
  have he : (do binaryRest l' operator? p' (← get).rest.length left : Production) g' =
      binaryRest l' operator? p' g.rest.length left g' := by
    rw [← hg.rest]
    rfl
  rw [he]
  exact hrest

theorem expression_agree (h : l.Like l') {p p' : Production} (hp : Parallel l l' p p') :
    Parallel l l' (expression l p) (expression l' p') := by
  have hadd : ∀ x op, additiveOperator? x = some op → op ≠ .unknown := by
    intro x op hx
    cases x <;> cases hx <;> decide
  have hmul : ∀ x op, multiplicativeOperator? x = some op → op ≠ .unknown := by
    intro x op hx
    cases x <;> cases hx <;> decide
  exact binaryLevel_agree h hadd (binaryLevel_agree h hmul hp)

theorem nested_agree (location : Location) {inner inner' : Option Production}
    (hi : Option.Rel (Parallel l l') inner inner') {body body' : Production → Production}
    {slots : List Ty} (hb : ∀ p p', Parallel l l' p p' →
      Agree l l' slots (fun t => t :: slots) Diagnostic.OfTokens (body p) (body' p')) :
    Agree l l' slots (fun t => t :: slots) Diagnostic.OfTokens (nested location inner body)
      (nested location inner' body') := by
  have hdown : Agree l l' slots (fun _ => slots) Diagnostic.OfTokens
      (modify fun g => { g with nesting := g.nesting + 1 })
      (modify fun g => { g with nesting := g.nesting + 1 }) :=
    fun _ _ hg => .ok () (hg.nest (· + 1))
  refine hdown.bind fun _ => ?_
  cases hi with
  | none => exact .throw ⟨.grammar, rfl, by decide, rfl⟩
  | some hp => exact (hb _ _ hp).leaving

theorem parenthesised_agree (h : l.Like l') (opening : Location) {p p' : Production}
    (hp : Parallel l l' p p') :
    Parallel l l' (parenthesised l opening p) (parenthesised l' opening p') := by
  intro slots
  refine (expression_agree h hp slots).bind fun ty => Agree.peek.bind fun closing => ?_
  by_cases hc : closing.lexeme = .rightParen
  · rw [if_pos hc]
    exact Agree.advance.bind fun _ => .pure ty rfl
  · rw [if_neg hc]
    exact .throw ⟨.grammar, rfl, by decide, rfl⟩

theorem literal_agree {load load' : Action} (ha : Action.Paired l l' load load') (ty : Ty) :
    Parallel l l' (literal l load ty) (literal l' load' ty) :=
  fun _ => (Agree.act ha).bind fun _ => .push_return ty

theorem primary_agree (h : l.Like l') {inner inner' : Option Production}
    (hi : Option.Rel (Parallel l l') inner inner') :
    Parallel l l' (primary l inner) (primary l' inner') := by
  intro slots
  refine Agree.peek.bind fun token => Agree.advance.bind fun _ => ?_
  cases token.lexeme with
  | leftParen =>
    exact nested_agree _ hi fun p p' hp => parenthesised_agree h token.location hp slots
  | null | bool value | int value =>
    exact literal_agree (.operation (.loadWord _) (.loadWord _)) _ slots
  | float value => exact literal_agree (.loadFloat value) _ slots
  | string value => exact literal_agree (.loadText value) _ slots
  | word name => exact .throw (unknownWord_ofTokens name token.location)
  | _ => exact .throw ⟨.grammar, rfl, by decide, rfl⟩

theorem unaryWith_agree (h : l.Like l') {inner inner' : Option Production}
    (hi : Option.Rel (Parallel l l') inner inner') :
    Parallel l l' (unaryWith l inner) (unaryWith l' inner') := by
  intro slots
  refine Agree.peek.bind fun token => ?_
  cases additiveOperator? token.lexeme with
  | none => exact primary_agree h hi slots
  | some op =>
    exact Agree.advance.bind fun _ => nested_agree _ hi fun p p' hp =>
      (hp slots).bind fun ty => sign_agree op token.location ty

theorem unary_agree (h : l.Like l') (levels : Nat) :
    Parallel l l' (unary l levels) (unary l' levels) := by
  induction levels with
  | zero => exact unaryWith_agree h .none
  | succ levels ih => exact unaryWith_agree h (.some ih)

theorem atEnd_agree {slots : List Ty} :
    Agree l l' slots (fun _ => slots) Diagnostic.OfTokens atEnd atEnd := by
  refine Agree.peek.bind fun token => ?_
  cases token.lexeme with
  | endOfInput => exact .pure () rfl
  | _ => exact .throw ⟨.grammar, rfl, by decide, rfl⟩

theorem popResult_agree (ty : Ty) {slots : List Ty} :
    Agree l l' (ty :: slots) (fun _ => slots) (fun _ => False) (popResult l ty)
      (popResult l' ty) := by
  unfold popResult
  by_cases ht : ty = .float
  · subst ht
    exact popFloat_agree .popFloatResult .popFloatResult
  · have hf : ¬ty.isFloat = true := by simpa [Ty.isFloat] using ht
    rw [if_neg hf, if_neg hf]
    exact popInt_agree .popResult .popResult ht

/-- Runs for two linkages with the same routines end alike. -/
theorem function_agree (h : l.Like l') :
    Agree l l' [] (fun _ => []) Diagnostic.OfTokens (function l) (function l') := by
  have hbegin : Agree l l' [] (fun _ => []) Diagnostic.OfTokens (emit .prologue)
      (emit .prologue) := by
    refine Agree.act ⟨fun _ o ho => ?_, fun _ o ho => ?_, rfl⟩ <;>
      exact .inr (.inl (List.mem_singleton.1 ho))
  have hfinish : Agree l l' [] (fun _ => []) Diagnostic.OfTokens (emit .epilogue)
      (emit .epilogue) := by
    refine Agree.act ⟨fun _ o ho => ?_, fun _ o ho => ?_, rfl⟩ <;>
      exact .inr (.inr (List.mem_singleton.1 ho))
  have hbody : Agree l l' [] (fun t => [t]) Diagnostic.OfTokens
      (here fun levels => expression l (unary l levels))
      (here fun levels => expression l' (unary l' levels)) := by
    intro g g' hg
    unfold here
    rw [hg.nesting]
    exact expression_agree h (unary_agree h _) [] g g' hg
  refine hbegin.bind fun _ => hbody.bind fun ty => atEnd_agree.bind fun _ => ?_
  exact (validate_agree _).balanced.bind fun _ => (popResult_agree ty).balanced.bind fun _ =>
    (validate_agree _).balanced.bind fun _ => hfinish.bind fun _ => .pure ty rfl

end Generate

end OnePass
