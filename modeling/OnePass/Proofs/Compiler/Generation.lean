import OnePass.Compiler.Basic
import OnePass.Proofs.Compiler.Code
import OnePass.Proofs.Expr.Parsing

/-!
# What the generator decides

The generator reads the derivation that the tokens begin with and decides the code of the
expression that it denotes. It fails when there is no such derivation, when the expression has no
type, or when a routine that it calls is not there.
-/

set_option autoImplicit false

namespace OnePass

/-- How a generator got on: what is left to read, the types on the stack, the actions that were
decided and how deep the stack has been. -/
structure Generator.Went (g : Generator) (rest : List Token) (slots : List Ty)
    (actions : List Action) (deepest : Nat) (g' : Generator) : Prop where
  rest : g'.rest = rest
  slots : g'.stack.slots = slots
  actions : g'.actions.toList = g.actions.toList ++ actions
  maxDepth : g'.stack.maxDepth = max g.stack.maxDepth deepest

theorem Generator.Went.refl (g : Generator) : g.Went g.rest g.stack.slots [] 0 g :=
  ⟨rfl, rfl, by simp, by simp⟩

theorem Generator.Went.trans {g g' g'' : Generator} {rest rest' : List Token}
    {slots slots' : List Ty} {as bs : List Action} {m n : Nat} (h : g.Went rest slots as m g')
    (h' : g'.Went rest' slots' bs n g'') : g.Went rest' slots' (as ++ bs) (max m n) g'' where
  rest := h'.rest
  slots := h'.slots
  actions := by rw [h'.actions, h.actions, List.append_assoc]
  maxDepth := by rw [h'.maxDepth, h.maxDepth, Nat.max_assoc]

def Generator.popped (g : Generator) (register : Text) (ty : Ty) (slots : List Ty) : Generator :=
  Generator.act
    { g with stack := .record { g.stack with slots } ⟨.pop, ty, register, slots.length⟩ }
    (.note (.popped register ty slots.length))

namespace Generate

variable {ε α β : Type}

def Does (m : Generate ε α) (g : Generator) (a : α) (rest : List Token) (slots : List Ty)
    (actions : List Action) (deepest : Nat) : Prop :=
  ∃ g', m g = .ok a g' ∧ g.Went rest slots actions deepest g'

def Fails (m : Generate ε α) (g : Generator) : Prop := ∃ d g', m g = .error d g'

theorem bind_of_ok {m : Generate ε α} {f : α → Generate ε β} {a : α} {g g' : Generator}
    (h : m g = .ok a g') : (m >>= f) g = f a g' := by
  simp only [Bind.bind, EStateM.bind, h]

theorem Does.bind {m : Generate ε α} {f : α → Generate ε β} {g : Generator} {a : α} {b : β}
    {rest rest' : List Token} {slots slots' : List Ty} {as bs : List Action} {n n' : Nat}
    (h : Does m g a rest slots as n)
    (k : ∀ g', g'.rest = rest → g'.stack.slots = slots → Does (f a) g' b rest' slots' bs n') :
    Does (m >>= f) g b rest' slots' (as ++ bs) (max n n') := by
  obtain ⟨g', he, hw⟩ := h
  obtain ⟨g'', he', hw'⟩ := k g' hw.rest hw.slots
  exact ⟨g'', (bind_of_ok he).trans he', hw.trans hw'⟩

theorem Does.bind_fails {m : Generate ε α} {f : α → Generate ε β} {g : Generator} {a : α}
    {rest : List Token} {slots : List Ty} {as : List Action} {n : Nat}
    (h : Does m g a rest slots as n)
    (k : ∀ g', g'.rest = rest → g'.stack.slots = slots → Fails (f a) g') :
    Fails (m >>= f) g := by
  obtain ⟨g', he, hw⟩ := h
  obtain ⟨d, g'', he'⟩ := k g' hw.rest hw.slots
  exact ⟨d, g'', (bind_of_ok he).trans he'⟩

theorem Fails.bind {m : Generate ε α} (f : α → Generate ε β) {g : Generator} (h : Fails m g) :
    Fails (m >>= f) g := by
  obtain ⟨d, g', he⟩ := h
  refine ⟨d, g', ?_⟩
  simp only [Bind.bind, EStateM.bind, he]

theorem Does.balanced {m : Generate Imbalance α} {g : Generator} {a : α} {rest : List Token}
    {slots : List Ty} {as : List Action} {n : Nat} (h : Does m g a rest slots as n) :
    Does (Generate.balanced m) g a rest slots as n := by
  obtain ⟨g', he, hw⟩ := h
  refine ⟨g', ?_, hw⟩
  simp only [Generate.balanced, EStateM.adaptExcept, he]

theorem Does.of_eq {m : Generate ε α} {g : Generator} {a : α} {rest : List Token}
    {slots : List Ty} {as bs : List Action} {n n' : Nat} (h : Does m g a rest slots as n)
    (has : as = bs) (hn : n = n') : Does m g a rest slots bs n' := has ▸ hn ▸ h

theorem pure_does (g : Generator) (a : α) :
    Does (pure a : Generate ε α) g a g.rest g.stack.slots [] 0 :=
  ⟨g, rfl, .refl g⟩

theorem throw_fails (d : ε) (g : Generator) : Fails (throw d : Generate ε α) g := ⟨d, g, rfl⟩

theorem act_does (a : Action) (g : Generator) :
    Does (act a : Generate ε Unit) g () g.rest g.stack.slots [a] 0 :=
  ⟨g.act a, rfl, rfl, rfl, by simp [Generator.act], by simp [Generator.act]⟩

theorem emit_does (o : Operation) (g : Generator) :
    Does (emit o : Generate ε Unit) g () g.rest g.stack.slots [.operation o] 0 := act_does _ g

theorem advance_does (ε : Type) (g : Generator) :
    Does (advance : Generate ε Unit) g () g.rest.tail g.stack.slots [] 0 := by
  refine ⟨g.advance, rfl, ?_⟩
  unfold Generator.advance
  split
  · rename_i h
    exact ⟨by rw [h]; rfl, rfl, by simp, by simp⟩
  · rename_i h
    exact ⟨by rw [h]; rfl, rfl, by simp, by simp⟩

theorem get_bind (f : Generator → Generate ε α) (g : Generator) : (get >>= f) g = f g g := rfl

theorem peek_bind (f : Token → Generate ε α) (g : Generator) : (peek >>= f) g = f g.next g := rfl

theorem push_does (l : Linkage) (ty : Ty) (g : Generator) :
    Does (push l ty : Generate ε Unit) g () g.rest (ty :: g.stack.slots)
      (l.pushCode ty g.stack.depth) (g.stack.depth + 1) := by
  refine ⟨_, rfl, rfl, rfl, ?_, rfl⟩
  simp only [Generator.act, Array.toList_push, List.append_assoc]
  rfl

theorem push_return_does {l : Linkage} (ty : Ty) {g : Generator} {slots : List Ty}
    (hs : g.stack.slots = slots) :
    Does (do push l ty; return ty : Production) g ty g.rest (ty :: slots)
      (l.pushCode ty slots.length) (slots.length + 1) := by
  subst hs
  refine ((push_does l ty g).bind fun g' hr hs => ?_).of_eq (List.append_nil _) (Nat.max_zero _)
  rw [← hr, ← hs]
  exact pure_does g' ty

theorem popType_eq {g : Generator} {ty : Ty} {slots : List Ty} (r : Text)
    (h : g.stack.slots = ty :: slots) : popType r g = .ok ty (g.popped r ty slots) := by
  have hp : g.stack.pop r =
      .ok (ty, .record { g.stack with slots } ⟨.pop, ty, r, slots.length⟩) := by
    simp [OperandStack.pop, h]
  rw [popType, get_bind, hp]
  rfl

theorem popType_does {g : Generator} {ty : Ty} {slots : List Ty} (r : Text)
    (h : g.stack.slots = ty :: slots) :
    Does (popType r) g ty g.rest slots [.note (.popped r ty slots.length)] 0 := by
  refine ⟨g.popped r ty slots, popType_eq r h, rfl, rfl, ?_, ?_⟩
  · simp [Generator.popped, Generator.act]
  · simp [Generator.popped, Generator.act, OperandStack.record]

theorem popInt_does {g : Generator} {ty : Ty} {slots : List Ty} (r : Text)
    (h : g.stack.slots = ty :: slots) (hf : ty ≠ .float) :
    Does (popInt r) g () g.rest slots (popCode r ty slots.length) 0 := by
  refine (popType_does r h).bind fun g' hr hs => ?_
  simp only [Ty.isFloat, hf, decide_false, Bool.false_eq_true, if_false]
  rw [← hr, ← hs]
  exact emit_does _ g'

theorem popFloat_does {g : Generator} {slots : List Ty} (r : Text)
    (h : g.stack.slots = .float :: slots) :
    Does (popFloat r) g () g.rest slots (popFloatCode r slots.length) 0 := by
  refine (popType_does r h).bind fun g' hr hs => ?_
  rw [← hr, ← hs]
  exact emit_does _ g'

theorem popAsFloat_does {g : Generator} {ty : Ty} {slots : List Ty} (freg reg : Text)
    (h : g.stack.slots = ty :: slots) :
    Does (popAsFloat freg reg) g () g.rest slots (popAsFloatCode freg reg ty slots.length) 0 := by
  have ht : g.stack.top? = some ty := by simp [OperandStack.top?, h]
  have he : popAsFloat freg reg g =
      (if some ty = some Ty.float then popFloat freg
        else popInt reg >>= fun _ => emit (.intToFloat freg reg) : Generate Imbalance Unit) g := by
    rw [← ht]
    rfl
  unfold Does
  rw [he, popAsFloatCode]
  by_cases hf : ty = .float
  · subst hf
    exact popFloat_does freg h
  · simp only [Option.some.injEq, hf, if_false]
    refine (popInt_does reg h hf).bind fun g' hr hs => ?_
    rw [← hr, ← hs]
    exact emit_does _ g'

theorem callRoutine_does {l : Linkage} {r : Routine} (location : Location) (g : Generator)
    (h : l.symbols.address r ≠ 0) :
    Does (callRoutine l r location) g () g.rest g.stack.slots
      [.operation (.call (l.symbols.address r))] 0 := by
  unfold callRoutine
  rw [if_neg h]
  exact emit_does _ g

theorem callRoutine_fails {l : Linkage} {r : Routine} (location : Location) (g : Generator)
    (h : l.symbols.address r = 0) : Fails (callRoutine l r location) g := by
  unfold callRoutine
  rw [if_pos h]
  exact throw_fails _ g

def operands (l : Linkage) : Coercion → Generate Diagnostic Unit
  | .int => do
    balanced (popInt l.roles.operand)
    balanced (popInt l.roles.accumulator)
  | .float => do
    balanced (popAsFloat l.roles.floatOperand l.roles.operand)
    balanced (popAsFloat l.roles.floatAccumulator l.roles.accumulator)
  | .concat => do
    balanced (popInt l.roles.secondArgument)
    balanced (popInt l.roles.firstArgument)

def compute (l : Linkage) (c : Coercion) (op : Operator) (location : Location) :
    Generate Diagnostic Unit :=
  match c.routine? op with
  | some r => do
    callRoutine l r location
    match r with
    | .concat => emit (.move l.roles.accumulator l.roles.result)
    | _ => emit (.moveFloat l.roles.floatAccumulator l.roles.floatResult)
  | none =>
    match c with
    | .float => emit (.floatBinary op l.roles.floatAccumulator l.roles.floatOperand)
    | _ => emit (.intBinary op l.roles.accumulator l.roles.operand)

theorem binary_eq {l : Linkage} {op : Operator} {location : Location} {left right result : Ty}
    {c : Coercion} (h : op.promote left right = .ok (result, c)) :
    binary l op location left right = (do
      act (.note (.combined left op right result c))
      operands l c
      compute l c op location
      push l result
      return result) := by
  unfold binary
  rw [h]
  cases c with
  | int | concat => simp only [operands, compute, Coercion.routine?, bind_assoc]
  | float => cases op <;> simp only [operands, compute, Coercion.routine?, bind_assoc]

theorem operands_does {l : Linkage} {op : Operator} {left right result : Ty} {c : Coercion}
    {slots : List Ty} {g : Generator} (h : op.Promotes left right result c)
    (hs : g.stack.slots = right :: left :: slots) :
    Does (operands l c) g () g.rest slots (l.operandsCode left right slots.length c) 0 := by
  cases h with
  | ints | strings =>
    refine (popInt_does _ hs (by decide)).balanced.bind fun g' hr hs' => ?_
    rw [← hr]
    exact (popInt_does _ hs' (by decide)).balanced
  | intFloat | floatInt | floats =>
    refine (popAsFloat_does _ _ hs).balanced.bind fun g' hr hs' => ?_
    rw [← hr]
    exact (popAsFloat_does _ _ hs').balanced

theorem compute_does {l : Linkage} {c : Coercion} {op : Operator} (location : Location)
    (g : Generator) (h : l.symbols.has c op) :
    Does (compute l c op location) g () g.rest g.stack.slots
      ((l.computeCode c op).map .operation) 0 := by
  unfold compute Linkage.computeCode
  cases hr : c.routine? op with
  | some r =>
    refine ((callRoutine_does location g (h r hr)).bind fun g' hr hs => ?_)
    rw [← hr, ← hs]
    cases r <;> exact emit_does _ g'
  | none => cases c <;> exact emit_does _ g

theorem compute_fails {l : Linkage} {c : Coercion} {op : Operator} (location : Location)
    (g : Generator) (h : ¬l.symbols.has c op) : Fails (compute l c op location) g := by
  unfold compute
  cases hr : c.routine? op with
  | some r =>
    have h0 : l.symbols.address r = 0 := by simpa [Symbols.has, hr] using h
    exact (callRoutine_fails location g h0).bind _
  | none => simp [Symbols.has, hr] at h

theorem binary_does {l : Linkage} {op : Operator} (location : Location) {left right result : Ty}
    {slots : List Ty} {g : Generator} (hs : g.stack.slots = right :: left :: slots)
    (h : l.symbols.join? op left right = some result) :
    Does (binary l op location left right) g result g.rest (result :: slots)
      (l.binaryCode op left right slots.length) (slots.length + 1) := by
  obtain ⟨c, hp, hc⟩ := Symbols.join?_eq_some_iff.1 h
  rw [binary_eq hp]
  have hcode : l.binaryCode op left right slots.length =
      [Action.note (.combined left op right result c)] ++
        (l.operandsCode left right slots.length c ++
          ((l.computeCode c op).map .operation ++ l.pushCode result slots.length)) := by
    simp [Linkage.binaryCode, hp]
  rw [hcode]
  refine ((act_does _ g).bind fun g₁ hr₁ hs₁ => ?_).of_eq rfl (Nat.zero_max _)
  refine ((operands_does (Operator.promotes_of_promote hp) (hs₁.trans hs)).bind
    fun g₂ hr₂ hs₂ => ?_).of_eq rfl (Nat.zero_max _)
  refine ((compute_does location g₂ hc).bind fun g₃ hr₃ hs₃ => ?_).of_eq rfl (Nat.zero_max _)
  rw [← hr₁, ← hr₂, ← hr₃]
  exact push_return_does result (hs₃.trans hs₂)

theorem binary_fails {l : Linkage} {op : Operator} (location : Location) {left right : Ty}
    {slots : List Ty} {g : Generator} (hs : g.stack.slots = right :: left :: slots)
    (h : l.symbols.join? op left right = none) :
    Fails (binary l op location left right) g := by
  cases hp : op.promote left right with
  | error f =>
    unfold binary
    rw [hp]
    exact throw_fails _ g
  | ok r =>
    obtain ⟨result, c⟩ := r
    have hc : ¬l.symbols.has c op := by simpa [Symbols.join?, hp] using h
    rw [binary_eq hp]
    exact (act_does _ g).bind_fails fun g₁ _ hs₁ =>
      (operands_does (Operator.promotes_of_promote hp) (hs₁.trans hs)).bind_fails fun g₂ _ _ =>
        (compute_fails location g₂ hc).bind _

theorem sign_does {l : Linkage} {op : Operator} (location : Location) {operand result : Ty}
    {slots : List Ty} {g : Generator} (hs : g.stack.slots = operand :: slots)
    (h : op.unaryResult operand = .ok result) :
    ∃ n ≤ slots.length + 1, Does (sign l op location operand) g result g.rest (result :: slots)
      (l.signCode op operand slots.length) n := by
  unfold sign
  rw [h]
  cases Operator.signs_of_unaryResult h with
  | plusInt =>
    refine ⟨0, Nat.zero_le _, ?_⟩
    rw [← hs]
    exact pure_does g _
  | plusFloat | minusFloat =>
    refine ⟨max 0 (max 0 (slots.length + 1)), by simp, ?_⟩
    refine (popFloat_does _ hs).balanced.bind fun g₁ hr₁ hs₁ => ?_
    refine (emit_does _ g₁).bind fun g₂ hr₂ hs₂ => ?_
    rw [← hr₁, ← hr₂]
    exact push_return_does _ (hs₂.trans hs₁)
  | minusInt =>
    refine ⟨max 0 (max 0 (slots.length + 1)), by simp, ?_⟩
    refine (popInt_does _ hs (by decide)).balanced.bind fun g₁ hr₁ hs₁ => ?_
    refine (emit_does _ g₁).bind fun g₂ hr₂ hs₂ => ?_
    rw [← hr₁, ← hr₂]
    exact push_return_does _ (hs₂.trans hs₁)

theorem sign_fails (l : Linkage) {op : Operator} (location : Location) {operand : Ty}
    {f : TypeFault} (g : Generator) (h : op.unaryResult operand = .error f) :
    Fails (sign l op location operand) g := by
  unfold sign
  rw [h]
  exact throw_fails _ g

open Grammar

inductive Yields (l : Linkage) {c : Grammar.Category} (p : Production) (g₀ g : Generator) :
    Option (Derivation c × List Lexeme) → Prop where
  | fails {o : Option (Derivation c × List Lexeme)}
      (none : ∀ d rest, o = some (d, rest) → d.expr.compiles? l.symbols = none)
      (fails : Fails p g) : Yields l p g₀ g o
  | does {d : Derivation c} (tokens : List Token) {t : Ty} {g' : Generator}
      (type : d.expr.compiles? l.symbols = some t) (ok : p g = .ok t g')
      (went : g₀.Went tokens (t :: g₀.stack.slots) (d.expr.code l g₀.stack.depth)
        (g₀.stack.depth + d.expr.need) g') :
      Yields l p g₀ g (some (d, tokens.map Token.lexeme))

theorem Yields.of_eq {l : Linkage} {c : Grammar.Category} {p p' : Production} {g₀ g g' : Generator}
    {o : Option (Derivation c × List Lexeme)} (h : Yields l p' g₀ g' o) (he : p g = p' g') :
    Yields l p g₀ g o := by
  cases h with
  | fails hnone hfail =>
    obtain ⟨d, g'', hd⟩ := hfail
    exact .fails hnone ⟨d, g'', he.trans hd⟩
  | does tokens ht hok hw => exact .does tokens ht (he.trans hok) hw

def Follows (l : Linkage) {c : Grammar.Category} (p : Production) (r : Reader c) : Prop :=
  ∀ g, Yields l p g g (r (g.rest.map Token.lexeme))

section Levels

variable {l : Linkage} {c c' : Grammar.Category} {L : Grammar.Level c c'} {operand : Reader c'}
    {p : Production}
  {operator? : Lexeme → Option Operator}

/-- What does not compile does not compile with operands joined to it. -/
theorem readRest_compiles {s : Symbols} {k : Nat} {a d : Derivation c} {ls rest : List Lexeme}
    (ha : a.expr.compiles? s = none) (hr : L.readRest operand k a ls = some (d, rest)) :
    d.expr.compiles? s = none := by
  fun_induction Grammar.Level.readRest L operand k a ls with
  | case1 a ls | case2 k a | case3 k a l ls ho =>
    cases hr
    exact ha
  | case4 k a l ls o ho hn => cases hr
  | case5 k a l ls o ho b rest' hb ih =>
    refine ih ?_ hr
    rw [L.expr_join]
    simp only [Expr.compiles?, ha]

theorem binaryRest_stops {g : Generator} (k : Nat) (left : Ty)
    (h : operator? g.next.lexeme = none) : binaryRest l operator? p k left g = .ok left g := by
  cases k with
  | zero => rfl
  | succ k =>
    rw [binaryRest, peek_bind, h]
    rfl

theorem binaryRest_goes {g : Generator} {op : Operator} (k : Nat) (left : Ty)
    (h : operator? g.next.lexeme = some op) :
    binaryRest l operator? p (k + 1) left g = (do
      advance
      let right ← p
      let result ← binary l op g.next.location left right
      binaryRest l operator? p k result : Production) g := by
  rw [binaryRest, peek_bind, h]

/-- One more operand: the code of what was read so far and of the operand, and the operator. -/
theorem went_join {g₀ g g₁ g₂ g₃ : Generator} {tokens tokens' : List Token} {a : Derivation c}
    {o : L.Op} {b : Derivation c'} {left right result : Ty}
    (ha : a.expr.compiles? l.symbols = some left) (hb : b.expr.compiles? l.symbols = some right)
    (hw : g₀.Went tokens (left :: g₀.stack.slots) (a.expr.code l g₀.stack.depth)
      (g₀.stack.depth + a.expr.need) g)
    (h₁ : g.Went tokens.tail (left :: g₀.stack.slots) [] 0 g₁)
    (h₂ : g₁.Went tokens' (right :: left :: g₀.stack.slots) (b.expr.code l (g₀.stack.depth + 1))
      (g₀.stack.depth + 1 + b.expr.need) g₂)
    (h₃ : g₂.Went tokens' (result :: g₀.stack.slots)
      (l.binaryCode (L.operator o) left right g₀.stack.depth) (g₀.stack.depth + 1) g₃) :
    g₀.Went tokens' (result :: g₀.stack.slots) ((L.join a o b).expr.code l g₀.stack.depth)
      (g₀.stack.depth + (L.join a o b).expr.need) g₃ := by
  have hta : a.expr.ty = left := Expr.ty_of_compiles? ha
  have htb : b.expr.ty = right := Expr.ty_of_compiles? hb
  have hpos := a.expr.need_pos
  have h := ((hw.trans h₁).trans h₂).trans h₃
  refine ⟨h.rest, h.slots, ?_, ?_⟩
  · rw [h.actions, L.expr_join, Expr.code, hta, htb]
    simp
  · rw [h.maxDepth, L.expr_join, Expr.need]
    omega

theorem binaryRest_yields (hp : Follows l p operand)
    (hop : ∀ x, operator? x = (L.of? x).map L.operator) (g₀ : Generator) (k : Nat)
    {a : Derivation c} {left : Ty} {g : Generator} {tokens : List Token}
    (ha : a.expr.compiles? l.symbols = some left)
    (hw : g₀.Went tokens (left :: g₀.stack.slots) (a.expr.code l g₀.stack.depth)
      (g₀.stack.depth + a.expr.need) g) :
    Yields l (binaryRest l operator? p k left) g₀ g
      (L.readRest operand k a (tokens.map Token.lexeme)) := by
  -- The loop and the reader go round together: `hw` says that what was generated since `g₀` is the
  -- code of what was read.
  induction k generalizing a left g tokens with
  | zero => exact .does tokens ha rfl hw
  | succ k ih =>
    obtain ⟨g₁, hadv, hw₁⟩ := advance_does Diagnostic g
    rw [hw.rest, hw.slots] at hw₁
    cases tokens with
    | nil =>
      have hnext : operator? g.next.lexeme = none := by
        rw [hop, Generator.next, hw.rest, List.headD_nil, L.of?_endOfInput]
        rfl
      exact .does [] ha (binaryRest_stops _ _ hnext) hw
    | cons token tokens =>
      have hnext : g.next = token := by rw [Generator.next, hw.rest, List.headD_cons]
      rw [List.map_cons, Grammar.Level.readRest]
      cases ho : L.of? token.lexeme with
      | none =>
        have hstop : operator? g.next.lexeme = none := by rw [hop, hnext, ho]; rfl
        exact .does (token :: tokens) ha (binaryRest_stops _ _ hstop) hw
      | some o =>
        have hgo : operator? g.next.lexeme = some (L.operator o) := by rw [hop, hnext, ho]; rfl
        have hy := hp g₁
        rw [hw₁.rest, List.tail_cons] at hy
        simp only
        generalize operand (tokens.map Token.lexeme) = read at hy
        cases hy with
        | fails hnone hfail =>
          -- The reader may have found an operand, but one that does not compile.
          refine .fails (fun d rest hd => ?_) ?_
          · cases read with
            | none => cases hd
            | some br =>
              refine readRest_compiles ?_ hd
              rw [L.expr_join]
              simp only [Expr.compiles?, ha, hnone br.1 br.2 rfl]
          · obtain ⟨d, g', hd⟩ := hfail
            refine ⟨d, g', ?_⟩
            rw [binaryRest_goes k left hgo]
            simp only [bind, EStateM.bind, hadv, hd]
        | @does b tokens' right g₂ hb hok hw₂ =>
          rw [OperandStack.depth, hw₁.slots, List.length_cons] at hw₂
          cases hj : l.symbols.join? (L.operator o) left right with
          | none =>
            refine .fails (fun d rest hd => readRest_compiles ?_ hd) ?_
            · rw [L.expr_join]
              simp only [Expr.compiles?, ha, hb, hj]
            · obtain ⟨d, g', hd⟩ := binary_fails g.next.location hw₂.slots hj
              refine ⟨d, g', ?_⟩
              rw [binaryRest_goes k left hgo]
              simp only [bind, EStateM.bind, hadv, hok, hd]
          | some result =>
            obtain ⟨g₃, hok', hw₃⟩ := binary_does g.next.location hw₂.slots hj
            rw [hw₂.rest] at hw₃
            have hjoin : (L.join a o b).expr.compiles? l.symbols = some result := by
              rw [L.expr_join]
              simp only [Expr.compiles?, ha, hb, hj]
            refine (ih hjoin (went_join ha hb hw hw₁ hw₂ hw₃)).of_eq ?_
            rw [binaryRest_goes k left hgo]
            simp only [bind, EStateM.bind, hadv, hok, hok']

theorem binaryLevel_follows (hp : Follows l p operand)
    (hop : ∀ x, operator? x = (L.of? x).map L.operator) :
    Follows l (binaryLevel l operator? p) (L.read operand) := by
  intro g
  have hy := hp g
  unfold Grammar.Level.read
  generalize operand (g.rest.map Token.lexeme) = read at hy
  cases hy with
  | fails hnone hfail =>
    refine .fails (fun d rest hd => ?_) (hfail.bind _)
    cases read with
    | none => cases hd
    | some br =>
      refine readRest_compiles ?_ hd
      rw [L.expr_first]
      exact hnone br.1 br.2 rfl
  | @does b tokens left g₁ hb hok hw =>
    rw [← L.expr_first] at hb hw
    simp only [List.length_map]
    refine (binaryRest_yields hp hop g tokens.length hb hw).of_eq ?_
    rw [binaryLevel, bind_of_ok hok, get_bind, hw.rest]

end Levels

theorem expression_follows {l : Linkage} {unary : Production} {factor : Reader .factor}
    (h : Follows l unary factor) :
    Follows l (expression l unary) (sums.read (terms.read factor)) := by
  refine binaryLevel_follows (binaryLevel_follows h fun x => ?_) fun x => ?_
  · cases x <;> rfl
  · cases x <;> rfl

def FollowsBelow (l : Linkage) : Option Production → Option (Reader .factor) → Prop
  | none, none => True
  | some p, some r => Follows l p r
  | _, _ => False

theorem Yields.counted {l : Linkage} {c : Grammar.Category} {p : Production}
    {g₀ g₁ g : Generator} {o : Option (Derivation c × List Lexeme)} (h : Yields l p g₁ g o)
    (hs : g₁.stack = g₀.stack) (ha : g₁.actions = g₀.actions) : Yields l p g₀ g o := by
  cases h with
  | fails hnone hfail => exact .fails hnone hfail
  | does tokens ht hok hw =>
    rw [hs] at hw
    exact .does tokens ht hok ⟨hw.rest, hw.slots, ha ▸ hw.actions, hs ▸ hw.maxDepth⟩

theorem nested_yields {l : Linkage} {c : Grammar.Category} {p : Production} {g₀ g : Generator}
    {o : Option (Derivation c × List Lexeme)} (location : Location)
    (body : Production → Production)
    (h : Yields l (body p) g₀ { g with nesting := g.nesting + 1 } o) :
    Yields l (nested location (some p) body) g₀ g o := by
  have he : nested location (some p) body g =
      leaving (body p) { g with nesting := g.nesting + 1 } := rfl
  cases h with
  | fails hnone hfail =>
    obtain ⟨d, g', hd⟩ := hfail
    exact .fails hnone ⟨d, { g' with nesting := g'.nesting - 1 }, by rw [he, leaving, hd]⟩
  | @does d tokens t g' ht hok hw =>
    have hok' : nested location (some p) body g =
        .ok t { g' with nesting := g'.nesting - 1 } := by rw [he, leaving, hok]
    exact .does tokens ht hok' ⟨hw.rest, hw.slots, hw.actions, hw.maxDepth⟩

theorem literal_does (l : Linkage) (load : Action) (ty : Ty) (g : Generator) :
    Does (literal l load ty) g ty g.rest (ty :: g.stack.slots)
      (load :: l.pushCode ty g.stack.depth) (g.stack.depth + 1) := by
  refine ((act_does load g).bind fun g' hr hs => ?_).of_eq rfl (Nat.zero_max _)
  rw [← hr]
  exact push_return_does ty hs

theorem parenthesised_closed {l : Linkage} {unary : Production} {opening : Location}
    {g g' : Generator} {t : Ty} (hok : expression l unary g = .ok t g')
    (hc : g'.next.lexeme = .rightParen) : parenthesised l opening unary g = .ok t g'.advance := by
  rw [parenthesised, bind_of_ok hok, peek_bind, if_pos hc]
  rfl

theorem parenthesised_open {l : Linkage} {unary : Production} {opening : Location}
    {g g' : Generator} {t : Ty} (hok : expression l unary g = .ok t g')
    (hc : g'.next.lexeme ≠ .rightParen) : Fails (parenthesised l opening unary) g := by
  unfold Fails
  rw [parenthesised, bind_of_ok hok, peek_bind, if_neg hc]
  exact throw_fails _ g'

theorem parenthesised_follows {l : Linkage} {unary : Production} {factor : Reader .factor}
    (opening : Location) (h : Follows l unary factor) (g : Generator) :
    Yields l (parenthesised l opening unary) g g
      (readAtom (some factor) (.leftParen :: g.rest.map Token.lexeme)) := by
  have hy := expression_follows h g
  unfold readAtom
  simp only
  generalize sums.read (terms.read factor) (g.rest.map Token.lexeme) = read at hy
  cases hy with
  | fails hnone hfail =>
    refine .fails (fun d rest hd => ?_) (hfail.bind _)
    split at hd
    · rename_i e rest'
      cases hd
      exact hnone e _ rfl
    · cases hd
  | @does e tokens t g' ht hok hw =>
    cases tokens with
    | nil =>
      refine .fails (by nofun) (parenthesised_open hok ?_)
      rw [Generator.next, hw.rest, List.headD_nil]
      nofun
    | cons token tokens =>
      have hnext : g'.next = token := by rw [Generator.next, hw.rest, List.headD_cons]
      by_cases hc : token.lexeme = .rightParen
      · obtain ⟨g'', hadv, hw'⟩ := advance_does Diagnostic g'
        rw [hw.rest, hw.slots, List.tail_cons] at hw'
        cases hadv
        rw [List.map_cons, hc]
        have hw'' := hw.trans hw'
        rw [List.append_nil, Nat.max_zero] at hw''
        exact .does tokens ht (parenthesised_closed hok (hnext ▸ hc)) hw''
      · refine .fails (fun d rest hd => ?_) (parenthesised_open hok (hnext ▸ hc))
        split at hd
        · rename_i he
          simp only [List.map_cons, Option.some.injEq, Prod.mk.injEq, List.cons.injEq] at he
          exact absurd he.2.1 hc
        · cases hd

theorem primary_eq {l : Linkage} {inner : Option Production} {g : Generator} {token : Token}
    {tokens : List Token} (hr : g.rest = token :: tokens) :
    primary l inner g = (match token.lexeme with
      | .leftParen => nested token.location inner (parenthesised l token.location)
      | .null => wordLiteral l 0 .null
      | .bool value => wordLiteral l (if value then 1 else 0) .bool
      | .int value _ => wordLiteral l value.toUInt64 .int
      | .float value _ => literal l (.loadFloat l.roles.floatAccumulator value) .float
      | .string value => literal l (.loadText l.roles.accumulator value) .string
      | .word name => throw (unknownWord name token.location)
      | .illegal reason => throw (.ofGrammar reason token.location)
      | _ => throw (.unexpected (utf8 "an operand") token) : Production) g.advance := by
  have hnext : g.next = token := by rw [Generator.next, hr, List.headD_cons]
  rw [primary, peek_bind, hnext]
  rfl

theorem literal_yields {l : Linkage} (x : Literal) {load : Action} {ty : Ty}
    (ht : x.expr.compiles? l.symbols = some ty) (hn : x.expr.need = 1)
    (hc : ∀ depth, x.expr.code l depth = load :: l.pushCode ty depth) (g : Generator) :
    Yields l (literal l load ty) g g (some (Derivation.literal x, g.rest.map Token.lexeme)) := by
  obtain ⟨g', hok, hw⟩ := literal_does l load ty g
  rw [← hc, ← hn] at hw
  exact .does g.rest ht hok hw

theorem primary_follows {l : Linkage} {inner : Option Production} {below : Option (Reader .factor)}
    (h : FollowsBelow l inner below) : Follows l (primary l inner) (readAtom below) := by
  intro g
  cases hr : g.rest with
  | nil =>
    refine .fails (by nofun) ?_
    have hnext : g.next.lexeme = .endOfInput := by rw [Generator.next, hr]; rfl
    unfold Fails
    rw [primary, peek_bind, hnext]
    exact throw_fails _ g.advance
  | cons token tokens =>
    obtain ⟨g₁, hadv⟩ : ∃ g₁, g.advance = g₁ := ⟨_, rfl⟩
    obtain ⟨rfl, hs, ha⟩ : g₁.rest = tokens ∧ g₁.stack = g.stack ∧ g₁.actions = g.actions := by
      rw [← hadv, Generator.advance, hr]
      exact ⟨rfl, rfl, rfl⟩
    refine Yields.of_eq ?_ (primary_eq hr)
    rw [hadv]
    refine Yields.counted ?_ hs ha
    rw [List.map_cons]
    cases token.lexeme with
    | null => exact literal_yields .null rfl rfl (fun _ => rfl) g₁
    | bool b => exact literal_yields (.bool b) rfl rfl (fun _ => rfl) g₁
    | int n spelling => exact literal_yields (.int n spelling) rfl rfl (fun _ => rfl) g₁
    | float x spelling => exact literal_yields (.float x spelling) rfl rfl (fun _ => rfl) g₁
    | string s => exact literal_yields (.string s) rfl rfl (fun _ => rfl) g₁
    | leftParen =>
      match inner, below, h with
      | none, none, _ => exact .fails (by nofun) ⟨_, _, rfl⟩
      | some unary, some factor, h =>
        refine nested_yields token.location (parenthesised l token.location) ?_
        exact (parenthesised_follows token.location h { g₁ with nesting := g₁.nesting + 1 }).counted
          rfl rfl
    | _ => exact .fails (by nofun) (throw_fails _ g₁)

theorem Yields.atom {l : Linkage} {p : Production} {g₀ g : Generator}
    {o : Option (Derivation .atom × List Lexeme)} (h : Yields l p g₀ g o) :
    Yields l p g₀ g (o.map fun x => (Derivation.atom x.1, x.2)) := by
  cases h with
  | fails hnone hfail =>
    refine .fails (fun d rest hd => ?_) hfail
    obtain ⟨x, rfl, hx⟩ := Option.map_eq_some_iff.1 hd
    cases hx
    exact hnone x.1 x.2 rfl
  | does tokens ht hok hw => exact .does tokens ht hok hw

theorem signed_follows {l : Linkage} {operand : Production} {factor : Reader .factor} (s : Additive)
    (location : Location) (h : Follows l operand factor) (g : Generator) :
    Yields l (do let ty ← operand; sign l s.operator location ty) g g
      ((factor (g.rest.map Token.lexeme)).map fun x => (Derivation.sign s x.1, x.2)) := by
  have hy := h g
  generalize factor (g.rest.map Token.lexeme) = read at hy
  cases hy with
  | fails hnone hfail =>
    refine .fails (fun d rest hd => ?_) (hfail.bind _)
    obtain ⟨x, rfl, hx⟩ := Option.map_eq_some_iff.1 hd
    cases hx
    simp only [Derivation.expr, Expr.compiles?, hnone x.1 x.2 rfl]
  | @does d tokens t g' ht hok hw =>
    cases hu : s.operator.unaryResult t with
    | error f =>
      refine .fails (fun d' rest hd => ?_) ?_
      · cases hd
        simp only [Derivation.expr, Expr.compiles?, ht, hu]
        rfl
      · obtain ⟨d', g'', hd⟩ := sign_fails l location g' hu
        refine ⟨d', g'', ?_⟩
        simp only [bind, EStateM.bind, hok, hd]
    | ok result =>
      obtain ⟨n, hn, g'', hok', hw'⟩ := sign_does location hw.slots hu
      have ht' : (Derivation.sign s d).expr.compiles? l.symbols = some result := by
        simp only [Derivation.expr, Expr.compiles?, ht, hu]
        rfl
      refine .does tokens ht' (by simp only [bind, EStateM.bind, hok]; exact hok') ?_
      have hw'' := hw.trans hw'
      have hpos := d.expr.need_pos
      refine ⟨hw''.rest.trans hw.rest, hw''.slots, ?_, ?_⟩
      · rw [hw''.actions, Derivation.expr, Expr.code, Expr.ty_of_compiles? ht]
        rfl
      · rw [hw''.maxDepth, Derivation.expr, Expr.need, OperandStack.depth]
        dsimp only
        omega

theorem unaryWith_follows {l : Linkage} {inner : Option Production}
    {below : Option (Reader .factor)} (h : FollowsBelow l inner below) :
    Follows l (unaryWith l inner) (readFactorWith below) := by
  intro g
  have hop : ∀ x, additiveOperator? x = (Additive.of? x).map Additive.operator := by
    intro x
    cases x <;> rfl
  cases hr : g.rest with
  | nil =>
    have hy := primary_follows h g
    rw [hr] at hy
    refine hy.atom.of_eq ?_
    have hnext : g.next.lexeme = .endOfInput := by rw [Generator.next, hr]; rfl
    rw [unaryWith, peek_bind, hnext]
    rfl
  | cons token tokens =>
    have hnext : g.next = token := by rw [Generator.next, hr, List.headD_cons]
    rw [List.map_cons, readFactorWith]
    cases hs : Additive.of? token.lexeme with
    | none =>
      have hy := primary_follows h g
      rw [hr] at hy
      refine hy.atom.of_eq ?_
      rw [unaryWith, peek_bind, hnext, hop, hs]
      rfl
    | some s =>
      obtain ⟨g₁, hadv⟩ : ∃ g₁, g.advance = g₁ := ⟨_, rfl⟩
      obtain ⟨rfl, hst, ha⟩ : g₁.rest = tokens ∧ g₁.stack = g.stack ∧ g₁.actions = g.actions := by
        rw [← hadv, Generator.advance, hr]
        exact ⟨rfl, rfl, rfl⟩
      have he : unaryWith l inner g = nested token.location inner (fun operand => do
          let ty ← operand
          sign l s.operator token.location ty) g₁ := by
        rw [unaryWith, peek_bind, hnext, hop, hs, ← hadv]
        rfl
      refine Yields.of_eq ?_ he
      refine Yields.counted ?_ hst ha
      cases inner with
      | none =>
        cases below with
        | none => exact .fails (fun _ _ h => by cases h) ⟨_, _, rfl⟩
        | some factor => exact h.elim
      | some unary =>
        cases below with
        | none => exact h.elim
        | some factor =>
          refine nested_yields token.location _ ?_
          exact (signed_follows s token.location h { g₁ with nesting := g₁.nesting + 1 }).counted
            rfl rfl

theorem unary_follows (l : Linkage) (n : Nat) : Follows l (unary l n) (readFactor n) := by
  induction n with
  | zero => exact unaryWith_follows trivial
  | succ n ih => exact unaryWith_follows ih

theorem atEnd_does {g : Generator} (h : g.next.lexeme = .endOfInput) :
    Does atEnd g () g.rest g.stack.slots [] 0 := by
  refine ⟨g, ?_, .refl g⟩
  rw [atEnd, peek_bind, h]
  rfl

theorem atEnd_fails {g : Generator} (h : g.next.lexeme ≠ .endOfInput) : Fails atEnd g := by
  unfold Fails
  rw [atEnd, peek_bind]
  cases hl : g.next.lexeme with
  | endOfInput => exact absurd hl h
  | _ => exact throw_fails _ g

theorem validate_eq {n : Nat} {g : Generator} (label : Text) (h : g.stack.slots.length = n) :
    validate n label g = .ok () g := by
  have hv : g.stack.validate n label = .ok () := by
    simp [OperandStack.validate, OperandStack.depth, h]
  rw [validate, get_bind, hv]
  rfl

theorem validate_does {n : Nat} {g : Generator} (label : Text) (h : g.stack.slots.length = n) :
    Does (validate n label) g () g.rest g.stack.slots [] 0 :=
  ⟨g, validate_eq label h, .refl g⟩

theorem popResult_does {l : Linkage} {t : Ty} {g : Generator} (h : g.stack.slots = [t]) :
    Does (popResult l t) g () g.rest [] (l.resultCode t) 0 := by
  unfold popResult Linkage.resultCode
  by_cases ht : t = .float
  · subst ht
    exact popFloat_does _ h
  · simp only [Ty.isFloat, ht, decide_false, Bool.false_eq_true, if_false]
    exact popInt_does _ h ht

def finish (l : Linkage) (ty : Ty) : Production := do
  atEnd
  balanced (validate 1 (utf8 "end of expression"))
  balanced (popResult l ty)
  balanced (validate 0 (utf8 "epilogue"))
  emit .epilogue
  return ty

theorem finish_does (l : Linkage) {t : Ty} {g : Generator} (hs : g.stack.slots = [t])
    (h : g.next.lexeme = .endOfInput) :
    Does (finish l t) g t g.rest [] (l.resultCode t ++ [Action.operation .epilogue]) 0 := by
  refine (atEnd_does h).bind fun g₁ hr₁ hs₁ => ?_
  refine (validate_does (n := 1) _ (by rw [hs₁, hs]; rfl)).balanced.bind fun g₂ hr₂ hs₂ => ?_
  refine ((popResult_does (hs₂.trans (hs₁.trans hs))).balanced.bind fun g₃ hr₃ hs₃ => ?_)
  refine (validate_does (n := 0) _ (by rw [hs₃]; rfl)).balanced.bind fun g₄ hr₄ hs₄ => ?_
  refine ((emit_does .epilogue g₄).bind fun g₅ hr₅ hs₅ => ?_).of_eq (List.append_nil _) rfl
  rw [← hr₁, ← hr₂, ← hr₃, ← hr₄, ← hr₅, ← hs₃, ← hs₄, ← hs₅]
  exact pure_does g₅ t

theorem function_eq (l : Linkage) (tokens : List Token) :
    function l (.start tokens) = (expression l (unary l maxNesting) >>= finish l)
      ((Generator.start tokens).act (.operation .prologue)) := rfl

theorem next_lexeme (g : Generator) :
    g.next.lexeme = (g.rest.map Token.lexeme).headD .endOfInput := by
  unfold Generator.next
  cases g.rest <;> rfl

/-- A function is generated for the sentences of the grammar that compile. -/
theorem function_does (l : Linkage) {tokens : List Token} {d : Derivation .expression} {t : Ty}
    (hd : d.lexemes = sentence tokens) (hn : d.nesting ≤ maxNesting)
    (ht : d.expr.compiles? l.symbols = some t) :
    ∃ g, function l (.start tokens) = .ok t g ∧ g.actions.toList = d.expr.function l ∧
      g.stack.maxDepth = d.expr.need := by
  obtain ⟨rest, hr, hend⟩ := readExpression_iff.2 ⟨hd, hn⟩
  have hy := expression_follows (unary_follows l maxNesting)
    ((Generator.start tokens).act (.operation .prologue))
  change Yields l _ _ _ (readExpression maxNesting (tokens.map Token.lexeme)) at hy
  generalize readExpression maxNesting (tokens.map Token.lexeme) = read at hy hr
  cases hy with
  | fails hnone hfail => simp [hnone d rest hr] at ht
  | @does d' tokens' t' g' ht' hok hw =>
    cases hr
    cases ht.symm.trans ht'
    have hnext : g'.next.lexeme = .endOfInput := by rw [next_lexeme, hw.rest, hend]
    obtain ⟨g'', hok', hw'⟩ := finish_does l hw.slots hnext
    refine ⟨g'', ?_, ?_, ?_⟩
    · rw [function_eq]
      simp only [bind, EStateM.bind, hok, hok']
    · have hty : d.expr.ty = t := Expr.ty_of_compiles? ht
      rw [hw'.actions, hw.actions, Expr.function, Expr.body, hty]
      simp [Generator.start, Generator.act, OperandStack.depth]
    · rw [hw'.maxDepth, hw.maxDepth]
      simp [Generator.start, Generator.act, OperandStack.depth]

/-- A function is generated for nothing else. -/
theorem function_inv {l : Linkage} {tokens : List Token} {g : Generator} {t : Ty}
    (h : function l (.start tokens) = .ok t g) :
    ∃ d : Derivation .expression, d.lexemes = sentence tokens ∧ d.nesting ≤ maxNesting ∧
      d.expr.compiles? l.symbols = some t := by
  rw [function_eq] at h
  have hy := expression_follows (unary_follows l maxNesting)
    ((Generator.start tokens).act (.operation .prologue))
  change Yields l _ _ _ (readExpression maxNesting (tokens.map Token.lexeme)) at hy
  generalize hr : readExpression maxNesting (tokens.map Token.lexeme) = read at hy
  cases hy with
  | fails hnone hfail =>
    obtain ⟨d, g', hd⟩ := hfail.bind (finish l)
    rw [hd] at h
    cases h
  | @does d tokens' t' g' ht hok hw =>
    by_cases hnext : g'.next.lexeme = .endOfInput
    · have hend : (tokens'.map Token.lexeme).headD .endOfInput = .endOfInput := by
        rw [← hw.rest, ← next_lexeme, hnext]
      obtain ⟨hl, hn⟩ := readExpression_iff.1 ⟨_, hr, hend⟩
      obtain ⟨g'', hok', hw'⟩ := finish_does l hw.slots hnext
      simp only [bind, EStateM.bind, hok, hok'] at h
      cases h
      exact ⟨d, hl, hn, ht⟩
    · obtain ⟨e, g'', he⟩ : Fails (finish l t') g' := (atEnd_fails hnext).bind _
      simp only [bind, EStateM.bind, hok, he] at h
      cases h

end Generate

end OnePass
