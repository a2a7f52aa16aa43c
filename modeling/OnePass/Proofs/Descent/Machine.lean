import OnePass.Proofs.Compiler.Generation

/-!
# Generation step by step

A production says how generation gets from its beginning to its end. Here generation is a machine
that has a list of tasks before it and does one of them at a time, so that something can be said
about every moment in between. A task moves the operand stack once at most. When a task fails, those
behind it are given up one by one, and levels are left on the way. The machine ends as the
productions do.
-/

set_option autoImplicit false

namespace OnePass

open Generate

namespace Generator

def down (g : Generator) : Generator := { g with nesting := g.nesting + 1 }

def up (g : Generator) (levels : Nat) : Generator := { g with nesting := g.nesting - levels }

@[simp] theorem rest_advance (g : Generator) : g.advance.rest = g.rest.tail := by
  unfold advance
  split <;> simp [*]

@[simp] theorem nesting_advance (g : Generator) : g.advance.nesting = g.nesting := by
  unfold advance
  split <;> rfl

@[simp] theorem stack_advance (g : Generator) : g.advance.stack = g.stack := by
  unfold advance
  split <;> rfl

end Generator

namespace Descent

def ending {α : Type} : EStateM.Result Diagnostic Generator α → Generator
  | .ok _ g => g
  | .error _ g => g

inductive Move where
  | act (a : Action)
  | push (ty : Ty)
  | popInt (register : Text)
  | popFloat (register : Text)
  | popAsFloat (freg reg : Text)
  | call (r : Routine) (location : Location)
  | atEnd
  | validate (expected : Nat) (label : Text)

def Move.run (l : Linkage) : Move → Generate Diagnostic Unit
  | .act a => Generate.act a
  | .push ty => Generate.push l ty
  | .popInt register => balanced (Generate.popInt register)
  | .popFloat register => balanced (Generate.popFloat register)
  | .popAsFloat freg reg => balanced (Generate.popAsFloat freg reg)
  | .call r location => callRoutine l r location
  | .atEnd => Generate.atEnd
  | .validate expected label => balanced (Generate.validate expected label)

def runAll (l : Linkage) : List Move → Generate Diagnostic Unit
  | [] => return ()
  | m :: ms => do
    m.run l
    runAll l ms

def operandMoves (l : Linkage) : Coercion → List Move
  | .int => [.popInt l.roles.operand, .popInt l.roles.accumulator]
  | .float =>
    [.popAsFloat l.roles.floatOperand l.roles.operand,
      .popAsFloat l.roles.floatAccumulator l.roles.accumulator]
  | .concat => [.popInt l.roles.secondArgument, .popInt l.roles.firstArgument]

def computeMoves (l : Linkage) (c : Coercion) (op : Operator) (location : Location) : List Move :=
  match c.routine? op with
  | some r =>
    [.call r location,
      match r with
      | .concat => .act (.operation (.move l.roles.accumulator l.roles.result))
      | _ => .act (.operation (.moveFloat l.roles.floatAccumulator l.roles.floatResult))]
  | none =>
    match c with
    | .float =>
      [.act (.operation (.floatBinary op l.roles.floatAccumulator l.roles.floatOperand))]
    | _ => [.act (.operation (.intBinary op l.roles.accumulator l.roles.operand))]

def binaryMoves (l : Linkage) (op : Operator) (location : Location) (left right result : Ty)
    (c : Coercion) : List Move :=
  .act (.note (.combined left op right result c)) ::
    (operandMoves l c ++ (computeMoves l c op location ++ [.push result]))

def signMoves (l : Linkage) (op : Operator) (operand result : Ty) : List Move :=
  if op = .add ∧ operand = .int then []
  else if op = .add then
    [.popFloat l.roles.floatAccumulator,
      .act (.operation (.floatToInt l.roles.accumulator l.roles.floatAccumulator)), .push result]
  else if operand.isFloat then
    [.popFloat l.roles.floatAccumulator,
      .act (.operation (.floatNegate l.roles.floatAccumulator)), .push result]
  else
    [.popInt l.roles.accumulator, .act (.operation (.intNegate l.roles.accumulator)), .push result]

def finishMoves (l : Linkage) (ty : Ty) : List Move :=
  [.atEnd, .validate 1 (utf8 "end of expression"),
    if ty.isFloat then .popFloat l.roles.floatResult else .popInt l.roles.result,
    .validate 0 (utf8 "epilogue"), .act (.operation .epilogue)]

theorem runAll_append (l : Linkage) (ms ns : List Move) :
    runAll l (ms ++ ns) = (do runAll l ms; runAll l ns) := by
  induction ms with
  | nil => simp only [List.nil_append, runAll, pure_bind]
  | cons m ms ih => simp only [List.cons_append, runAll, ih, bind_assoc]

theorem runAll_operandMoves (l : Linkage) (c : Coercion) :
    runAll l (operandMoves l c) = operands l c := by
  cases c <;> simp only [operandMoves, runAll, Move.run, operands, bind_pure_unit]

theorem runAll_computeMoves (l : Linkage) (c : Coercion) (op : Operator) (location : Location) :
    runAll l (computeMoves l c op location) = compute l c op location := by
  unfold computeMoves compute
  cases c.routine? op with
  | none => cases c <;> simp only [runAll, Move.run, bind_pure_unit] <;> rfl
  | some r => cases r <;> simp only [runAll, Move.run, bind_pure_unit] <;> rfl

theorem binary_eq_moves {l : Linkage} {op : Operator} {location : Location}
    {left right result : Ty} {c : Coercion} (h : op.promote left right = .ok (result, c)) :
    binary l op location left right = (do
      runAll l (binaryMoves l op location left right result c)
      return result) := by
  rw [binary_eq h, binaryMoves]
  simp only [runAll, runAll_append, runAll_operandMoves, runAll_computeMoves, bind_assoc, pure_bind,
    Move.run]

theorem sign_eq_moves {l : Linkage} {op : Operator} {location : Location} {operand result : Ty}
    (h : op.unaryResult operand = .ok result) :
    sign l op location operand = (do
      runAll l (signMoves l op operand result)
      return result) := by
  unfold sign signMoves
  rw [h]
  dsimp only
  split
  · rfl
  · split
    · simp only [runAll, Move.run, bind_assoc, pure_bind]
      rfl
    · split <;> simp only [runAll, Move.run, bind_assoc, pure_bind] <;> rfl

theorem finish_eq_moves (l : Linkage) (ty : Ty) :
    finish l ty = (do
      runAll l (finishMoves l ty)
      return ty) := by
  unfold finish finishMoves popResult
  cases ty.isFloat <;> simp only [runAll, Move.run, bind_assoc, pure_bind] <;> rfl

/-- What may come of a move: nothing is read, no level is entered or left, and the operand stack
becomes this deep. -/
structure Moved (g g' : Generator) (n : Nat) : Prop where
  rest : g'.rest = g.rest
  nesting : g'.nesting = g.nesting
  depth : g'.stack.depth = n
  maxDepth : g'.stack.maxDepth ≤ max g.stack.maxDepth n

theorem Moved.refl (g : Generator) : Moved g g g.stack.depth := ⟨rfl, rfl, rfl, Nat.le_max_left ..⟩

theorem Moved.act (g : Generator) (a : Action) : Moved g (g.act a) g.stack.depth :=
  ⟨rfl, rfl, rfl, Nat.le_max_left ..⟩

theorem Moved.popped {g : Generator} {ty : Ty} {slots : List Ty} (register : Text)
    (h : g.stack.slots = ty :: slots) :
    Moved g (g.popped register ty slots) (g.stack.depth - 1) where
  rest := rfl
  nesting := rfl
  depth := by rw [OperandStack.depth, OperandStack.depth, h]; rfl
  maxDepth := Nat.le_max_left ..

def Move.depth : Move → Nat → Nat
  | .push _, n => n + 1
  | .popInt _, n | .popFloat _, n | .popAsFloat .., n => n - 1
  | _, n => n

def Takes {ε : Type} (m : Generate ε Unit) (g : Generator) (depth : Nat) : Prop :=
  match m g with
  | .ok _ g' => Moved g g' depth
  | .error _ g' => ∃ n, (n = g.stack.depth ∨ n = g.stack.depth - 1) ∧ Moved g g' n

theorem Takes.balanced {m : Generate Imbalance Unit} {g : Generator} {depth : Nat}
    (h : Takes m g depth) : Takes (Generate.balanced m) g depth := by
  unfold Takes Generate.balanced EStateM.adaptExcept at *
  cases hm : m g with
  | ok u g' =>
    rw [hm] at h
    exact h
  | error i g' =>
    rw [hm] at h
    exact h

theorem takes_popType {register : Text} {f : Ty → Generate Imbalance Unit} {g : Generator}
    (h : ∀ ty slots, g.stack.slots = ty :: slots →
      (∃ o, f ty (g.popped register ty slots) = .ok () ((g.popped register ty slots).act o)) ∨
      ∃ i, f ty (g.popped register ty slots) = .error i (g.popped register ty slots)) :
    Takes (popType register >>= f) g (g.stack.depth - 1) := by
  unfold Takes
  cases hs : g.stack.slots with
  | nil =>
    have hp : popType register g = .error (.empty register (g.stack.recent 10)) g := by
      rw [popType, get_bind, OperandStack.pop, hs]
      rfl
    simp only [Bind.bind, EStateM.bind, hp]
    exact ⟨_, .inl rfl, .refl g⟩
  | cons ty slots =>
    have hpop := Moved.popped register hs
    rw [bind_of_ok (popType_eq register hs)]
    rcases h ty slots hs with ⟨o, ho⟩ | ⟨i, hi⟩
    · rw [ho]
      exact ⟨hpop.rest, hpop.nesting, hpop.depth, hpop.maxDepth⟩
    · rw [hi]
      exact ⟨_, .inr rfl, hpop⟩

theorem takes_popInt (register : Text) (g : Generator) :
    Takes (popInt register) g (g.stack.depth - 1) := by
  apply takes_popType
  intro ty slots _
  by_cases hf : ty.isFloat
  · right
    exists .intoInteger ty register
    simp only [hf, if_true]
    rfl
  · left
    exists .operation (.pop register)
    simp only [hf]
    rfl

theorem takes_popFloat (register : Text) (g : Generator) :
    Takes (popFloat register) g (g.stack.depth - 1) := by
  apply takes_popType
  intro ty slots _
  by_cases hf : ty.isFloat
  · left
    exists .operation (.popFloat register)
    simp only [hf]
    rfl
  · right
    exists .intoFloat ty register
    simp only [hf]
    rfl

theorem takes_popAsFloat (freg reg : Text) (g : Generator) :
    Takes (popAsFloat freg reg) g (g.stack.depth - 1) := by
  by_cases ht : g.stack.top? = some .float
  · have he : popAsFloat freg reg g = popFloat freg g := by
      rw [popAsFloat, get_bind, if_pos ht]
    unfold Takes
    rw [he]
    exact takes_popFloat freg g
  · have he : popAsFloat freg reg g =
        (popInt reg >>= fun _ => emit (.intToFloat freg reg)) g := by
      rw [popAsFloat, get_bind, if_neg ht]
    have hpop := takes_popInt reg g
    unfold Takes at *
    rw [he]
    simp only [Bind.bind, EStateM.bind]
    cases hp : popInt reg g with
    | ok u g' =>
      rw [hp] at hpop
      exact ⟨hpop.rest, hpop.nesting, hpop.depth, hpop.maxDepth⟩
    | error i g' =>
      rw [hp] at hpop
      exact hpop

theorem Move.takes (l : Linkage) (m : Move) (g : Generator) :
    Takes (m.run l) g (m.depth g.stack.depth) := by
  cases m with
  | act a => exact .act g a
  | push ty => exact ⟨rfl, rfl, rfl, Nat.le_refl _⟩
  | popInt register => exact (takes_popInt register g).balanced
  | popFloat register => exact (takes_popFloat register g).balanced
  | popAsFloat freg reg => exact (takes_popAsFloat freg reg g).balanced
  | call r location =>
    show Takes (callRoutine l r location) g g.stack.depth
    unfold callRoutine Takes
    by_cases h : l.symbols.address r = 0
    · rw [if_pos h]
      exact ⟨_, .inl rfl, .refl g⟩
    · rw [if_neg h]
      exact .act g _
  | atEnd =>
    show Takes Generate.atEnd g g.stack.depth
    unfold Generate.atEnd Takes
    rw [peek_bind]
    cases g.next.lexeme with
    | endOfInput => exact .refl g
    | _ => exact ⟨_, .inl rfl, .refl g⟩
  | validate expected label =>
    apply Takes.balanced
    unfold Generate.validate Takes
    rw [get_bind]
    cases g.stack.validate expected label with
    | ok u => exact .refl g
    | error i => exact ⟨_, .inl rfl, .refl g⟩

inductive Rank where
  | sum
  | product

def Rank.operator? : Rank → Lexeme → Option Operator
  | .sum => additiveOperator?
  | .product => multiplicativeOperator?

/-- Something to be done. All but `unary` are done after a value was read, and depend on its
type. -/
inductive Task where
  | unary
  /-- Operators of one precedence may follow the value. -/
  | level (r : Rank)
  | operator (op : Operator) (location : Location) (left : Ty)
  | sign (op : Operator) (location : Location)
  | close (opening : Location)
  | leave
  | move (m : Move)
  | yield (ty : Ty)
  | finish

def Rank.operand : Rank → List Task
  | .sum => [.unary, .level .product]
  | .product => [.unary]

def expression : List Task := Rank.sum.operand ++ [.level .sum]

inductive Opening where
  | sign (op : Operator)
  | parenthesis
  | literal (load : Action) (ty : Ty)
  | fault (d : Diagnostic)

def opening (l : Linkage) (token : Token) : Opening :=
  match token.lexeme with
  | .plus => .sign .add
  | .minus => .sign .sub
  | .leftParen => .parenthesis
  | .null => .literal (.operation (.loadImmediate l.roles.accumulator 0)) .null
  | .bool value =>
    .literal (.operation (.loadImmediate l.roles.accumulator (if value then 1 else 0))) .bool
  | .int value _ => .literal (.operation (.loadImmediate l.roles.accumulator value.toUInt64)) .int
  | .float value _ => .literal (.loadFloat l.roles.floatAccumulator value) .float
  | .string value => .literal (.loadText l.roles.accumulator value) .string
  | .word name => .fault (unknownWord name token.location)
  | .illegal reason => .fault (.ofGrammar reason token.location)
  | _ => .fault (.unexpected (utf8 "an operand") token)

def enter (location : Location) : Generate Diagnostic Unit := do
  modify Generator.down
  if (← get).nesting > maxNesting then throw (tooDeep location)

/-- Does a task, given the type of the value that was read last: what is to be done in its place,
and the type again. -/
def Task.run (l : Linkage) : Task → Ty → Generate Diagnostic (List Task × Ty)
  | .unary, ty => do
    let token ← peek
    advance
    match opening l token with
    | .sign op =>
      enter token.location
      return ([.unary, .sign op token.location, .leave], ty)
    | .parenthesis =>
      enter token.location
      return (expression ++ [.close token.location, .leave], ty)
    | .literal load t => return ([.move (.act load), .move (.push t), .yield t], ty)
    | .fault d => throw d
  | .level r, left => do
    let token ← peek
    match r.operator? token.lexeme with
    | none => return ([], left)
    | some op =>
      advance
      return (r.operand ++ [.operator op token.location left, .level r], left)
  | .operator op location left, right =>
    match op.promote left right with
    | .error fault => throw (.ofTypes fault.reason location)
    | .ok (result, c) =>
      return ((binaryMoves l op location left right result c).map .move ++ [.yield result], right)
  | .sign op location, operand =>
    match op.unaryResult operand with
    | .error fault => throw (.ofTypes fault.reason location)
    | .ok result => return ((signMoves l op operand result).map .move ++ [.yield result], operand)
  | .close opening, ty => do
    let closing ← peek
    if closing.lexeme = .rightParen then
      advance
      return ([], ty)
    else
      throw { Diagnostic.unexpected (utf8 "')'") closing with
        help := utf8 "the '(' at " ++ opening.text ++ utf8 " is never closed" }
  | .leave, ty => do
    modify (·.up 1)
    return ([], ty)
  | .move m, ty => do
    m.run l
    return ([], ty)
  | .yield ty, _ => return ([], ty)
  | .finish, ty => return ((finishMoves l ty).map .move, ty)

/-- What giving up a task comes to: a level that it was to leave is left. -/
def Task.unwind : Task → Generator → Generator
  | .leave, g => g.up 1
  | _, g => g

@[simp] theorem Task.stack_unwind (task : Task) (g : Generator) :
    (task.unwind g).stack = g.stack := by
  cases task <;> rfl

@[simp] theorem Task.rest_unwind (task : Task) (g : Generator) :
    (task.unwind g).rest = g.rest := by
  cases task <;> rfl

def levels : List Task → Nat
  | [] => 0
  | .leave :: tasks => levels tasks + 1
  | _ :: tasks => levels tasks

inductive Task.Does (l : Linkage) (ty : Ty) (g : Generator) :
    Task → EStateM.Result Diagnostic Generator (List Task × Ty) → Prop where
  | sign (op : Operator) (location : Location) (room : g.nesting < maxNesting) :
      Does l ty g .unary (.ok ([.unary, .sign op location, .leave], ty) g.advance.down)
  | parenthesis (location : Location) (room : g.nesting < maxNesting) :
      Does l ty g .unary (.ok (expression ++ [.close location, .leave], ty) g.advance.down)
  | tooDeep (location : Location) :
      Does l ty g .unary (.error (Generate.tooDeep location) g.advance.down)
  | literal (load : Action) (t : Ty) :
      Does l ty g .unary (.ok ([.move (.act load), .move (.push t), .yield t], ty) g.advance)
  | unreadable (d : Diagnostic) : Does l ty g .unary (.error d g.advance)
  | stop (r : Rank) : Does l ty g (.level r) (.ok ([], ty) g)
  | go (r : Rank) (op : Operator) (location : Location) :
      Does l ty g (.level r) (.ok (r.operand ++ [.operator op location ty, .level r], ty) g.advance)
  | combine (op : Operator) (location : Location) (left result : Ty) (c : Coercion) :
      Does l ty g (.operator op location left)
        (.ok ((binaryMoves l op location left ty result c).map .move ++ [.yield result], ty) g)
  | change (op : Operator) (location : Location) (result : Ty) :
      Does l ty g (.sign op location)
        (.ok ((signMoves l op ty result).map .move ++ [.yield result], ty) g)
  | close (opening : Location) : Does l ty g (.close opening) (.ok ([], ty) g.advance)
  | refuse (task : Task) (d : Diagnostic) : Does l ty g task (.error d g)
  | leave : Does l ty g .leave (.ok ([], ty) (g.up 1))
  | move {m : Move} {g' : Generator} (moved : Moved g g' (m.depth g.stack.depth)) :
      Does l ty g (.move m) (.ok ([], ty) g')
  | stumble {m : Move} {g' : Generator} {n : Nat} (d : Diagnostic)
      (depth : n = g.stack.depth ∨ n = g.stack.depth - 1) (moved : Moved g g' n) :
      Does l ty g (.move m) (.error d g')
  | yield (t : Ty) : Does l ty g (.yield t) (.ok ([], t) g)
  | finish : Does l ty g .finish (.ok ((finishMoves l ty).map .move, ty) g)

theorem enter_eq (location : Location) (g : Generator) :
    enter location g =
      if g.nesting < maxNesting then .ok () g.down else .error (tooDeep location) g.down := by
  have hdown : (modify Generator.down : Generate Diagnostic PUnit) g = .ok () g.down := rfl
  unfold enter
  rw [bind_of_ok hdown, get_bind]
  by_cases h : g.nesting < maxNesting
  · have hroom : ¬g.down.nesting > maxNesting := Nat.not_lt.2 h
    rw [if_pos h, if_neg hroom]
    rfl
  · have hfull : g.down.nesting > maxNesting := Nat.lt_succ_of_le (Nat.not_lt.1 h)
    rw [if_neg h, if_pos hfull]
    rfl

section Entering

variable {α : Type} {g : Generator} (location : Location) (f : Unit → Generate Diagnostic α)

theorem enter_of_room (h : g.nesting < maxNesting) : (enter location >>= f) g = f () g.down := by
  have he : enter location g = .ok () g.down := by rw [enter_eq, if_pos h]
  rw [bind_of_ok he]

theorem enter_too_deep (h : ¬g.nesting < maxNesting) :
    (enter location >>= f) g = .error (tooDeep location) g.down := by
  have he : enter location g = .error (tooDeep location) g.down := by rw [enter_eq, if_neg h]
  simp only [Bind.bind, EStateM.bind, he]

end Entering

theorem Task.run_unary (l : Linkage) (ty : Ty) (g : Generator) :
    Task.unary.run l ty g = (match opening l g.next with
      | .sign op => do
        enter g.next.location
        return ([.unary, .sign op g.next.location, .leave], ty)
      | .parenthesis => do
        enter g.next.location
        return (expression ++ [.close g.next.location, .leave], ty)
      | .literal load t => return ([.move (.act load), .move (.push t), .yield t], ty)
      | .fault d => throw d : Generate Diagnostic (List Task × Ty)) g.advance := rfl

theorem Task.does_unary (l : Linkage) (ty : Ty) (g : Generator) :
    Does l ty g .unary (Task.unary.run l ty g) := by
  rw [Task.run_unary]
  have hn : g.advance.nesting = g.nesting := g.nesting_advance
  cases opening l g.next with
  | sign op =>
    dsimp only
    by_cases hroom : g.nesting < maxNesting
    · rw [enter_of_room _ _ (hn ▸ hroom)]
      exact .sign op g.next.location hroom
    · rw [enter_too_deep _ _ (hn ▸ hroom)]
      exact .tooDeep g.next.location
  | parenthesis =>
    dsimp only
    by_cases hroom : g.nesting < maxNesting
    · rw [enter_of_room _ _ (hn ▸ hroom)]
      exact .parenthesis g.next.location hroom
    · rw [enter_too_deep _ _ (hn ▸ hroom)]
      exact .tooDeep g.next.location
  | literal load t => exact .literal load t
  | fault d => exact .unreadable d

theorem Task.does_move (l : Linkage) (ty : Ty) (g : Generator) (m : Move) :
    Does l ty g (.move m) ((Task.move m).run l ty g) := by
  have ht := m.takes l g
  unfold Takes at ht
  simp only [Task.run, Bind.bind, EStateM.bind]
  cases hm : m.run l g with
  | ok u g' =>
    rw [hm] at ht
    exact .move ht
  | error d g' =>
    rw [hm] at ht
    obtain ⟨n, hn, hmoved⟩ := ht
    exact .stumble d hn hmoved

theorem Task.does (l : Linkage) (task : Task) (ty : Ty) (g : Generator) :
    Does l ty g task (task.run l ty g) := by
  cases task with
  | unary => exact does_unary l ty g
  | level r =>
    rw [Task.run, peek_bind]
    cases r.operator? g.next.lexeme with
    | none => exact .stop r
    | some op => exact .go r op g.next.location
  | operator op location left =>
    rw [Task.run]
    cases op.promote left ty with
    | error fault => exact .refuse _ _
    | ok promoted => exact .combine op location left promoted.1 promoted.2
  | sign op location =>
    rw [Task.run]
    cases op.unaryResult ty with
    | error fault => exact .refuse _ _
    | ok result => exact .change op location result
  | close opening =>
    rw [Task.run, peek_bind]
    by_cases hc : g.next.lexeme = .rightParen
    · rw [if_pos hc]
      exact .close opening
    · rw [if_neg hc]
      exact .refuse _ _
  | leave => exact .leave
  | move m => exact does_move l ty g m
  | yield t => exact .yield t
  | finish => exact .finish

structure Config where
  tasks : List Task
  type : Ty
  generator : Generator
  /-- Set by the task that failed; those behind it are given up. -/
  failure : Option Diagnostic := none

namespace Config

def start (tokens : List Token) : Config where
  tasks := .move (.act (.operation .prologue)) :: (expression ++ [.finish])
  type := .null
  generator := .start tokens

def step (l : Linkage) (c : Config) : Option Config :=
  match c.failure, c.tasks with
  | none, task :: rest =>
    match task.run l c.type c.generator with
    | .ok (tasks, ty) g => some ⟨tasks ++ rest, ty, g, none⟩
    | .error d g => some ⟨rest, c.type, g, some d⟩
  | some d, task :: rest => some ⟨rest, c.type, task.unwind c.generator, some d⟩
  | _, [] => none

def result (c : Config) : EStateM.Result Diagnostic Generator Ty :=
  match c.failure with
  | none => .ok c.type c.generator
  | some d => .error d c.generator

inductive Reaches (l : Linkage) : Config → Config → Prop where
  | refl (c : Config) : Reaches l c c
  | head {c c' c'' : Config} (first : c.step l = some c') (rest : Reaches l c' c'') :
      Reaches l c c''

theorem Reaches.trans {l : Linkage} {c c' c'' : Config} (h : Reaches l c c')
    (h' : Reaches l c' c'') : Reaches l c c'' := by
  induction h with
  | refl => exact h'
  | head first _ ih => exact .head first (ih h')

theorem Reaches.keeps {l : Linkage} {P : Config → Prop}
    (hstep : ∀ c c', c.step l = some c' → P c → P c') {c c' : Config} (h : Reaches l c c')
    (hc : P c) : P c' := by
  induction h with
  | refl => exact hc
  | head first _ ih => exact ih (hstep _ _ first hc)

end Config

open Config (Reaches)

/-- All that may come of a step. -/
theorem Config.step_cases {l : Linkage} {c c' : Config} (h : c.step l = some c') :
    ∃ task rest, c.tasks = task :: rest ∧
      ((∃ new ty g, c.failure = none ∧ task.Does l c.type c.generator (.ok (new, ty) g) ∧
          c' = ⟨new ++ rest, ty, g, none⟩) ∨
        (∃ d g, c.failure = none ∧ task.Does l c.type c.generator (.error d g) ∧
          c' = ⟨rest, c.type, g, some d⟩) ∨
        ∃ d, c.failure = some d ∧ c' = ⟨rest, c.type, task.unwind c.generator, some d⟩) := by
  unfold Config.step at h
  split at h
  · rename_i task rest hf ht
    have hdoes := task.does l c.type c.generator
    refine ⟨task, rest, ht, ?_⟩
    split at h
    · rename_i new ty g hrun
      rw [hrun] at hdoes
      exact .inl ⟨new, ty, g, hf, hdoes, (Option.some.inj h).symm⟩
    · rename_i d g hrun
      rw [hrun] at hdoes
      exact .inr (.inl ⟨d, g, hf, hdoes, (Option.some.inj h).symm⟩)
  · rename_i d task rest hf ht
    exact ⟨task, rest, ht, .inr (.inr ⟨d, hf, (Option.some.inj h).symm⟩)⟩
  · cases h

theorem levels_append (tasks rest : List Task) :
    levels (tasks ++ rest) = levels tasks + levels rest := by
  induction tasks with
  | nil => exact (Nat.zero_add _).symm
  | cons task tasks ih =>
    cases task with
    | leave =>
      simp only [List.cons_append, levels, ih]
      omega
    | _ => exact ih

theorem levels_moves (ms : List Move) : levels (ms.map .move) = 0 := by
  induction ms with
  | nil => rfl
  | cons m ms ih => exact ih

theorem Task.Does.rest_le {l : Linkage} {task : Task} {ty : Ty} {g : Generator}
    {r : EStateM.Result Diagnostic Generator (List Task × Ty)} (h : task.Does l ty g r) :
    (ending r).rest.length ≤ g.rest.length := by
  cases h with
  | move moved | stumble _ _ moved => exact Nat.le_of_eq (congrArg List.length moved.rest)
  | sign | parenthesis | tooDeep | literal | unreadable | go | close =>
    simp [ending, Generator.down]
  | _ => exact Nat.le_refl _

theorem Config.Reaches.rest_le {l : Linkage} {c c' : Config} (h : Reaches l c c') :
    c'.generator.rest.length ≤ c.generator.rest.length := by
  refine h.keeps (P := fun x => x.generator.rest.length ≤ c.generator.rest.length) ?_
    (Nat.le_refl _)
  intro x x' hstep hx
  obtain ⟨task, rest, -, ⟨new, ty, g, -, hdoes, rfl⟩ | ⟨d, g, -, hdoes, rfl⟩ | ⟨d, -, rfl⟩⟩ :=
    Config.step_cases hstep
  · exact Nat.le_trans hdoes.rest_le hx
  · exact Nat.le_trans hdoes.rest_le hx
  · rwa [task.rest_unwind]

/-- As long as nothing fails, the nesting is the number of levels that are still to be left, counted
from some level. -/
def Config.Nested (base : Nat) (c : Config) : Prop :=
  c.failure = none → c.generator.nesting = base + levels c.tasks

/-- A task that enters a level brings another one that leaves it. -/
theorem Task.Does.nesting {l : Linkage} {task : Task} {ty ty' : Ty} {g g' : Generator}
    {new : List Task} (h : task.Does l ty g (.ok (new, ty') g')) {base : Nat}
    (hn : g.nesting = base + levels [task]) : g'.nesting = base + levels new := by
  cases h with
  | sign | parenthesis => exact congrArg (· + 1) (g.nesting_advance.trans hn)
  | literal | close => exact g.nesting_advance.trans hn
  | go r => cases r <;> exact g.nesting_advance.trans hn
  | combine | change =>
    rw [levels_append, levels_moves]
    exact hn
  | finish =>
    rw [levels_moves]
    exact hn
  | leave => exact congrArg (· - 1) hn
  | move moved => exact moved.nesting.trans hn
  | stop | yield => exact hn

theorem Config.Nested.step {l : Linkage} {base : Nat} {c c' : Config} (h : c.step l = some c')
    (hc : c.Nested base) : c'.Nested base := by
  obtain ⟨task, rest, ht, ⟨new, ty, g, hf, hdoes, rfl⟩ | ⟨d, g, -, -, rfl⟩ | ⟨d, -, rfl⟩⟩ :=
    step_cases h
  · intro _
    have hlevels : levels (task :: rest) = levels [task] + levels rest := levels_append [task] rest
    have hn : c.generator.nesting = base + levels rest + levels [task] := by
      rw [hc hf, ht, hlevels]
      omega
    rw [hdoes.nesting hn, levels_append]
    omega
  · intro hnone
    cases hnone
  · intro hnone
    cases hnone

/-- After a failure the tasks that are left are given up. -/
theorem Config.Reaches.unwind (l : Linkage) (tasks rest : List Task) (ty : Ty) (g : Generator)
    (d : Diagnostic) :
    Reaches l ⟨tasks ++ rest, ty, g, some d⟩ ⟨rest, ty, g.up (levels tasks), some d⟩ := by
  induction tasks generalizing g with
  | nil => exact .refl _
  | cons task tasks ih =>
    have hstep : Config.step l ⟨task :: tasks ++ rest, ty, g, some d⟩ =
        some ⟨tasks ++ rest, ty, task.unwind g, some d⟩ := rfl
    have hup : (task.unwind g).up (levels tasks) = g.up (levels (task :: tasks)) := by
      cases task with
      | leave => simp only [Task.unwind, Generator.up, levels, Nat.sub_sub, Nat.add_comm 1]
      | _ => rfl
    exact .head hstep (hup ▸ ih (task.unwind g))

end Descent

end OnePass
