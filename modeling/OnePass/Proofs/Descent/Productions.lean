import OnePass.Proofs.Descent.Machine

/-!
# Productions as tasks

Every production does what a list of tasks does, one after the other, so the machine ends with what
generation ends with: the induction is on the levels that are left and, for operators in a row, on
the tokens that are left.
-/

set_option autoImplicit false

namespace OnePass

open Generate

namespace Descent

open Config (Reaches)

/-- With these tasks before it the machine does what gives this result. -/
inductive Performs (l : Linkage) (tasks : List Task) (ty : Ty) (g : Generator) :
    EStateM.Result Diagnostic Generator Ty → Prop where
  | ok {t : Ty} {g' : Generator}
      (reaches : ∀ rest, Reaches l ⟨tasks ++ rest, ty, g, none⟩ ⟨rest, t, g', none⟩) :
      Performs l tasks ty g (.ok t g')
  | error {d : Diagnostic} {t : Ty} {g' : Generator}
      (reaches : ∀ rest, Reaches l ⟨tasks ++ rest, ty, g, none⟩ ⟨rest, t, g', some d⟩) :
      Performs l tasks ty g (.error d g')

namespace Performs

variable {l : Linkage} {ty : Ty} {g g' : Generator} {tasks : List Task}
  {r : EStateM.Result Diagnostic Generator Ty}

theorem nil (l : Linkage) (ty : Ty) (g : Generator) : Performs l [] ty g (.ok ty g) :=
  .ok fun rest => .refl ⟨rest, ty, g, none⟩

theorem head {task : Task} {new : List Task} {ty' : Ty} (hrun : task.run l ty g = .ok (new, ty') g')
    (h : Performs l (new ++ tasks) ty' g' r) : Performs l (task :: tasks) ty g r := by
  have hstep : ∀ rest, Config.step l ⟨task :: tasks ++ rest, ty, g, none⟩ =
      some ⟨new ++ tasks ++ rest, ty', g', none⟩ := by
    intro rest
    simp only [Config.step, List.cons_append, hrun, List.append_assoc]
  cases h with
  | ok reaches => exact .ok fun rest => .head (hstep rest) (reaches rest)
  | error reaches => exact .error fun rest => .head (hstep rest) (reaches rest)

theorem fails {task : Task} {d : Diagnostic} (hrun : task.run l ty g = .error d g')
    (htasks : levels tasks = 0) : Performs l (task :: tasks) ty g (.error d g') := by
  have hstep : ∀ rest, Config.step l ⟨task :: tasks ++ rest, ty, g, none⟩ =
      some ⟨tasks ++ rest, ty, g', some d⟩ := by
    intro rest
    simp only [Config.step, List.cons_append, hrun]
  have h : Performs l (task :: tasks) ty g (.error d (g'.up (levels tasks))) :=
    .error fun rest => .head (hstep rest) (.unwind l tasks rest ty g' d)
  rw [htasks] at h
  exact h

/-- Tasks behind those of a production are given up when it fails, so they must not be the ones that
leave a level. -/
theorem bind {p : Production} {f : Ty → Production} (h : Performs l tasks ty g (p g))
    (tasks' : List Task)
    (k : ∀ t g', p g = .ok t g' → Performs l tasks' t g' (f t g')) (htasks : levels tasks' = 0) :
    Performs l (tasks ++ tasks') ty g ((p >>= f) g) := by
  simp only [Bind.bind, EStateM.bind]
  generalize hp : p g = r at h k
  cases h with
  | @ok t g₁ reaches =>
    have hk := k t g₁ rfl
    dsimp only
    generalize f t g₁ = r' at hk ⊢
    cases hk with
    | ok reaches' =>
      refine .ok fun rest => ?_
      rw [List.append_assoc]
      exact (reaches _).trans (reaches' rest)
    | @error _ t' _ reaches' =>
      refine .error (t := t') fun rest => ?_
      rw [List.append_assoc]
      exact (reaches _).trans (reaches' rest)
  | @error d t g₁ reaches =>
    refine .error (t := t) fun rest => ?_
    have hunwind := Reaches.unwind l tasks' rest t g₁ d
    rw [htasks] at hunwind
    rw [List.append_assoc]
    exact (reaches _).trans hunwind

theorem leaving {p : Production} (h : Performs l tasks ty g (p g)) :
    Performs l (tasks ++ [.leave]) ty g (Generate.leaving p g) := by
  unfold Generate.leaving
  generalize p g = r at h
  cases h with
  | ok reaches =>
    refine .ok fun rest => ?_
    rw [List.append_assoc]
    exact (reaches _).trans (.head rfl (.refl _))
  | @error d t g₁ reaches =>
    -- The task that leaves the level is given up, which leaves the level too.
    refine .error (t := t) fun rest => ?_
    rw [List.append_assoc]
    exact (reaches _).trans (.head rfl (.refl _))

theorem moves {p : Production} (ms : List Move) (htasks : levels tasks = 0)
    (k : ∀ g', runAll l ms g = .ok () g' → Performs l tasks ty g' (p g')) :
    Performs l (ms.map .move ++ tasks) ty g ((do runAll l ms; p) g) := by
  induction ms generalizing g with
  | nil => exact k g rfl
  | cons m ms ih =>
    rw [runAll, bind_assoc]
    cases hm : m.run l g with
    | ok u g₁ =>
      rw [bind_of_ok hm]
      have hrun : (Task.move m).run l ty g = .ok ([], ty) g₁ := by rw [Task.run, bind_of_ok hm]; rfl
      refine head hrun (ih fun g' hg' => k g' ?_)
      rw [runAll, bind_of_ok hm, hg']
    | error d g₁ =>
      have hrun : (Task.move m).run l ty g = .error d g₁ := by
        rw [Task.run]
        simp only [Bind.bind, EStateM.bind, hm]
      have hlevels : levels (ms.map .move ++ tasks) = 0 := by
        rw [levels_append, levels_moves, htasks]
      simp only [Bind.bind, EStateM.bind, hm]
      exact fails hrun hlevels

theorem moves_yield (ms : List Move) (t : Ty) :
    Performs l (ms.map .move ++ [.yield t]) ty g ((do runAll l ms; return t : Production) g) := by
  refine moves ms rfl fun g' _ => ?_
  have hrun : (Task.yield t).run l ty g' = .ok ([], t) g' := rfl
  exact head hrun (nil l t g')

theorem rest_le {p : Production} {t : Ty} (h : Performs l tasks ty g (p g)) (hok : p g = .ok t g') :
    g'.rest.length ≤ g.rest.length := by
  rw [hok] at h
  cases h with
  | ok reaches => exact (reaches []).rest_le

/-- What enters no level for good ends on the level where it began. -/
theorem nesting_eq {p : Production} {t : Ty} (h : Performs l tasks ty g (p g))
    (htasks : levels tasks = 0) (hok : p g = .ok t g') : g'.nesting = g.nesting := by
  rw [hok] at h
  cases h with
  | ok reaches =>
    have hstart : Config.Nested g.nesting ⟨tasks ++ [], ty, g, none⟩ := by
      intro _
      rw [List.append_nil, htasks]
      rfl
    exact (reaches []).keeps (fun _ _ => Config.Nested.step) hstart rfl

end Performs

section Levels

variable {l : Linkage} {p : Production} {base : Nat}

def PerformsAt (l : Linkage) (base : Nat) (tasks : List Task) (p : Production) : Prop :=
  ∀ (g : Generator) (ty : Ty), g.nesting = base → Performs l tasks ty g (p g)

theorem performs_of_moves {task : Task} {ty t : Ty} {g : Generator} {ms : List Move}
    (hrun : task.run l ty g = .ok (ms.map .move ++ [.yield t], ty) g)
    (hp : p = (do runAll l ms; return t)) : Performs l [task] ty g (p g) := by
  rw [hp]
  refine .head hrun ?_
  rw [List.append_nil]
  exact .moves_yield ms t

theorem performs_of_error {task : Task} {ty : Ty} {g g' : Generator} {d : Diagnostic}
    (hrun : task.run l ty g = .error d g') (hp : p g = .error d g') :
    Performs l [task] ty g (p g) := by
  rw [hp]
  exact .fails hrun rfl

theorem binary_performs (l : Linkage) (op : Operator) (location : Location) (left right : Ty)
    (g : Generator) :
    Performs l [.operator op location left] right g (binary l op location left right g) := by
  cases hp : op.promote left right with
  | error fault =>
    apply performs_of_error (d := .ofTypes fault.reason location)
    · rw [Task.run, hp]
      rfl
    · rw [binary, hp]
      rfl
  | ok promoted =>
    refine performs_of_moves ?_ (binary_eq_moves hp)
    rw [Task.run, hp]
    rfl

theorem sign_performs (l : Linkage) (op : Operator) (location : Location) (operand : Ty)
    (g : Generator) :
    Performs l [.sign op location] operand g (sign l op location operand g) := by
  cases hu : op.unaryResult operand with
  | error fault =>
    apply performs_of_error (d := .ofTypes fault.reason location)
    · rw [Task.run, hu]
      rfl
    · rw [sign, hu]
      rfl
  | ok result =>
    refine performs_of_moves ?_ (sign_eq_moves hu)
    rw [Task.run, hu]
    rfl

theorem operator?_endOfInput (r : Rank) : r.operator? .endOfInput = none := by
  cases r <;> rfl

theorem rest_pos_of_operator {r : Rank} {g : Generator} {op : Operator}
    (h : r.operator? g.next.lexeme = some op) : 0 < g.rest.length := by
  apply List.length_pos_iff.2
  intro hnil
  rw [Generator.next, hnil, List.headD_nil, operator?_endOfInput] at h
  cases h

theorem level_stops {r : Rank} {g : Generator} (left : Ty) (h : r.operator? g.next.lexeme = none) :
    Performs l [.level r] left g (.ok left g) := by
  have hrun : (Task.level r).run l left g = .ok ([], left) g := by
    rw [Task.run, peek_bind, h]
    rfl
  exact .head hrun (.nil l left g)

theorem binaryRest_performs {r : Rank} (hp : PerformsAt l base r.operand p) {k : Nat}
    {g : Generator} (left : Ty) (hn : g.nesting = base) (hk : g.rest.length ≤ k) :
    Performs l [.level r] left g (binaryRest l r.operator? p k left g) := by
  induction k generalizing g left with
  | zero =>
    have hnil : g.rest = [] := List.length_eq_zero_iff.1 (Nat.le_zero.1 hk)
    have hstop : r.operator? g.next.lexeme = none := by
      rw [Generator.next, hnil, List.headD_nil, operator?_endOfInput]
    exact level_stops left hstop
  | succ k ih =>
    cases hop : r.operator? g.next.lexeme with
    | none =>
      rw [binaryRest_stops _ _ hop]
      exact level_stops left hop
    | some op =>
      have hrun : (Task.level r).run l left g =
          .ok (r.operand ++ [.operator op g.next.location left, .level r], left) g.advance := by
        rw [Task.run, peek_bind, hop]
        rfl
      have hpos := rest_pos_of_operator hop
      have hoperand := hp g.advance left (g.nesting_advance.trans hn)
      rw [binaryRest_goes k left hop]
      refine .head hrun ?_
      rw [List.append_nil]
      refine hoperand.bind _ (fun right g₁ hok => ?_) rfl
      have hbinary := binary_performs l op g.next.location left right g₁
      refine hbinary.bind [.level r] (fun result g₂ hok' => ?_) rfl
      have hlevels : levels r.operand = 0 := by cases r <;> rfl
      have hn₁ : g₁.nesting = base := by
        rw [hoperand.nesting_eq hlevels hok, g.nesting_advance, hn]
      -- The operator was a token, so `k` rounds are enough for the tokens that are left.
      have hrest := Nat.le_trans (hbinary.rest_le hok') (hoperand.rest_le hok)
      rw [g.rest_advance, List.length_tail] at hrest
      exact ih result ((hbinary.nesting_eq rfl hok').trans hn₁) (by omega)

theorem binaryLevel_performs {r : Rank} (hp : PerformsAt l base r.operand p) :
    PerformsAt l base (r.operand ++ [.level r]) (binaryLevel l r.operator? p) := by
  intro g ty hn
  have hoperand := hp g ty hn
  refine hoperand.bind _ (fun left g' hok => ?_) rfl
  have hlevels : levels r.operand = 0 := by cases r <;> rfl
  exact binaryRest_performs hp left ((hoperand.nesting_eq hlevels hok).trans hn) (Nat.le_refl _)

theorem expression_performs (hp : PerformsAt l base [.unary] p) :
    PerformsAt l base expression (Generate.expression l p) :=
  binaryLevel_performs (r := .sum) (binaryLevel_performs (r := .product) hp)

theorem parenthesised_performs (hp : PerformsAt l base [.unary] p) (opening : Location) :
    PerformsAt l base (expression ++ [.close opening]) (parenthesised l opening p) := by
  intro g ty hn
  refine (expression_performs hp g ty hn).bind _ (fun t g' _ => ?_) rfl
  rw [peek_bind]
  by_cases hc : g'.next.lexeme = .rightParen
  · have hrun : (Task.close opening).run l t g' = .ok ([], t) g'.advance := by
      rw [Task.run, peek_bind, if_pos hc]
      rfl
    rw [if_pos hc]
    exact .head hrun (.nil l t g'.advance)
  · rw [if_neg hc]
    refine .fails ?_ rfl
    rw [Task.run, peek_bind, if_neg hc]
    rfl

theorem signed_performs (hp : PerformsAt l base [.unary] p) (op : Operator) (location : Location) :
    PerformsAt l base [.unary, .sign op location] (do let ty ← p; sign l op location ty) := by
  intro g ty hn
  exact (hp g ty hn).bind [.sign op location] (fun t g' _ => sign_performs l op location t g') rfl

end Levels

theorem unaryWith_eq (l : Linkage) (inner : Option Production) (g : Generator) :
    unaryWith l inner g = (match opening l g.next with
      | .sign op => nested g.next.location inner fun operand => do
        let ty ← operand
        sign l op g.next.location ty
      | .parenthesis => nested g.next.location inner (parenthesised l g.next.location)
      | .literal load ty => literal l load ty
      | .fault d => throw d : Production) g.advance := by
  rw [unaryWith, peek_bind, opening]
  cases hl : g.next.lexeme with
  | plus | minus => rfl
  | _ =>
    dsimp only [additiveOperator?]
    rw [primary, peek_bind, hl]
    rfl

/-- Goes down a level if there is one, does there what `body` does and comes back. -/
theorem nested_performs {l : Linkage} {n : Nat} {ty : Ty} {g₀ g : Generator} (tasks : List Task)
    {body : Production → Production} (location : Location) (hn : g.nesting + n = maxNesting)
    (hrun : Task.unary.run l ty g₀ = (do
      enter location
      return (tasks ++ [.leave], ty) : Generate Diagnostic (List Task × Ty)) g)
    (hbody : ∀ m, n = m + 1 → Performs l tasks ty g.down (body (unary l m) g.down)) :
    Performs l [.unary] ty g₀ (nested location (unaryBelow l n) body g) := by
  cases n with
  | zero =>
    have hfull : ¬g.nesting < maxNesting := by omega
    exact .fails (hrun.trans (enter_too_deep _ _ hfull)) rfl
  | succ m =>
    have hroom : g.nesting < maxNesting := by omega
    refine .head (hrun.trans (enter_of_room _ _ hroom)) ?_
    rw [List.append_nil]
    exact (hbody m rfl).leaving

theorem literal_performs (l : Linkage) (load : Action) (t ty : Ty) (g : Generator) :
    Performs l [.move (.act load), .move (.push t), .yield t] ty g (literal l load t g) :=
  .moves_yield [.act load, .push t] t

theorem unary_performs_of_below {l : Linkage} {n base : Nat} (hn : base + n = maxNesting)
    (hbelow : ∀ m, n = m + 1 → PerformsAt l (base + 1) [.unary] (unary l m)) :
    PerformsAt l base [.unary] (unary l n) := by
  intro g ty hg
  have hadv : g.advance.nesting = base := g.nesting_advance.trans hg
  have hdown : g.advance.down.nesting = base + 1 := congrArg (· + 1) hadv
  have hrun := Task.run_unary l ty g
  rw [unary_eq, unaryWith_eq]
  generalize opening l g.next = o at hrun ⊢
  cases o with
  | sign op =>
    refine nested_performs [.unary, .sign op g.next.location] _ (hadv ▸ hn) hrun ?_
    intro m hm
    exact signed_performs (hbelow m hm) op g.next.location _ ty hdown
  | parenthesis =>
    refine nested_performs (expression ++ [.close g.next.location]) _ (hadv ▸ hn) hrun ?_
    intro m hm
    exact parenthesised_performs (hbelow m hm) g.next.location _ ty hdown
  | literal load t => exact .head hrun (literal_performs l load t ty g.advance)
  | fault d => exact .fails hrun rfl

theorem unary_performs (l : Linkage) {n base : Nat} (hn : base + n = maxNesting) :
    PerformsAt l base [.unary] (unary l n) := by
  induction n generalizing base with
  | zero =>
    apply unary_performs_of_below hn
    intro m hm
    cases hm
  | succ n ih =>
    apply unary_performs_of_below hn
    intro m hm
    cases hm
    apply ih
    omega

theorem finish_performs (l : Linkage) (ty : Ty) (g : Generator) :
    Performs l [.finish] ty g (finish l ty g) := by
  have hrun : Task.finish.run l ty g = .ok ((finishMoves l ty).map .move, ty) g := rfl
  rw [finish_eq_moves]
  refine .head hrun ?_
  exact .moves (finishMoves l ty) rfl fun g' _ => .nil l ty g'

theorem function_performs (l : Linkage) (tokens : List Token) :
    Performs l (Config.start tokens).tasks .null (.start tokens)
      (function l (.start tokens)) := by
  have hrun : (Task.move (.act (.operation .prologue))).run l .null (.start tokens) =
      .ok ([], .null) ((Generator.start tokens).act (.operation .prologue)) := rfl
  rw [function_eq]
  refine .head hrun ?_
  have hexpression := expression_performs (unary_performs l (Nat.zero_add maxNesting))
    ((Generator.start tokens).act (.operation .prologue)) .null rfl
  exact hexpression.bind _ (fun t g' _ => finish_performs l t g') rfl

/-- The machine ends, and with what generation ends with. -/
theorem Config.ends (l : Linkage) (tokens : List Token) :
    ∃ c, Reaches l (start tokens) c ∧ c.step l = none ∧
      c.result = function l (.start tokens) := by
  have h := function_performs l tokens
  generalize function l (.start tokens) = r at h ⊢
  cases h with
  | @ok t g reaches =>
    refine ⟨⟨[], t, g, none⟩, ?_, rfl, rfl⟩
    have hreaches := reaches []
    rwa [List.append_nil] at hreaches
  | @error d t g reaches =>
    refine ⟨⟨[], t, g, some d⟩, ?_, rfl, rfl⟩
    have hreaches := reaches []
    rwa [List.append_nil] at hreaches

end Descent

end OnePass
