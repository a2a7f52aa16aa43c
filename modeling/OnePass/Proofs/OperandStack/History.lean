import Mathlib.Order.Bounds.Basic
import OnePass.OperandStack

/-!
# What an operand stack remembers

Calls of a stack are told apart from what they move: a pop of an empty stack moves nothing. All
movements together are a list without bounds. The ring holds the latest of them at any time, and the
slots are those pushes of the list that no pop has matched.
-/

set_option autoImplicit false

namespace OnePass.OperandStack

inductive Call where
  | push (ty : Ty) (register : Text)
  | pop (register : Text)
  deriving DecidableEq

inductive Answer where
  | pushed
  | popped (ty : Ty)
  | refused (fault : Imbalance)
  deriving DecidableEq

def perform (s : OperandStack) : Call → Answer × OperandStack
  | .push ty register => (.pushed, s.push ty register)
  | .pop register =>
    match s.pop register with
    | .ok (ty, t) => (.popped ty, t)
    | .error fault => (.refused fault, s)

def performAll (s : OperandStack) : List Call → OperandStack
  | [] => s
  | c :: cs => (s.perform c).2.performAll cs

structure Step where
  call : Call
  answer : Answer
  depth : Nat
  deriving DecidableEq

def steps (s : OperandStack) : List Call → List Step
  | [] => []
  | c :: cs => ⟨c, (s.perform c).1, (s.perform c).2.depth⟩ :: (s.perform c).2.steps cs

def Step.movement? : Step → Option Movement
  | ⟨.push ty register, .pushed, depth⟩ => some ⟨.push, ty, register, depth⟩
  | ⟨.pop register, .popped ty, depth⟩ => some ⟨.pop, ty, register, depth⟩
  | _ => none

def log (s : OperandStack) (calls : List Call) : List Movement :=
  (s.steps calls).filterMap Step.movement?

def Call.isPush : Call → Bool
  | .push .. => true
  | .pop _ => false

def Step.isPopped (step : Step) : Bool :=
  match step.answer with
  | .popped _ => true
  | _ => false

inductive Does (s : OperandStack) : Call → Answer → OperandStack → Prop where
  | push (ty : Ty) (register : Text) :
      Does s (.push ty register) .pushed (s.push ty register)
  | pop {ty : Ty} {slots : List Ty} (h : s.slots = ty :: slots) (register : Text) :
      Does s (.pop register) (.popped ty)
        (record { s with slots } ⟨.pop, ty, register, slots.length⟩)
  | refuse (h : s.slots = []) (register : Text) :
      Does s (.pop register) (.refused (.empty register (s.recent 10))) s

theorem does (s : OperandStack) (c : Call) : Does s c (s.perform c).1 (s.perform c).2 := by
  cases c with
  | push ty register => exact .push ty register
  | pop register =>
    rw [perform, pop]
    cases h : s.slots with
    | nil => exact .refuse h register
    | cons ty slots => exact .pop h register

theorem performAll_append (s : OperandStack) (cs ds : List Call) :
    s.performAll (cs ++ ds) = (s.performAll cs).performAll ds := by
  induction cs generalizing s with
  | nil => rfl
  | cons c cs ih => exact ih _

section Depth

variable {s t : OperandStack} {c : Call} {a : Answer}

/-- A push makes the stack deeper by one, and a pop that is not refused less deep by one. -/
theorem Does.depth (h : Does s c a t) :
    t.depth + (if Step.isPopped ⟨c, a, t.depth⟩ then 1 else 0) =
      s.depth + (if c.isPush then 1 else 0) := by
  cases h with
  | push ty register => rfl
  | pop h register => exact (congrArg List.length h).symm
  | refuse h register => rfl

theorem depth_performAll (s : OperandStack) (calls : List Call) :
    (s.performAll calls).depth + (s.steps calls).countP Step.isPopped =
      s.depth + calls.countP Call.isPush := by
  induction calls generalizing s with
  | nil => rfl
  | cons c cs ih =>
    have hstep := (s.does c).depth
    have hrest := ih (s.perform c).2
    rw [performAll, steps, List.countP_cons, List.countP_cons]
    omega

theorem Does.maxDepth (h : Does s c a t) (hs : s.depth ≤ s.maxDepth) :
    t.maxDepth = max s.maxDepth t.depth := by
  cases h with
  | push ty register => rfl
  | pop h register =>
    rw [OperandStack.depth, h] at hs
    exact (Nat.max_eq_left (Nat.le_of_succ_le hs)).symm
  | refuse h register => exact (Nat.max_eq_left hs).symm

theorem depth_le_maxDepth_performAll (calls : List Call) (hs : s.depth ≤ s.maxDepth) :
    (s.performAll calls).depth ≤ (s.performAll calls).maxDepth ∧
      s.maxDepth ≤ (s.performAll calls).maxDepth := by
  induction calls generalizing s with
  | nil => exact ⟨hs, Nat.le_refl _⟩
  | cons c cs ih =>
    have hstep := (s.does c).maxDepth hs
    have hle : (s.perform c).2.depth ≤ (s.perform c).2.maxDepth := hstep ▸ Nat.le_max_right _ _
    obtain ⟨hdepth, hgrows⟩ := ih hle
    exact ⟨hdepth, Nat.le_trans (hstep ▸ Nat.le_max_left _ _) hgrows⟩

/-- The greatest depth is the one from before the calls, or it is reached after some of them. -/
theorem maxDepth_reached (calls : List Call) (hs : s.depth ≤ s.maxDepth) :
    (s.performAll calls).maxDepth = s.maxDepth ∨
      ∃ k, (s.performAll (calls.take k)).depth = (s.performAll calls).maxDepth := by
  induction calls generalizing s with
  | nil => exact .inl rfl
  | cons c cs ih =>
    have hstep := (s.does c).maxDepth hs
    have hle : (s.perform c).2.depth ≤ (s.perform c).2.maxDepth := hstep ▸ Nat.le_max_right _ _
    rcases ih hle with hsame | ⟨k, hk⟩
    · rcases Nat.le_total (s.perform c).2.depth s.maxDepth with hlow | hhigh
      · rw [Nat.max_eq_left hlow] at hstep
        exact .inl (hsame.trans hstep)
      · rw [Nat.max_eq_right hhigh] at hstep
        exact .inr ⟨1, (hsame.trans hstep).symm⟩
    · exact .inr ⟨k + 1, hk⟩

theorem maxDepth_isGreatest (calls : List Call) :
    IsGreatest {d | ∃ k, (performAll {} (calls.take k)).depth = d}
      (performAll {} calls).maxDepth := by
  have hempty : ({} : OperandStack).depth ≤ ({} : OperandStack).maxDepth := Nat.le_refl 0
  constructor
  · rcases maxDepth_reached calls hempty with h | h
    · exact ⟨0, h.symm⟩
    · exact h
  · rintro d ⟨k, rfl⟩
    obtain ⟨hdepth, -⟩ := depth_le_maxDepth_performAll (calls.take k) hempty
    have hrest := depth_le_maxDepth_performAll (calls.drop k) hdepth
    rw [← performAll_append, List.take_append_drop] at hrest
    exact Nat.le_trans hdepth hrest.2

end Depth

section Ring

variable {s : OperandStack} {moved : List Movement}

theorem get_record (s : OperandStack) (m : Movement) (i : Fin historySize) :
    (s.record m).history.get i = if place s.movements = i then m else s.history.get i := by
  change (s.history.set (place s.movements) m (place s.movements).isLt)[i.val] = _
  rw [Vector.getElem_set]
  simp only [Fin.ext_iff]
  rfl

/-- A movement is written to another place than those less than a round before it. -/
theorem place_ne {i n : Nat} (h : i < n) (hround : n < i + historySize) : place n ≠ place i := by
  have h20 : historySize = 20 := rfl
  rw [Ne, Fin.ext_iff]
  simp only [place, h20] at *
  omega

structure Remembers (moved : List Movement) (s : OperandStack) : Prop where
  movements : s.movements = moved.length
  latest : ∀ i m, moved[i]? = some m → moved.length ≤ i + historySize →
    s.history.get (place i) = m

/-- What is remembered does not depend on the slots and the greatest depth. -/
theorem Remembers.same (h : Remembers moved s) (maxDepth : Nat) (slots : List Ty) :
    Remembers moved { s with slots, maxDepth } :=
  ⟨h.movements, h.latest⟩

theorem Remembers.record (h : Remembers moved s) (m : Movement) :
    Remembers (moved ++ [m]) (s.record m) where
  movements := by
    rw [List.length_append, ← h.movements]
    rfl
  latest := by
    intro i m' hm' hround
    rw [List.length_append, List.length_singleton] at hround
    rw [get_record, h.movements]
    by_cases hi : i < moved.length
    · rw [List.getElem?_append_left hi] at hm'
      rw [if_neg (place_ne hi (by omega))]
      exact h.latest i m' hm' (by omega)
    · obtain ⟨hlt, hm⟩ := List.getElem?_eq_some_iff.1 hm'
      obtain rfl : i = moved.length := by
        rw [List.length_append, List.length_singleton] at hlt
        omega
      rw [if_pos rfl]
      simpa using hm

/-- Reading the ring gives the latest movements in their order. -/
theorem Remembers.recent (h : Remembers moved s) (n : Nat) :
    s.recent n = moved.drop (moved.length - min n (min 20 moved.length)) := by
  have hshown : min n (min s.movements historySize) = min n (min 20 moved.length) := by
    rw [h.movements, Nat.min_comm moved.length]
    rfl
  rw [OperandStack.recent, hshown, h.movements]
  generalize hk : min n (min 20 moved.length) = k
  have hround : moved.length ≤ moved.length - k + historySize := by
    have h20 : historySize = 20 := rfl
    omega
  apply List.ext_getElem
  · rw [List.length_map, List.length_range, List.length_drop]
    omega
  · intro i hi hi'
    rw [List.getElem_map, List.getElem_range, List.getElem_drop]
    exact h.latest _ _ (List.getElem?_eq_getElem _) (by omega)

end Ring

section Order

variable {s : OperandStack} {moved : List Movement} {slots : List Ty} {ty : Ty} {m : Movement}

/-- The push that brought the stack one above `depth`, and that no later movement took back, was of
a value of type `ty`. -/
def Holds (moved : List Movement) (depth : Nat) (ty : Ty) : Prop :=
  ∃ (first : List Movement) (p : Movement) (later : List Movement), moved = first ++ p :: later ∧
    p.direction = .push ∧ p.ty = ty ∧ p.depth = depth + 1 ∧ ∀ q ∈ later, depth + 1 ≤ q.depth

/-- Every pop takes off what the latest push that is still open has put on. -/
def LastInFirstOut (moved : List Movement) : Prop :=
  ∀ (before : List Movement) (m : Movement) (rest : List Movement), moved = before ++ m :: rest →
    m.direction = .pop → Holds before m.depth m.ty

def Holding (moved : List Movement) : List Ty → Prop
  | [] => True
  | ty :: slots => Holds moved slots.length ty ∧ Holding moved slots

theorem Holds.concat {depth : Nat} (h : Holds moved depth ty) (hm : depth + 1 ≤ m.depth) :
    Holds (moved ++ [m]) depth ty := by
  obtain ⟨first, p, later, rfl, hpush, hty, hdepth, hlater⟩ := h
  refine ⟨first, p, later ++ [m], by simp, hpush, hty, hdepth, ?_⟩
  intro q hq
  rcases List.mem_append.1 hq with hq | hq
  · exact hlater q hq
  · rw [List.mem_singleton.1 hq]
    exact hm

/-- Slots stay held as long as the stack does not get less deep than they are. -/
theorem Holding.concat (h : Holding moved slots) (hm : slots.length ≤ m.depth) :
    Holding (moved ++ [m]) slots := by
  induction slots with
  | nil => trivial
  | cons ty slots ih =>
    rw [List.length_cons] at hm
    exact ⟨h.1.concat hm, ih h.2 (Nat.le_of_succ_le hm)⟩

theorem LastInFirstOut.concat (h : LastInFirstOut moved)
    (hm : m.direction = .pop → Holds moved m.depth m.ty) : LastInFirstOut (moved ++ [m]) := by
  intro before m' rest hsplit hpop
  rcases List.eq_nil_or_concat rest with rfl | ⟨rest, last, rfl⟩
  · obtain ⟨rfl, hlast⟩ := List.append_inj' hsplit rfl
    obtain rfl : m = m' := by simpa using hlast
    exact hm hpop
  · have hsplit' : moved ++ [m] = (before ++ m' :: rest) ++ [last] := by simpa using hsplit
    exact h before m' rest (List.append_inj' hsplit' rfl).1 hpop

end Order

structure Faithful (moved : List Movement) (s : OperandStack) : Prop where
  remembers : Remembers moved s
  holding : Holding moved s.slots
  order : LastInFirstOut moved

theorem Faithful.does {moved : List Movement} {s t : OperandStack} {c : Call} {a : Answer}
    (h : Faithful moved s) (hdoes : Does s c a t) :
    Faithful (moved ++ (Step.movement? ⟨c, a, t.depth⟩).toList) t := by
  cases hdoes with
  | push ty register =>
    exact {
      remembers := (h.remembers.same _ (ty :: s.slots)).record _
      holding := ⟨⟨moved, _, [], rfl, rfl, rfl, rfl, by simp⟩, h.holding.concat (Nat.le_succ _)⟩
      order := h.order.concat (by simp) }
  | pop hslots register =>
    have hholding := h.holding
    rw [hslots] at hholding
    exact {
      remembers := (h.remembers.same s.maxDepth _).record _
      holding := hholding.2.concat (Nat.le_refl _)
      order := h.order.concat fun _ => hholding.1 }
  | refuse hslots register => simpa [Step.movement?] using h

theorem log_cons (s : OperandStack) (c : Call) (cs : List Call) :
    s.log (c :: cs) =
      (Step.movement? ⟨c, (s.perform c).1, (s.perform c).2.depth⟩).toList ++
        (s.perform c).2.log cs := by
  rw [log, steps, List.filterMap_cons]
  cases Step.movement? ⟨c, (s.perform c).1, (s.perform c).2.depth⟩ <;> rfl

theorem Faithful.performAll {moved : List Movement} {s : OperandStack} (h : Faithful moved s)
    (calls : List Call) : Faithful (moved ++ s.log calls) (s.performAll calls) := by
  induction calls generalizing moved s with
  | nil => simpa [log, steps, OperandStack.performAll] using h
  | cons c cs ih =>
    have hstep := ih (h.does (s.does c))
    rw [List.append_assoc, ← log_cons] at hstep
    exact hstep

theorem faithful_empty : Faithful [] {} where
  remembers := ⟨rfl, by simp⟩
  holding := trivial
  order := by simp [LastInFirstOut]

theorem faithful_performAll (calls : List Call) :
    Faithful (log {} calls) (OperandStack.performAll {} calls) :=
  faithful_empty.performAll calls

theorem perform_pop_empty {s : OperandStack} (h : s.depth = 0) (register : Text) :
    s.perform (.pop register) = (.refused (.empty register (s.recent 10)), s) := by
  rw [perform, pop, List.length_eq_zero_iff.1 h]

theorem perform_pop_of_pos {s : OperandStack} (h : 0 < s.depth) (register : Text) :
    ∃ ty t, s.perform (.pop register) = (.popped ty, t) := by
  obtain ⟨ty, slots, hslots⟩ := List.exists_cons_of_length_pos h
  rw [perform, pop, hslots]
  exact ⟨_, _, rfl⟩

/-- Whatever calls an empty stack has had, it is as deep as there were pushes less the pops that
were not refused, each of these pops took off what the latest open push had put on, and the greatest
depth is the greatest there was. Just an empty stack refuses a pop, which changes nothing. The
latest movements, twenty at most, are told as they were made. -/
theorem calls_faithfully_remembered (calls : List Call) :
    (performAll {} calls).depth + (steps {} calls).countP Step.isPopped = calls.countP Call.isPush ∧
      LastInFirstOut (log {} calls) ∧
      IsGreatest {d | ∃ k, (performAll {} (calls.take k)).depth = d}
        (performAll {} calls).maxDepth ∧
      (∀ register, (performAll {} calls).depth = 0 → (performAll {} calls).perform (.pop register) =
        (.refused (.empty register ((performAll {} calls).recent 10)), performAll {} calls)) ∧
      (∀ register, 0 < (performAll {} calls).depth →
        ∃ ty t, (performAll {} calls).perform (.pop register) = (.popped ty, t)) ∧
      ∀ n, (performAll {} calls).recent n =
        (log {} calls).drop ((log {} calls).length - min n (min 20 (log {} calls).length)) := by
  have hdepth := depth_performAll {} calls
  have hfaithful := faithful_performAll calls
  refine ⟨hdepth.trans (Nat.zero_add _), hfaithful.order, maxDepth_isGreatest calls, ?_, ?_, ?_⟩
  · intro register hempty
    exact perform_pop_empty hempty register
  · intro register hpos
    exact perform_pop_of_pos hpos register
  · intro n
    exact hfaithful.remembers.recent n

end OnePass.OperandStack
