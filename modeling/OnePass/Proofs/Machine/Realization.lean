import OnePass.Proofs.Machine.Processor

/-!
# Operations realized by code

A processor that carries out operations, whatever its instructions are: the code of each operation
runs from where it stands to its end and does what the operation promises. Operations one after the
other are then carried out one after the other, and at the start of each of them the stack is as
high as the operations before it leave it. A whole function has a prologue before its operations and
an epilogue behind them.
-/

set_option autoImplicit false

namespace OnePass.Native

variable {σ ι κ : Type} {P : Processor σ ι κ} {A : Activation P}

structure Realization (A : Activation P) where
  stands : σ → List UInt64 → Prop
  span : List Operation → Nat
  span_append : ∀ as bs, span (as ++ bs) = span as + span bs
  span_prologue : 0 < span [.prologue]
  code : Nat → List Operation → Prop
  code_append : ∀ {p : Nat} (as bs : List Operation), code p (as ++ bs) →
    code p as ∧ code (p + span as) bs
  solid : ∀ {o : Operation}, Used ⟨P.target.roles, A.symbols⟩ o → span [o] = 0 →
    ∀ d, shift d o = d
  performs : ∀ {o : Operation} (_ : Used ⟨P.target.roles, A.symbols⟩ o) (s : σ)
    (slots : List UInt64), code (P.position s) [o] → stands s slots →
    A.context.Enabled o (P.view s slots) →
    A.Leads (A.Visits (P.position s) (P.position s + span [o]) slots.length)
      (fun s' => P.position s' = P.position s + span [o] ∧
        ∃ slots', stands s' slots' ∧ A.context.Effect o (P.view s slots) (P.view s' slots')) s

namespace Realization

variable (R : Realization A)

/-- A state in the code of operations that starts at `start` with `depth` slots in use: it is in the
code of one of them, and at the start of that the slots are those that the operations before it
leave. -/
def Along (start depth : Nat) (os : List Operation) (s : σ) : Prop :=
  ∃ done o todo, os = done ++ o :: todo ∧
    A.Visits (start + R.span done) (start + R.span (done ++ [o])) (height depth done) s

variable {R}

theorem span_cons (o : Operation) (os : List Operation) :
    R.span (o :: os) = R.span [o] + R.span os := R.span_append [o] os

theorem span_nil : R.span [] = 0 := by
  have h := R.span_append [] []
  rw [List.append_nil] at h
  omega

theorem Along.cons {start depth : Nat} {o : Operation} {os : List Operation} {s : σ}
    (h : R.Along (start + R.span [o]) (shift depth o) os s) : R.Along start depth (o :: os) s := by
  obtain ⟨done, o', todo, rfl, hv⟩ := h
  refine ⟨o :: done, o', todo, rfl, ?_⟩
  rw [List.cons_append, span_cons o done, span_cons o (done ++ [o']), ← Nat.add_assoc,
    ← Nat.add_assoc]
  exact hv

/-- Operations that can be performed one after the other are, by their code. -/
theorem leads_of_wp {os : List Operation} {post : View → Prop} {s : σ} {slots : List UInt64}
    (hu : ∀ o ∈ os, Used ⟨P.target.roles, A.symbols⟩ o) (hc : R.code (P.position s) os)
    (hs : R.stands s slots)
    (hw : A.context.wp os post (P.view s slots)) :
    A.Leads (R.Along (P.position s) slots.length os)
      (fun s' => P.position s' = P.position s + R.span os ∧
        ∃ slots', R.stands s' slots' ∧ post (P.view s' slots')) s := by
  induction os generalizing s slots with
  | nil => exact .done ⟨by rw [span_nil, Nat.add_zero], slots, hs, hw⟩
  | cons o os ih =>
    obtain ⟨he, hrest⟩ := hw
    obtain ⟨hc₁, hc₂⟩ := R.code_append [o] os hc
    refine OnePass.Leads.bind ((R.performs (hu o (by simp)) s slots hc₁ hs he).mono
      (fun _ h => h) (fun s' hv => ?_) fun _ h => h) fun s' hs' => ?_
    · refine ⟨[], o, os, rfl, ?_⟩
      rw [span_nil, Nat.add_zero]
      exact hv
    · obtain ⟨hpos, slots', hs', heff⟩ := hs'
      have hlen := Context.length_slots he heff
      rw [P.view_eq s, P.view_eq s'] at hlen
      have hk := ih (fun o ho => hu o (by simp [ho])) (by rw [hpos]; exact hc₂) hs' (hrest _ heff)
      refine hk.mono (fun _ h => h) (fun s'' hv => ?_) fun s'' h => ?_
      · rw [hpos, hlen] at hv
        exact hv.cons
      · rw [span_cons, ← Nat.add_assoc, ← hpos]
        exact h

def Place (R : Realization A) (all : List Operation) (s : σ) : Prop :=
  ∃ done o todo, all = done ++ o :: todo ∧ R.span done ≤ P.position s ∧
    P.position s < R.span (done ++ [o]) ∧
    (done ≠ [] → P.position s = R.span done → A.Level (height 0 done) s)

structure Inside (R : Realization A) (all : List Operation) (s : σ) : Prop where
  safe : ∀ i, P.fetch A.code s = some i → A.Safe s i
  place : R.Place all s

def Solid (R : Realization A) (os : List Operation) : Prop :=
  ∀ o ∈ os, R.span [o] = 0 → ∀ d, shift d o = d

theorem solid_function {os : List Operation} (hu : ∀ o ∈ os, Used ⟨P.target.roles, A.symbols⟩ o) :
    R.Solid (.prologue :: (os ++ [Operation.epilogue])) := by
  refine List.forall_mem_cons.2 ⟨fun _ _ => rfl, List.forall_mem_append.2 ⟨fun o ho => ?_,
    List.forall_mem_cons.2 ⟨fun _ _ => rfl, List.forall_mem_nil _⟩⟩⟩
  exact R.solid (hu o ho)

theorem height_of_span_eq_zero {os : List Operation} (hs : R.Solid os) (h : R.span os = 0)
    (d : Nat) : height d os = d := by
  induction os generalizing d with
  | nil => rfl
  | cons o os ih =>
    rw [span_cons] at h
    have ho : shift d o = d := hs o List.mem_cons_self (by omega) d
    have hrest := ih (fun o' ho' => hs o' (List.mem_cons_of_mem o ho')) (by omega) (shift d o)
    exact hrest.trans ho

theorem Inside.position_lt {all : List Operation} {s : σ} (h : R.Inside all s) :
    P.position s < R.span all := by
  obtain ⟨done, o, todo, rfl, -, hhigh, -⟩ := h.place
  have hspan : R.span (done ++ o :: todo) = R.span (done ++ [o]) + R.span todo := by
    rw [← R.span_append, List.append_assoc]
    rfl
  omega

/-- At the end of the code of some operations of a function, the slots in use are those that these
operations leave. -/
theorem Inside.level_of_position {all pre post : List Operation} {s : σ} (h : R.Inside all s)
    (hs : R.Solid all) (he : all = pre ++ post) (hpre : 0 < R.span pre)
    (hp : P.position s = R.span pre) : A.Level (height 0 pre) s := by
  obtain ⟨done, o, todo, hsplit, hlow, hhigh, hlevel⟩ := h.place
  rcases List.append_eq_append_iff.1 (he.symm.trans hsplit) with ⟨silent, hd, -⟩ | ⟨more, hd, ht⟩
  · -- The operations between are done, but have no code.
    have hspan : R.span done = R.span pre + R.span silent := by rw [hd, R.span_append]
    have hsilent : R.Solid silent := fun o' ho' => hs o' (by
      rw [hsplit, hd]
      simp [ho'])
    have hheight : height 0 done = height 0 pre := by
      rw [hd, height, List.foldl_append]
      exact height_of_span_eq_zero hsilent (by omega) _
    have hne : done ≠ [] := by
      rintro rfl
      rw [span_nil] at hspan
      omega
    rw [← hheight]
    exact hlevel hne (by omega)
  · cases more with
    | nil =>
      rw [List.append_nil] at hd
      subst hd
      refine hlevel ?_ hp
      rintro rfl
      rw [span_nil] at hpre
      exact absurd hpre (Nat.lt_irrefl 0)
    | cons o' more =>
      -- `pre` reaches behind the code of `o`, in which the state still is.
      obtain ⟨rfl, -⟩ := List.cons.inj ht
      have hspan : R.span pre = R.span (done ++ [o]) + R.span more := by
        rw [hd, ← R.span_append, List.append_assoc]
        rfl
      omega

theorem Inside.of_along {os rest : List Operation} {s : σ}
    (h : R.Along (R.span [.prologue]) 0 os s) : R.Inside (.prologue :: (os ++ rest)) s := by
  obtain ⟨done, o, todo, rfl, hv⟩ := h
  refine ⟨hv.safe, .prologue :: done, o, todo ++ rest, by simp, ?_, ?_, fun _ hp => ?_⟩
  · rw [span_cons]
    exact hv.low
  · rw [List.cons_append, span_cons]
    exact hv.high
  · rw [span_cons] at hp
    exact hv.begins hp

/-- A function between its prologue and its epilogue: when its operations can be performed and leave
no slot in use, its code gets to the epilogue with what they promise. -/
theorem leads_body {os : List Operation} {post : View → Prop} {done : σ → Prop} {s : σ}
    (hu : ∀ o ∈ os, Used ⟨P.target.roles, A.symbols⟩ o)
    (hc : R.code 0 (.prologue :: (os ++ [Operation.epilogue])))
    (hpos : P.position s = R.span [Operation.prologue]) (hs : R.stands s [])
    (hw : A.context.wp os (fun v => v.slots = [] ∧ post v) (P.view s []))
    (k : ∀ s, P.position s = R.span (.prologue :: os) →
      R.code (P.position s) [Operation.epilogue] → R.stands s [] → post (P.view s []) →
      A.Leads (R.Inside (.prologue :: (os ++ [Operation.epilogue]))) done s) :
    A.Leads (R.Inside (.prologue :: (os ++ [Operation.epilogue]))) done s := by
  obtain ⟨-, hc'⟩ := R.code_append [Operation.prologue] (os ++ [Operation.epilogue]) hc
  obtain ⟨hbody, hend⟩ := R.code_append os [.epilogue] hc'
  rw [Nat.zero_add] at hbody hend
  have hrun := leads_of_wp hu (hpos ▸ hbody) hs hw
  refine OnePass.Leads.bind (hrun.mono (fun _ h => h) (fun s' hs' => ?_) fun _ h => h) ?_
  · rw [hpos] at hs'
    exact Inside.of_along hs'
  · rintro s' ⟨hp', slots', hs', hnil, hpost⟩
    rw [P.view_eq] at hnil
    subst hnil
    have hp'' : P.position s' = R.span (.prologue :: os) := by rw [hp', hpos, ← span_cons]
    exact k s' hp'' (by rw [hp', hpos]; exact hend) hs' hpost

structure Leaving (R : Realization A) (all : List Operation) (post : View → Prop) (s : σ) :
    Prop where
  inside : R.Inside all s
  restored : P.restored A.entry s
  returns : ∃ s', P.step A.world A.base A.code s = .returned s' ∧ post (P.view s' [])

theorem Leaving.successor_eq_none {all : List Operation} {post : View → Prop} (s : σ)
    (h : R.Leaving all post s) : successor (P.step A.world A.base A.code) s = none := by
  obtain ⟨s', hret, -⟩ := h.returns
  exact successor_of_returned hret

end Realization

structure Procedure (A : Activation P) extends Realization A where
  prologue : ∀ {todo : List Operation} {done : σ → Prop}, code 0 [.prologue] →
    (∀ s, P.position s = span [.prologue] → stands s [] →
      A.context.Quiet (P.view A.entry []) (P.view s []) →
      A.Leads (toRealization.Inside (.prologue :: todo)) done s) →
    A.Leads (toRealization.Inside (.prologue :: todo)) done A.entry
  epilogue : ∀ (before : List Operation) {s : σ} {post : View → Prop}, height 0 before = 0 →
    P.position s = span before → code (P.position s) [.epilogue] → stands s [] →
    post (P.view s []) → A.Leads (toRealization.Inside (before ++ [Operation.epilogue]))
      (toRealization.Leaving (before ++ [Operation.epilogue]) post) s

/-- A whole function: when its operations can be performed and leave no slot in use, its code runs
to the return, and what they promise holds there. -/
theorem Procedure.leads (F : Procedure A) {os : List Operation} (post : View → Prop)
    (hu : ∀ o ∈ os, Used ⟨P.target.roles, A.symbols⟩ o)
    (hc : F.code 0 (.prologue :: (os ++ [Operation.epilogue]))) (hheight : height 0 os = 0)
    (hw : ∀ v, v.slots = [] → A.context.Quiet (P.view A.entry []) v →
      A.context.wp os (fun v => v.slots = [] ∧ post v) v) :
    A.Leads (F.Inside (.prologue :: (os ++ [Operation.epilogue])))
      (F.Leaving (.prologue :: (os ++ [Operation.epilogue])) post) A.entry := by
  refine F.prologue (F.code_append [.prologue] _ hc).1 fun s hp hs hq => ?_
  have hnil : (P.view s []).slots = [] := by rw [P.view_eq]
  exact Realization.leads_body hu hc hp hs (hw (P.view s []) hnil hq)
    fun s' hp' hc' hs' hpost => F.epilogue (.prologue :: os) hheight hp' hc' hs' hpost

end OnePass.Native
