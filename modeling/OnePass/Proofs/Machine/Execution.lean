import OnePass.Machine

/-!
# Runs of a machine

A deterministic machine seen one instruction at a time. A statement about a run says what holds
whenever an instruction is about to be executed and where the run gets; such statements are joined
end to end. A run may also get lost, in a routine that does not return.
-/

set_option autoImplicit false

namespace OnePass

/-- From a state on, every state about to execute an instruction satisfies `visited`, until one
satisfies `done` or the run is lost. -/
inductive Leads {σ : Type} (next : σ → Option σ) (lost visited done : σ → Prop) : σ → Prop where
  | done {s : σ} (h : done s) : Leads next lost visited done s
  | step {s s' : σ} (hv : visited s) (hn : next s = some s')
      (h : Leads next lost visited done s') : Leads next lost visited done s
  | lost {s : σ} (hv : visited s) (hn : next s = none) (hl : lost s) :
      Leads next lost visited done s

def iterate {σ : Type} (next : σ → Option σ) : Nat → σ → Option σ
  | 0, s => some s
  | n + 1, s => (next s).bind (iterate next n)

def successor {σ : Type} (step : σ → Outcome σ) (s : σ) : Option σ :=
  match step s with
  | .running s => some s
  | _ => none

section Runs

variable {σ : Type} {step : σ → Outcome σ} {n : Nat} {s t u : σ}

theorem successor_of_running (h : step s = .running t) : successor step s = some t := by
  rw [successor, h]

theorem successor_of_returned (h : step s = .returned t) : successor step s = none := by
  rw [successor, h]

theorem successor_of_stuck (h : step s = .stuck) : successor step s = none := by
  rw [successor, h]

theorem running_of_successor (h : successor step s = some t) : step s = .running t := by
  unfold successor at h
  split at h <;> simp_all

/-- Running so many instructions is stepping so often. -/
theorem run_eq_running_iff : run step n s = .running t ↔ iterate (successor step) n s = some t := by
  induction n generalizing s with
  | zero => simp [run, iterate]
  | succ n ih =>
    rw [run, iterate, successor]
    cases step s with
    | running u => exact ih
    | returned u | trapped | stuck => simp

theorem run_of_iterate (h : iterate (successor step) n s = some t) (ht : step t = .returned u) :
    run step (n + 1) s = .returned u := by
  induction n generalizing s with
  | zero =>
    obtain rfl := Option.some.inj h
    simp [run, ht]
  | succ n ih =>
    rw [iterate, Option.bind_eq_some_iff] at h
    obtain ⟨s₁, hs, h⟩ := h
    rw [run, running_of_successor hs]
    exact ih h

theorem exists_running_of_returned (h : run step n s = .returned u) :
    ∃ k t, run step k s = .running t ∧ step t = .returned u := by
  induction n generalizing s with
  | zero => cases h
  | succ n ih =>
    rw [run] at h
    split at h
    case h_1 s₁ hs =>
      obtain ⟨k, t, hk, ht⟩ := ih h
      exact ⟨k + 1, t, by rw [run, hs]; exact hk, ht⟩
    case h_2 => exact ⟨0, s, rfl, h⟩

end Runs

theorem isSome_next_of_iterate {σ : Type} {next : σ → Option σ} {n k : Nat} {s s' t : σ}
    (h : iterate next n s = some s') (hk : k < n) (ht : iterate next k s = some t) :
    (next t).isSome := by
  induction k generalizing n s with
  | zero =>
    obtain rfl := Option.some.inj ht
    obtain ⟨n, rfl⟩ := Nat.exists_eq_succ_of_ne_zero (Nat.ne_of_gt hk)
    obtain ⟨u, hu, -⟩ := Option.bind_eq_some_iff.1 h
    simp [hu]
  | succ k ih =>
    obtain ⟨n, rfl⟩ := Nat.exists_eq_succ_of_ne_zero (Nat.ne_of_gt (Nat.zero_lt_of_lt hk))
    obtain ⟨u, hu, hn⟩ := Option.bind_eq_some_iff.1 h
    rw [iterate, hu] at ht
    exact ih hn (Nat.lt_of_succ_lt_succ hk) ht

namespace Leads

variable {σ : Type} {next : σ → Option σ} {lost lost' visited visited' done done' : σ → Prop}
  {s : σ}

theorem mono (h : Leads next lost visited done s) (hl : ∀ s, lost s → lost' s)
    (hv : ∀ s, visited s → visited' s) (hd : ∀ s, done s → done' s) :
    Leads next lost' visited' done' s := by
  induction h with
  | done h => exact .done (hd _ h)
  | step v hn _ ih => exact .step (hv _ v) hn ih
  | lost v hn l => exact .lost (hv _ v) hn (hl _ l)

theorem bind (h : Leads next lost visited done s)
    (hk : ∀ s, done s → Leads next lost visited done' s) : Leads next lost visited done' s := by
  induction h with
  | done h => exact hk _ h
  | step v hn _ ih => exact .step v hn ih
  | lost v hn hl => exact .lost v hn hl

theorem reaches (h : Leads next lost visited done s) (hl : ∀ s, ¬lost s) :
    ∃ n s', iterate next n s = some s' ∧ done s' := by
  induction h with
  | done h => exact ⟨0, _, rfl, h⟩
  | step _ hn _ ih =>
    obtain ⟨n, s', hs, hd⟩ := ih
    exact ⟨n + 1, s', by simp [iterate, hn, hs], hd⟩
  | lost _ _ h => exact absurd h (hl _)

/-- What is said of a run holds from each of its states on, when the machine stops where the run
ends. -/
theorem after (h : Leads next lost visited done s) (hd : ∀ s, done s → next s = none) (n : Nat)
    {s' : σ} (hs : iterate next n s = some s') : Leads next lost visited done s' := by
  induction n generalizing s with
  | zero => exact Option.some.inj hs ▸ h
  | succ n ih =>
    cases h with
    | done h => simp [iterate, hd _ h] at hs
    | step _ hn h =>
      rw [iterate, hn] at hs
      exact ih h hs
    | lost _ hn _ => simp [iterate, hn] at hs

theorem visits (h : Leads next lost visited done s) (hd : ∀ s, done s → next s = none) (n : Nat)
    {s' : σ} (hs : iterate next n s = some s') : visited s' ∨ done s' := by
  cases h.after hd n hs with
  | done h => exact .inr h
  | step v _ _ => exact .inl v
  | lost v _ _ => exact .inl v

theorem stops (h : Leads next lost visited done s) (hd : ∀ s, done s → next s = none) (n : Nat)
    {s' : σ} (hs : iterate next n s = some s') (hn : next s' = none) : done s' ∨ lost s' := by
  cases h.after hd n hs with
  | done h => exact .inl h
  | step _ hn' _ => simp [hn] at hn'
  | lost _ _ hl => exact .inr hl

end Leads

end OnePass
