import OnePass.Text.Distance

/-!
# The nearest candidates

The candidates within reach of a name have one order by distance and name, since two that are alike
in both are the same text. What is suggested is the beginning of this order, however the candidates
were given.
-/

set_option autoImplicit false

namespace OnePass.Text

/-- `a` may stand before `b` among the candidates for `name`: it is nearer, or as near and not
behind `b` in the order of bytes. -/
def Before (name a b : Text) : Prop :=
  distance name a < distance name b ∨ distance name a = distance name b ∧ a ≤ b

def within (name : Text) (limit : Int) (candidates : List Text) : List Text :=
  candidates.filter fun c => 1 ≤ distance name c ∧ (distance name c : Int) ≤ limit

structure Ranking (name : Text) (limit : Int) (candidates ranked : List Text) : Prop where
  perm : ranked.Perm (within name limit candidates)
  ordered : ranked.Pairwise (Before name)

section Order

variable {name a b c : Text}

theorem Before.trans (hab : Before name a b) (hbc : Before name b c) : Before name a c := by
  rcases hab with hab | ⟨hab, hle⟩
  · rcases hbc with hbc | ⟨hbc, -⟩
    · exact .inl (Nat.lt_trans hab hbc)
    · exact .inl (hbc ▸ hab)
  · rcases hbc with hbc | ⟨hbc, hle'⟩
    · exact .inl (hab ▸ hbc)
    · exact .inr ⟨hab.trans hbc, List.le_trans hle hle'⟩

theorem Before.antisymm (hab : Before name a b) (hba : Before name b a) : a = b := by
  rcases hab with hab | ⟨hab, hle⟩
  · rcases hba with hba | ⟨hba, -⟩ <;> omega
  · rcases hba with hba | ⟨-, hle'⟩
    · omega
    · exact List.le_antisymm hle hle'

variable (name a b)

theorem before_total : Before name a b ∨ Before name b a := by
  rcases Nat.lt_trichotomy (distance name a) (distance name b) with h | h | h
  · exact .inl (.inl h)
  · rcases List.le_total a b with hle | hle
    · exact .inl (.inr ⟨h, hle⟩)
    · exact .inr (.inr ⟨h.symm, hle⟩)
  · exact .inr (.inl h)

theorem nearer_iff : nearer (a, distance name a) (b, distance name b) = true ↔ Before name a b := by
  simp [nearer, Before, List.not_lt]

end Order

section Ranking

variable {name : Text} {limit : Int} {candidates ranked other : List Text}

def rank (name : Text) (limit : Int) (candidates : List Text) : List Text :=
  (within name limit candidates).mergeSort fun a b =>
    nearer (a, distance name a) (b, distance name b)

theorem ranking_rank : Ranking name limit candidates (rank name limit candidates) where
  perm := List.mergeSort_perm _ _
  ordered := by
    refine (List.pairwise_mergeSort ?_ ?_ _).imp fun h => (nearer_iff name _ _).1 h
    · intro a b c hab hbc
      rw [nearer_iff] at hab hbc ⊢
      exact hab.trans hbc
    · intro a b
      rw [Bool.or_eq_true, nearer_iff, nearer_iff]
      exact before_total name a b

theorem Ranking.unique (h : Ranking name limit candidates ranked)
    (h' : Ranking name limit candidates other) : ranked = other :=
  List.Perm.eq_of_pairwise (fun _ _ _ _ => Before.antisymm) h.ordered h'.ordered
    (h.perm.trans h'.perm.symm)

theorem Ranking.of_perm (h : Ranking name limit candidates ranked)
    (hperm : candidates.Perm other) : Ranking name limit other ranked :=
  ⟨h.perm.trans (hperm.filter _), h.ordered⟩

end Ranking

/-- The distances that are sorted along with the candidates are those of the candidates. -/
theorem nearest_eq_take_rank (name : Text) (candidates : List Text) (limit : Int) (count : Nat) :
    nearest name candidates limit count = (rank name limit candidates).take count := by
  have hsort : ((within name limit candidates).map fun c => (c, distance name c)).mergeSort nearer =
      (rank name limit candidates).map fun c => (c, distance name c) := by
    rw [rank, List.map_mergeSort]
    intro a _ b _
    rfl
  have hnear : (candidates.map fun c => (c, distance name c)).filter
      (fun p => 0 < p.2 && (p.2 : Int) ≤ limit) =
      (within name limit candidates).map fun c => (c, distance name c) := by
    rw [List.filter_map, within]
    congr 1
    apply List.filter_congr
    intro c _
    simp [Nat.succ_le_iff]
  rw [nearest, hnear, hsort, ← List.map_take, List.map_map]
  exact List.map_id _

/-- What is suggested for a name are the first of the candidates at distance one to `limit`, as many
as there are up to `count`, in their only order by distance and name. The order in which the
candidates are given does not matter. -/
theorem nearest_takes_ranking (name : Text) (candidates : List Text) (limit : Int) (count : Nat) :
    ∃ ranked, Ranking name limit candidates ranked ∧
      (∀ other, Ranking name limit candidates other → other = ranked) ∧
      nearest name candidates limit count =
        ranked.take (min count (within name limit candidates).length) ∧
      ∀ shuffled, shuffled.Perm candidates →
        nearest name shuffled limit count = nearest name candidates limit count := by
  refine ⟨rank name limit candidates, ranking_rank, fun _ h => h.unique ranking_rank, ?_, ?_⟩
  · rw [nearest_eq_take_rank, ← ranking_rank.perm.length_eq, ← List.take_eq_take_min]
  · intro shuffled hperm
    rw [nearest_eq_take_rank, nearest_eq_take_rank,
      (ranking_rank.of_perm hperm).unique ranking_rank]

end OnePass.Text
