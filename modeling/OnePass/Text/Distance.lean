import OnePass.Text.Basic

/-!
# Edit distance

The least number of single-byte insertions, deletions and substitutions between two texts, row by
row, and the candidates nearest to a name.
-/

set_option autoImplicit false

namespace OnePass.Text

/-- The rest of a row of distances: `diag` and `above` come from the previous row, `left` is the
entry just written. -/
def fillRow (a : UInt8) : Text → Nat → Nat → List Nat → List Nat
  | b :: bs, diag, left, up :: above =>
    let cost := if a = b then 0 else 1
    let entry := min (min (up + 1) (left + 1)) (diag + cost)
    entry :: fillRow a bs up entry above
  | _, _, _, _ => []

def nextRow (t : Text) (row : List Nat) (a : UInt8) : List Nat :=
  match row with
  | [] => []
  | corner :: above => (corner + 1) :: fillRow a t corner (corner + 1) above

def distance (s t : Text) : Nat :=
  (s.foldl (nextRow t) (List.range (t.length + 1))).getLastD 0

/-- Nearer candidates come first, equally near ones in byte order. -/
def nearer (p q : Text × Nat) : Bool :=
  p.2 < q.2 || (p.2 = q.2 && !(q.1 < p.1))

def nearest (name : Text) (candidates : List Text) (limit : Int) (count : Nat) : List Text :=
  let near := (candidates.map fun c => (c, distance name c)).filter
    fun p => 0 < p.2 && (p.2 : Int) ≤ limit
  ((near.mergeSort nearer).take count).map Prod.fst

end OnePass.Text
