import OnePass.Cbor.Reader

/-!
# Canonical bytes read back

The reader inverts the writer, whatever follows: heads of all five widths, strings, arrays and maps
nested as deep as there are levels.
-/

set_option autoImplicit false

namespace OnePass.Cbor

theorem bigEndian_succ (n v : Nat) :
    bigEndian (n + 1) v = bigEndian n (v / 256) ++ [UInt8.ofNat v] := by
  unfold bigEndian
  rw [List.range_succ, List.map_append]
  congr 1
  · apply List.map_congr_left
    intro i hi
    have hlt : i < n := List.mem_range.1 hi
    have hpow : Nat.pow 256 (n + 1 - 1 - i) = 256 * Nat.pow 256 (n - 1 - i) := by
      rw [show n + 1 - 1 - i = n - 1 - i + 1 by omega]
      exact Nat.mul_comm ..
    rw [hpow, Nat.div_div_eq_div_mul]
  · simp

theorem length_bigEndian (n v : Nat) : (bigEndian n v).length = n := by
  simp [bigEndian]

theorem ofBigEndian_append (s : Bytes) (b : UInt8) :
    ofBigEndian (s ++ [b]) = ofBigEndian s * 256 + b.toNat := by
  simp [ofBigEndian]

theorem ofBigEndian_bigEndian {n v : Nat} (h : v < Nat.pow 256 n) :
    ofBigEndian (bigEndian n v) = v := by
  induction n generalizing v with
  | zero =>
    have hv : v = 0 := Nat.lt_one_iff.1 h
    simp [hv, bigEndian, ofBigEndian]
  | succ n ih =>
    have hpow : Nat.pow 256 (n + 1) = Nat.pow 256 n * 256 := rfl
    rw [bigEndian_succ, ofBigEndian_append, ih (by omega), UInt8.toNat_ofNat']
    omega

theorem readNumber_bigEndian {n v : Nat} (h : v < Nat.pow 256 n) (s : Bytes) :
    readNumber n (bigEndian n v ++ s) = some (v, s) := by
  have hlength := length_bigEndian n v
  rw [readNumber, if_pos (by simp [hlength]), List.take_left' hlength, List.drop_left' hlength,
    ofBigEndian_bigEndian h]

def doublings (n : Nat) : Nat :=
  if n < 0x100 then 0 else if n < 0x10000 then 1 else if n < 0x100000000 then 2 else 3

theorem doublings_le (n : Nat) : doublings n ≤ 3 := by
  unfold doublings
  grind

theorem lt_pow_doublings {n : Nat} (h : n < UInt64.size) :
    n < Nat.pow 256 (Nat.pow 2 (doublings n)) := by
  unfold doublings
  split
  · assumption
  · split
    · assumption
    · split <;> assumption

def shortInfo (n : Nat) : Nat := if n < 24 then n else 24 + doublings n

section Heads

variable {major : UInt8}

theorem toNat_lead (hm : major ≤ 7) {info : Nat} (hi : info < 32) :
    (major * 32 + UInt8.ofNat info).toNat = major.toNat * 32 + info := by
  rw [UInt8.le_iff_toNat_le] at hm
  simp at hm ⊢
  omega

theorem readHead_narrow (hm : major ≤ 7) {n : Nat} (hn : n < 24) (s : Bytes) :
    readHead ((major * 32 + UInt8.ofNat n) :: s) = some (⟨major.toNat, n, n⟩, s) := by
  have hlead := toNat_lead hm (show n < 32 by omega)
  have hmajor : (major.toNat * 32 + n) / 32 = major.toNat := by omega
  have hinfo : (major.toNat * 32 + n) % 32 = n := by omega
  simp [readHead, hlead, hmajor, hinfo, hn]

/-- A head with its number in one, two, four or eight bytes. Those of simple values are not read
below 32, and are left out. -/
theorem readHead_wide (hm : major ≤ 6) {k : Nat} (hk : k ≤ 3) {n : Nat}
    (hn : n < Nat.pow 256 (Nat.pow 2 k)) (s : Bytes) :
    readHead ((major * 32 + UInt8.ofNat (24 + k)) :: (bigEndian (Nat.pow 2 k) n ++ s)) =
      some (⟨major.toNat, 24 + k, n⟩, s) := by
  have hlead := toNat_lead (UInt8.le_trans hm (by decide)) (show 24 + k < 32 by omega)
  have hmajor : (major.toNat * 32 + (24 + k)) / 32 = major.toNat := by omega
  have hinfo : (major.toNat * 32 + (24 + k)) % 32 = 24 + k := by omega
  have hsimple : major.toNat ≠ 7 := by
    rw [UInt8.le_iff_toNat_le] at hm
    simp at hm
    omega
  have hread := readNumber_bigEndian hn s
  have hwidth : 24 + k - 24 = k := by omega
  have hle : 24 + k ≤ 27 := by omega
  have hlt : ¬24 + k < 24 := by omega
  rw [readHead]
  simp only [hlead, hmajor, hinfo, hwidth, hread, hsimple, hle, hlt]
  simp

theorem head_wide {n : Nat} (h : ¬n < 24) :
    head major n = (major * 32 + UInt8.ofNat (24 + doublings n)) ::
      bigEndian (Nat.pow 2 (doublings n)) n := by
  by_cases h8 : n < 0x100
  · simp [head, doublings, h, h8]
  · by_cases h16 : n < 0x10000
    · simp [head, doublings, h, h8, h16]
    · by_cases h32 : n < 0x100000000
      · simp [head, doublings, h, h8, h16, h32]
      · simp [head, doublings, h, h8, h16, h32]

theorem readHead_head (hm : major ≤ 6) {n : Nat} (hn : n < UInt64.size) (s : Bytes) :
    readHead (head major n ++ s) = some (⟨major.toNat, shortInfo n, n⟩, s) := by
  by_cases h : n < 24
  · rw [head, if_pos h, shortInfo, if_pos h]
    exact readHead_narrow (UInt8.le_trans hm (by decide)) h s
  · rw [head_wide h, shortInfo, if_neg h]
    exact readHead_wide hm (doublings_le n) (lt_pow_doublings hn) s

theorem head_eq_cons (major : UInt8) (n : Nat) :
    ∃ info < 32, ∃ rest, head major n = (major * 32 + UInt8.ofNat info) :: rest := by
  by_cases h : n < 24
  · exact ⟨n, by omega, [], by rw [head, if_pos h]⟩
  · have hle := doublings_le n
    exact ⟨24 + doublings n, by omega, _, head_wide h⟩

theorem readTags_head (hm : major ≤ 7) (h6 : major ≠ 6) (fuel n : Nat) (s : Bytes) :
    readTags (fuel + 1) (head major n ++ s) = some ([], head major n ++ s) := by
  obtain ⟨info, hinfo, rest, he⟩ := head_eq_cons major n
  have hmajor : (major * 32 + UInt8.ofNat info).toNat / 32 ≠ 6 := by
    rw [toNat_lead hm hinfo]
    have hne : major.toNat ≠ 6 := fun h => h6 (UInt8.toNat_inj.1 h)
    omega
  rw [he, List.cons_append, readTags]
  simp only [hmajor, if_false]

end Heads

def readContent (fuel levels : Nat) (h : Head) (s : Bytes) : Option (Item × Bytes) :=
  match h.major with
  | 0 => some (Item.unsigned h.value, s)
  | 1 => some (Item.negative h.value, s)
  | 2 => (readString h s).map fun (chunks, s) => (Item.bytes chunks.flatten, s)
  | 3 => (readString h s).map fun (chunks, s) => (Item.text chunks, s)
  | 4 =>
    if levels = 0 then none
    else (readElements (readItem fuel (levels - 1)) h 1 s).map fun (is, s) => (Item.array is, s)
  | 5 =>
    if levels = 0 then none
    else
      (readElements (readItem fuel (levels - 1)) h 2 s).map fun (is, s) =>
        (Item.map (pairUp is), s)
  | _ =>
    if h.info ≤ 24 then some (Item.simple h.value, s)
    else some (Item.float (bigEndian (Nat.pow 2 (h.info - 24)) h.value), s)

theorem readItem_content {s t : Bytes} {h : Head} (htags : readTags (s.length + 1) s = some ([], s))
    (hhead : readHead s = some (h, t)) (fuel levels : Nat) :
    readItem (fuel + 1) levels s = readContent fuel levels h t := by
  obtain ⟨major, info, value⟩ := h
  have heta : ∀ o : Option (Item × Bytes), (o.bind fun r => some (r.1, r.2)) = o := by
    intro o
    cases o <;> rfl
  rw [readItem, htags]
  simp only [Option.bind_eq_bind, Option.bind_some, hhead]
  unfold readContent
  rcases major with _ | _ | _ | _ | _ | _ | major <;> simp [heta]

theorem readItem_head {major : UInt8} (hm : major ≤ 5) {n : Nat} (hn : n < UInt64.size)
    (fuel levels : Nat) (s : Bytes) :
    readItem (fuel + 1) levels (head major n ++ s) =
      readContent fuel levels ⟨major.toNat, shortInfo n, n⟩ s := by
  have hm6 : major ≤ 6 := UInt8.le_trans hm (by decide)
  have hm7 : major ≤ 7 := UInt8.le_trans hm (by decide)
  have hne : major ≠ 6 := by
    rintro rfl
    exact absurd hm (by decide)
  exact readItem_content (readTags_head hm7 hne ..) (readHead_head hm6 hn s) fuel levels

theorem readItem_simple {n : Nat} (hn : n < 24) (fuel levels : Nat) (s : Bytes) :
    readItem (fuel + 1) levels (head 7 n ++ s) = some (.simple n, s) := by
  have hhead : readHead (head 7 n ++ s) = some (⟨7, n, n⟩, s) := by
    rw [head, if_pos hn]
    exact readHead_narrow (by decide) hn s
  rw [readItem_content (readTags_head (by decide) (by decide) ..) hhead]
  exact if_pos (Nat.le_of_lt hn)

/-- An item that holds no others and can be written: numbers and lengths have 64 bits, and texts are
whole. Floats and long simple values are left out. -/
def Item.Flat : Item → Prop
  | .unsigned n => n < UInt64.size
  | .negative n => n < UInt64.size
  | .bytes b => b.length < UInt64.size
  | .text chunks => ∃ s : Text, chunks = [s] ∧ s.length < UInt64.size
  | .simple n => n < 24
  | _ => False

def Item.Fits : Nat → Item → Prop
  | levels + 1, .array items => items.length ≤ maxElements ∧ ∀ i ∈ items, i.Fits levels
  | levels + 1, .map pairs =>
    pairs.length ≤ maxElements ∧ ∀ p ∈ pairs, p.1.Fits levels ∧ p.2.Fits levels
  | _, i => i.Flat

theorem shortInfo_ne (n : Nat) : shortInfo n ≠ 31 := by
  have hle := doublings_le n
  unfold shortInfo
  split <;> omega

theorem readString_whole (major : Nat) (b s : Bytes) :
    readString ⟨major, shortInfo b.length, b.length⟩ (b ++ s) = some ([b], s) := by
  simp [readString, shortInfo_ne, readBytes]

section Elements

variable {read : Bytes → Option (Item × Bytes)}

theorem readMany_encodeAll {items : List Item}
    (h : ∀ i ∈ items, ∀ s, read (i.encode ++ s) = some (i, s)) (s : Bytes) :
    readMany read items.length (encodeAll items ++ s) = some (items, s) := by
  induction items with
  | nil => rfl
  | cons i items ih =>
    have hfirst := h i (by simp) (encodeAll items ++ s)
    have hrest := ih fun j hj => h j (by simp [hj])
    simp [readMany, encodeAll, hfirst, hrest]

def flattenPairs (pairs : List (Item × Item)) : List Item := pairs.flatMap fun p => [p.1, p.2]

theorem pairUp_flattenPairs (pairs : List (Item × Item)) : pairUp (flattenPairs pairs) = pairs := by
  induction pairs with
  | nil => rfl
  | cons p pairs ih =>
    change (p.1, p.2) :: pairUp (flattenPairs pairs) = p :: pairs
    rw [ih]

theorem encodePairs_eq (pairs : List (Item × Item)) :
    encodePairs pairs = encodeAll (flattenPairs pairs) := by
  induction pairs with
  | nil => rfl
  | cons p pairs ih =>
    change p.1.encode ++ p.2.encode ++ encodePairs pairs =
      p.1.encode ++ (p.2.encode ++ encodeAll (flattenPairs pairs))
    rw [ih, List.append_assoc]

theorem length_flattenPairs (pairs : List (Item × Item)) :
    (flattenPairs pairs).length = 2 * pairs.length := by
  induction pairs with
  | nil => rfl
  | cons p pairs ih =>
    change (flattenPairs pairs).length + 1 + 1 = 2 * (pairs.length + 1)
    omega

theorem readElements_encodeAll (major width n : Nat) {items : List Item} (hn : n ≤ maxElements)
    (hlength : items.length = width * n)
    (h : ∀ i ∈ items, ∀ s, read (i.encode ++ s) = some (i, s)) (s : Bytes) :
    readElements read ⟨major, shortInfo n, n⟩ width (encodeAll items ++ s) = some (items, s) := by
  have hmany := readMany_encodeAll h s
  rw [hlength] at hmany
  simp [readElements, shortInfo_ne, hn, hmany]

end Elements

theorem readItem_flat {i : Item} (h : i.Flat) (fuel levels : Nat) (s : Bytes) :
    readItem (fuel + 1) levels (i.encode ++ s) = some (i, s) := by
  cases i with
  | unsigned n => exact readItem_head (by decide) h fuel levels s
  | negative n => exact readItem_head (by decide) h fuel levels s
  | bytes b =>
    rw [Item.encode, List.append_assoc, readItem_head (by decide) h]
    change (readString _ _).map _ = _
    rw [readString_whole]
    simp
  | text chunks =>
    obtain ⟨b, rfl, hb⟩ := h
    rw [Item.encode, List.flatten_singleton, List.append_assoc, readItem_head (by decide) hb]
    change (readString _ _).map _ = _
    rw [readString_whole]
    rfl
  | simple n => exact readItem_simple h fuel levels s
  | array items => exact h.elim
  | map pairs => exact h.elim
  | tag number content => exact h.elim
  | float payload => exact h.elim

theorem lt_size_of_le_maxElements {n : Nat} (h : n ≤ maxElements) : n < UInt64.size :=
  Nat.lt_of_le_of_lt h (by decide)

/-- The reader inverts the writer, whatever follows. -/
theorem readItem_encode (levels : Nat) {i : Item} (h : i.Fits levels) (s : Bytes) :
    readItem (levels + 1) levels (i.encode ++ s) = some (i, s) := by
  induction levels generalizing i s with
  | zero => exact readItem_flat h 0 0 s
  | succ levels ih =>
    cases i with
    | array items =>
      obtain ⟨hlength, hitems⟩ := h
      have hread := readElements_encodeAll 4 1 items.length hlength (Nat.one_mul _).symm
        (fun i hi s => ih (hitems i hi) s) s
      rw [Item.encode, List.append_assoc,
        readItem_head (by decide) (lt_size_of_le_maxElements hlength)]
      change Option.map _ (readElements (readItem (levels + 1) levels) _ 1 _) = _
      rw [show UInt8.toNat 4 = 4 from rfl, hread]
      rfl
    | map pairs =>
      obtain ⟨hlength, hpairs⟩ := h
      have hitems : ∀ i ∈ flattenPairs pairs, i.Fits levels := by
        intro i hi
        obtain ⟨p, hp, hi⟩ := List.mem_flatMap.1 hi
        have hfits := hpairs p hp
        simp only [List.mem_cons, List.not_mem_nil, or_false] at hi
        rcases hi with rfl | rfl
        · exact hfits.1
        · exact hfits.2
      have hread := readElements_encodeAll 5 2 pairs.length hlength (length_flattenPairs pairs)
        (fun i hi s => ih (hitems i hi) s) s
      rw [Item.encode, List.append_assoc, encodePairs_eq,
        readItem_head (by decide) (lt_size_of_le_maxElements hlength)]
      change Option.map _ (readElements (readItem (levels + 1) levels) _ 2 _) = _
      rw [show UInt8.toNat 5 = 5 from rfl, hread]
      simp [pairUp_flattenPairs]
    | _ => exact readItem_flat h (levels + 1) (levels + 1) s

theorem decode_encode {i : Item} (h : i.Fits maxLevels) : decode i.encode = some i := by
  have hread := readItem_encode maxLevels h []
  rw [List.append_nil] at hread
  rw [decode, hread]

end OnePass.Cbor
