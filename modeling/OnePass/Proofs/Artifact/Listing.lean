import Mathlib.Data.List.Basic
import OnePass.Artifact.Listing
import OnePass.Proofs.Text.Numeral

/-!
# Listings are read back

A reader takes a listing apart again, line by line: the address, two blanks, and pairs of digits
with one blank between them. It finds the bytes that were listed, sixteen to a line, and each line
at its place behind the first address.
-/

set_option autoImplicit false

namespace OnePass.Listing

open Text

structure Row where
  address : UInt64
  bytes : Bytes
  deriving DecidableEq, Repr

def readByte? (high low : UInt8) : Option UInt8 :=
  if isHexDigit high && isHexDigit low then some (UInt8.ofNat (valueOf 16 [high, low])) else none

def readBytes? : Text → Option Bytes
  | [high, low] => (readByte? high low).map fun b => [b]
  | high :: low :: between :: rest =>
    if between = 0x20 then
      (readByte? high low).bind fun b => (readBytes? rest).map fun bs => b :: bs
    else none
  | _ => none

def Row.read? (s : Text) : Option Row :=
  if (s.take 16).length = 16 ∧ (s.take 16).all isHexDigit then
    (after? (utf8 "  ") (s.drop 16)).bind fun rest =>
      (readBytes? rest).map fun bs => ⟨UInt64.ofNat (valueOf 16 (s.take 16)), bs⟩
  else none

def read? (s : Text) : Option (List Row) :=
  if (Text.lines s).getLast? = some [] then (Text.lines s).dropLast.mapM Row.read? else none

def rows (address : UInt64) (bs : Bytes) : List Row :=
  match bs with
  | [] => []
  | b :: rest =>
    ⟨address, (b :: rest).take 16⟩ :: rows (address + 16) ((b :: rest).drop 16)
termination_by bs.length
decreasing_by
  rw [List.length_drop, List.length_cons]
  omega

def Row.spelling (r : Row) : Text :=
  hexPadded 16 r.address.toNat ++ utf8 " " ++ r.bytes.flatMap fun b => utf8 " " ++ hexByte b

section Rows

variable (address : UInt64) (bs : Bytes)

theorem lines_eq :
    lines address bs = ((rows address bs).map Row.spelling).flatMap fun s => s ++ [newline] := by
  fun_induction rows address bs with
  | case1 => rw [lines]; rfl
  | case2 address b rest ih =>
    rw [lines, List.map_cons, List.flatMap_cons, ← ih]
    rfl

theorem flatMap_rows : (rows address bs).flatMap Row.bytes = bs := by
  fun_induction rows address bs with
  | case1 => rfl
  | case2 address b rest ih => rw [List.flatMap_cons, ih, List.take_append_drop]

theorem length_rows : (rows address bs).length = (bs.length + 15) / 16 := by
  fun_induction rows address bs with
  | case1 => rfl
  | case2 address b rest ih =>
    rw [List.length_cons, ih, List.length_drop, List.length_cons]
    omega

/-- The row with number `i` lists the bytes from `16 * i` on. -/
theorem rows_at {i : Nat} {r : Row} (h : (rows address bs)[i]? = some r) :
    r = ⟨address + UInt64.ofNat (16 * i), (bs.drop (16 * i)).take 16⟩ ∧ 16 * i < bs.length := by
  fun_induction rows address bs generalizing i with
  | case1 => simp at h
  | case2 address b rest ih =>
    cases i with
    | zero =>
      cases h
      simp
    | succ i =>
      obtain ⟨hr, hi⟩ := ih h
      rw [List.length_drop] at hi
      refine ⟨?_, by omega⟩
      have hplace : address + 16 + UInt64.ofNat (16 * i) =
          address + UInt64.ofNat (16 * (i + 1)) := by
        rw [UInt64.add_assoc, Nat.mul_add, Nat.add_comm, UInt64.ofNat_add]
        rfl
      rw [hr, hplace, List.drop_drop, Nat.add_comm, Nat.mul_add]

theorem bytes_ne_nil {r : Row} (h : r ∈ rows address bs) : r.bytes ≠ [] := by
  obtain ⟨i, hi⟩ := List.mem_iff_getElem?.1 h
  obtain ⟨rfl, hlt⟩ := rows_at address bs hi
  apply List.ne_nil_of_length_pos
  rw [List.length_take, List.length_drop]
  omega

end Rows

theorem after?_append (lead s : Text) : after? lead (lead ++ s) = some s := by
  rw [after?, if_pos (List.isPrefixOf_iff_prefix.2 (List.prefix_append lead s)), List.drop_left]

theorem splitOn_line {s : Text} (h : newline ∉ s) (t : Text) :
    splitOn newline (s ++ newline :: t) = s :: splitOn newline t := by
  induction s with
  | nil => simp [splitOn]
  | cons b s ih =>
    obtain ⟨hb, hs⟩ := not_or.1 (mt List.mem_cons.2 h)
    rw [List.cons_append, splitOn, if_neg (Ne.symm hb), ih hs]

theorem lines_flatMap {texts : List Text} (h : ∀ s ∈ texts, newline ∉ s) :
    Text.lines (texts.flatMap fun s => s ++ [newline]) = texts ++ [[]] := by
  induction texts with
  | nil => rfl
  | cons s texts ih =>
    obtain ⟨hs, htexts⟩ := List.forall_mem_cons.1 h
    rw [List.flatMap_cons, List.append_assoc, Text.lines]
    exact (splitOn_line hs _).trans (congrArg (s :: ·) (ih htexts))

theorem spelled_byte (b : UInt8) :
    ∃ high low, hexByte b = [high, low] ∧ readByte? high low = some b := by
  have hlength : (hexByte b).length = 2 := length_hexPadded (by decide) b.toNat_lt
  obtain ⟨high, low, hpair⟩ := List.length_eq_two.1 hlength
  have hread := denotes_hexPadded 2 b.toNat
  rw [← hexByte, hpair] at hread
  refine ⟨high, low, hpair, ?_⟩
  have hdigits : (isHexDigit high && isHexDigit low) = true := by
    simp [hread.digits high, hread.digits low]
  rw [readByte?, if_pos hdigits, hread.value, UInt8.ofNat_toNat]

theorem readBytes?_cons {high low b : UInt8} {rest : Text} {bs : Bytes}
    (hb : readByte? high low = some b) (hrest : readBytes? rest = some bs) :
    readBytes? (high :: low :: 0x20 :: rest) = some (b :: bs) := by
  simp [readBytes?, hb, hrest]

theorem readBytes?_spelled (b : UInt8) (bs : Bytes) :
    readBytes? (hexByte b ++ bs.flatMap fun b => utf8 " " ++ hexByte b) = some (b :: bs) := by
  induction bs generalizing b with
  | nil =>
    obtain ⟨high, low, hb, hread⟩ := spelled_byte b
    simp [hb, readBytes?, hread]
  | cons c bs ih =>
    obtain ⟨high, low, hb, hread⟩ := spelled_byte b
    rw [hb]
    exact readBytes?_cons hread (ih c)

/-- Sixteen digits, two blanks and the bytes of a row are read as the row. -/
theorem Row.read?_spelling {r : Row} (h : r.bytes ≠ []) : Row.read? r.spelling = some r := by
  obtain ⟨address, bs⟩ := r
  obtain ⟨b, bs, rfl⟩ := List.exists_cons_of_ne_nil h
  have hlength : (hexPadded 16 address.toNat).length = 16 :=
    length_hexPadded (by decide) address.toNat_lt
  have hread := denotes_hexPadded 16 address.toNat
  have hspelling : Row.spelling ⟨address, b :: bs⟩ = hexPadded 16 address.toNat ++
      (utf8 "  " ++ (hexByte b ++ bs.flatMap fun b => utf8 " " ++ hexByte b)) := by
    rw [Row.spelling, List.append_assoc]
    rfl
  have htake : (Row.spelling ⟨address, b :: bs⟩).take 16 = hexPadded 16 address.toNat := by
    rw [hspelling, List.take_left' hlength]
  have hdrop : (Row.spelling ⟨address, b :: bs⟩).drop 16 =
      utf8 "  " ++ (hexByte b ++ bs.flatMap fun b => utf8 " " ++ hexByte b) := by
    rw [hspelling, List.drop_left' hlength]
  rw [Row.read?, htake, hdrop, if_pos ⟨hlength, List.all_eq_true.2 hread.digits⟩, hread.value,
    UInt64.ofNat_toNat, after?_append, Option.bind_some, readBytes?_spelled, Option.map_some]

theorem newline_not_mem_spelling (r : Row) : newline ∉ r.spelling := by
  have hdigits {ds : Text} {n : Nat} (h : Denotes ds n) : newline ∉ ds :=
    fun hmem => Bool.false_ne_true (h.digits newline hmem)
  have hblank : newline ∉ utf8 " " := by decide
  simp only [Row.spelling, List.mem_append, List.mem_flatMap, not_or, not_exists, not_and]
  exact ⟨⟨hdigits (denotes_hexPadded 16 _), hblank⟩,
    fun b _ => ⟨hblank, hdigits (denotes_hexPadded 2 _)⟩⟩

theorem mapM_read?_spelling {found : List Row} (h : ∀ r ∈ found, r.bytes ≠ []) :
    (found.map Row.spelling).mapM Row.read? = some found := by
  induction found with
  | nil => rfl
  | cons r found ih =>
    obtain ⟨hr, hfound⟩ := List.forall_mem_cons.1 h
    simp [Row.read?_spelling hr, ih hfound]

theorem read?_flatMap {texts : List Text} (h : ∀ s ∈ texts, newline ∉ s) :
    read? (texts.flatMap fun s => s ++ [newline]) = texts.mapM Row.read? := by
  rw [read?, lines_flatMap h, if_pos List.getLast?_concat, List.dropLast_concat]

/-- What is listed can be read: the text has one line for every sixteen bytes or rest of them, each
with its end, and reading the lines back gives the bytes, every line but the last with sixteen of
them, and with the address that many bytes behind the line before, modulo `2^64`. -/
theorem listing_reads_back (address : UInt64) (bs : Bytes) :
    ∃ (texts : List Text) (found : List Row),
      lines address bs = (texts.flatMap fun s => s ++ [newline]) ∧
      (∀ s ∈ texts, newline ∉ s) ∧
      texts.length = (bs.length + 15) / 16 ∧
      texts.mapM Row.read? = some found ∧
      read? (lines address bs) = some found ∧
      found.flatMap Row.bytes = bs ∧
      ∀ i r, found[i]? = some r →
        r.address.toNat = (address.toNat + 16 * i) % UInt64.size ∧
        r.bytes.length ≤ 16 ∧ (i + 1 < texts.length → r.bytes.length = 16) := by
  have hfree : ∀ s ∈ (rows address bs).map Row.spelling, newline ∉ s := by
    intro s hs
    obtain ⟨r, -, rfl⟩ := List.mem_map.1 hs
    exact newline_not_mem_spelling r
  have hread : ((rows address bs).map Row.spelling).mapM Row.read? = some (rows address bs) :=
    mapM_read?_spelling fun _ => bytes_ne_nil address bs
  have hcount : ((rows address bs).map Row.spelling).length = (bs.length + 15) / 16 := by
    rw [List.length_map, length_rows]
  refine ⟨_, rows address bs, lines_eq address bs, hfree, hcount, hread, ?_,
    flatMap_rows address bs, ?_⟩
  · rw [lines_eq, read?_flatMap hfree, hread]
  · intro i r hr
    obtain ⟨rfl, -⟩ := rows_at address bs hr
    refine ⟨?_, List.length_take_le _ _, fun hnext => ?_⟩
    · simp [UInt64.toNat_add, UInt64.size]
    · rw [hcount] at hnext
      rw [List.length_take, List.length_drop]
      omega

end OnePass.Listing
