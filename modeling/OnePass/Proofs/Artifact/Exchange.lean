import Mathlib.Data.List.Nodup
import OnePass.Artifact.Exchange
import OnePass.Proofs.Cbor.Exchange

/-!
# Artifacts read back

The bytes of an artifact are read as an artifact with the same contents, and they depend on its
contents only: the order in which symbols are listed does not show.
-/

set_option autoImplicit false

namespace OnePass.Artifact

open Cbor

section Keys

variable {a b c : Text}

theorem keyBefore_iff : keyBefore a b ↔ a.length < b.length ∨ a.length = b.length ∧ ¬b < a := by
  simp [keyBefore]

theorem keyBefore_total (a b : Text) : (keyBefore a b || keyBefore b a) = true := by
  rw [Bool.or_eq_true, keyBefore_iff, keyBefore_iff]
  rcases Nat.lt_trichotomy a.length b.length with h | h | h
  · exact .inl (.inl h)
  · rcases List.le_total a b with hle | hle
    · exact .inl (.inr ⟨h, List.not_lt.2 hle⟩)
    · exact .inr (.inr ⟨h.symm, List.not_lt.2 hle⟩)
  · exact .inr (.inl h)

theorem keyBefore_trans (hab : keyBefore a b) (hbc : keyBefore b c) : keyBefore a c := by
  rw [keyBefore_iff] at *
  rcases hab with hab | ⟨hab, hle⟩
  · rcases hbc with hbc | ⟨hbc, -⟩
    · exact .inl (Nat.lt_trans hab hbc)
    · exact .inl (hbc ▸ hab)
  · rcases hbc with hbc | ⟨hbc, hle'⟩
    · exact .inl (hab ▸ hbc)
    · exact .inr ⟨hab.trans hbc, List.not_lt.2
        (List.le_trans (List.not_lt.1 hle) (List.not_lt.1 hle'))⟩

theorem keyBefore_antisymm (hab : keyBefore a b) (hba : keyBefore b a) : a = b := by
  rw [keyBefore_iff] at *
  rcases hab with hab | ⟨hab, hle⟩
  · rcases hba with hba | ⟨hba, -⟩ <;> omega
  · rcases hba with hba | ⟨-, hle'⟩
    · omega
    · exact List.le_antisymm (List.not_lt.1 hle) (List.not_lt.1 hle')

end Keys

def sortedSymbols (symbols : List (Text × UInt64)) : List (Text × UInt64) :=
  symbols.mergeSort fun a b => keyBefore a.1 b.1

theorem sortedSymbols_perm (symbols : List (Text × UInt64)) :
    (sortedSymbols symbols).Perm symbols := List.mergeSort_perm ..

theorem sortedSymbols_pairwise (symbols : List (Text × UInt64)) :
    (sortedSymbols symbols).Pairwise fun a b => keyBefore a.1 b.1 := by
  apply List.pairwise_mergeSort
  · intro a b c
    exact keyBefore_trans
  · intro a b
    exact keyBefore_total a.1 b.1

def DistinctNames (symbols : List (Text × UInt64)) : Prop := (symbols.map Prod.fst).Nodup

/-- Sorted symbols do not depend on the order in which they were listed. -/
theorem sortedSymbols_eq {s t : List (Text × UInt64)} (h : s.Perm t) (hs : DistinctNames s) :
    sortedSymbols s = sortedSymbols t := by
  have hperm : (sortedSymbols s).Perm (sortedSymbols t) :=
    (sortedSymbols_perm s).trans (h.trans (sortedSymbols_perm t).symm)
  apply hperm.eq_of_pairwise _ (sortedSymbols_pairwise s) (sortedSymbols_pairwise t)
  intro a b ha hb hab hba
  apply List.inj_on_of_nodup_map hs
  · exact (sortedSymbols_perm s).mem_iff.1 ha
  · exact h.mem_iff.2 ((sortedSymbols_perm t).mem_iff.1 hb)
  · exact keyBefore_antisymm hab hba

theorem DistinctNames.sorted {symbols : List (Text × UInt64)} (h : DistinctNames symbols) :
    DistinctNames (sortedSymbols symbols) :=
  (((sortedSymbols_perm symbols).map Prod.fst).nodup_iff).2 h

def Valid (s : Text) : Prop := s.isValidUtf8 ∧ s.length < UInt64.size

theorem fits_textItem {s : Text} (h : s.length < UInt64.size) (levels : Nat) :
    (textItem s).Fits levels := by
  cases levels <;> exact ⟨s, rfl, h⟩

theorem readText_textItem {s : Text} (h : s.isValidUtf8) :
    readText (textItem s) = some (some s) := by
  simp [readText, textItem, untagged, h]

theorem readWord_unsigned (n : UInt64) : readWord (.unsigned n.toNat) = some (some n) := by
  have hlt : n.toNat < 0x10000000000000000 := n.toNat_lt
  simp [readWord, readUnsigned, untagged, hlt]

theorem readByteString_bytesItem (b : Option Bytes) : readByteString (bytesItem b) = some b := by
  cases b with
  | none => rfl
  | some b => rfl

theorem setSymbol_new {name : Text} (address : UInt64) {symbols : List (Text × UInt64)}
    (h : name ∉ symbols.map Prod.fst) :
    setSymbol name address symbols = symbols ++ [(name, address)] := by
  induction symbols with
  | nil => rfl
  | cons s symbols ih =>
    obtain ⟨hne, hrest⟩ := not_or.1 (mt List.mem_cons.2 h)
    rw [setSymbol, if_neg (Ne.symm hne), ih hrest, List.cons_append]

def symbolPairs (symbols : List (Text × UInt64)) : List (Item × Item) :=
  symbols.map fun s => (textItem s.1, .unsigned s.2.toNat)

theorem readPairs_symbolPairs {symbols : List (Text × UInt64)}
    (hvalid : ∀ s ∈ symbols, s.1.isValidUtf8) (known : List (Text × UInt64))
    (h : DistinctNames (known ++ symbols)) (name : Text) (address : UInt64) :
    readPairs name address known (symbolPairs symbols) = some (known ++ symbols) := by
  induction symbols generalizing known name address with
  | nil => simp [symbolPairs, readPairs]
  | cons s symbols ih =>
    have hnew : s.1 ∉ known.map Prod.fst := by
      intro hmem
      rw [DistinctNames, List.map_append, List.map_cons] at h
      exact (List.nodup_append.1 h).2.2 _ hmem _ (by simp) rfl
    have hmore : DistinctNames ((known ++ [s]) ++ symbols) := by
      simpa [DistinctNames] using h
    change (do
      let name := (← readText (textItem s.1)).getD name
      let address := (← readWord (.unsigned s.2.toNat)).getD address
      readPairs name address (setSymbol name address known) (symbolPairs symbols)) = _
    rw [readText_textItem (hvalid s (by simp)), readWord_unsigned]
    change readPairs s.1 s.2 (setSymbol s.1 s.2 known) (symbolPairs symbols) = _
    rw [setSymbol_new s.2 hnew, ih (fun r hr => hvalid r (by simp [hr])) _ hmore]
    simp

theorem readSymbols_symbolsItem {symbols : Option (List (Text × UInt64))}
    (h : ∀ l ∈ symbols, DistinctNames l ∧ ∀ s ∈ l, s.1.isValidUtf8) :
    readSymbols (symbolsItem symbols) = some (symbols.map sortedSymbols) := by
  cases symbols with
  | none => rfl
  | some l =>
    obtain ⟨hnames, hvalid⟩ := h l rfl
    have hsorted : ∀ s ∈ sortedSymbols l, s.1.isValidUtf8 := by
      intro s hs
      exact hvalid s ((sortedSymbols_perm l).mem_iff.1 hs)
    have hread := readPairs_symbolPairs hsorted [] hnames.sorted [] 0
    change (do return some (← readPairs [] 0 [] (symbolPairs (sortedSymbols l)))) = _
    rw [hread]
    rfl

theorem Field.mem_all (f : Field) : f ∈ all := by
  cases f <;> decide

theorem Field.name_injective {f g : Field} (h : f.name = g.name) : f = g := by
  have hnames : (all.map name).Nodup := by decide +kernel
  exact List.inj_on_of_nodup_map hnames f.mem_all g.mem_all h

theorem Field.ofKey?_name {f : Field} {given : List Field} (h : f ∉ given) :
    ofKey? f.name given = some f := by
  have hmem : f ∈ all.filter fun g => !given.contains g := by
    simp [Field.mem_all, h]
  have hfind : (all.filter fun g => !given.contains g).find? (fun g => g.name = f.name) =
      some f := by
    cases hg : (all.filter fun g => !given.contains g).find? (fun g => g.name = f.name) with
    | none =>
      have hnone := List.find?_eq_none.1 hg f hmem
      simp at hnone
    | some g =>
      have hname := List.find?_some hg
      rw [Field.name_injective (of_decide_eq_true hname)]
  rw [ofKey?, hfind]
  rfl

theorem Field.valid_name (f : Field) : f.name.isValidUtf8 := by
  cases f <;> decide +kernel

def fieldItems (a : Artifact) : List (Field × Item) :=
  [(.arch, textItem a.arch), (.code, bytesItem a.code), (.data, bytesItem a.data),
    (.source, textItem a.source), (.symbols, symbolsItem a.symbols),
    (.codeBase, .unsigned a.codeBase.toNat), (.dataBase, .unsigned a.dataBase.toNat),
    (.resultType, textItem a.resultType)]

def fieldPairs (fields : List (Field × Item)) : List (Item × Item) :=
  fields.map fun p => (textItem p.1.name, p.2)

theorem toItem_eq (a : Artifact) : a.toItem = .map (fieldPairs a.fieldItems) := rfl

theorem readFields_fieldPairs {fields : List (Field × Item)} {given : List Field}
    (h : (given ++ fields.map Prod.fst).Nodup) (a : Artifact) :
    readFields a given (fieldPairs fields) = fields.foldlM (fun a p => a.setField p.2 p.1) a := by
  induction fields generalizing given a with
  | nil => rfl
  | cons p fields ih =>
    have hnew : p.1 ∉ given := by
      intro hmem
      exact (List.nodup_append.1 h).2.2 _ hmem _ (by simp) rfl
    have hmore : ((p.1 :: given) ++ fields.map Prod.fst).Nodup :=
      (List.perm_middle.nodup_iff).1 h
    have hkey : keyField? given (textItem p.1.name) = some (some p.1) := by
      simp [keyField?, textItem, Field.valid_name, Field.ofKey?_name hnew]
    change readFields a given ((textItem p.1.name, p.2) :: fieldPairs fields) = _
    rw [readFields, hkey, List.foldlM_cons]
    change (a.setField p.2 p.1).bind (fun b => readFields b (p.1 :: given) (fieldPairs fields)) =
      (a.setField p.2 p.1).bind _
    congr 1
    funext b
    exact ih hmore b

/-- What an artifact must be like to be exchanged: texts are valid, lengths have 64 bits, and
symbols are a map, with one address to a name, of a size that readers accept. -/
structure Exchangeable (a : Artifact) : Prop where
  arch : Valid a.arch
  resultType : Valid a.resultType
  source : Valid a.source
  code : ∀ b ∈ a.code, b.length < UInt64.size
  data : ∀ b ∈ a.data, b.length < UInt64.size
  symbols : ∀ l ∈ a.symbols, l.length ≤ 131072 ∧ DistinctNames l ∧ ∀ s ∈ l, Valid s.1

/-- The same contents: all fields are equal, and symbols are the same map in whatever order. -/
structure Same (a b : Artifact) : Prop where
  arch : a.arch = b.arch
  resultType : a.resultType = b.resultType
  source : a.source = b.source
  code : a.code = b.code
  data : a.data = b.data
  codeBase : a.codeBase = b.codeBase
  dataBase : a.dataBase = b.dataBase
  symbols : Option.Rel List.Perm a.symbols b.symbols

def ordered (a : Artifact) : Artifact := { a with symbols := a.symbols.map sortedSymbols }

theorem same_ordered (a : Artifact) : a.ordered.Same a where
  arch := rfl
  resultType := rfl
  source := rfl
  code := rfl
  data := rfl
  codeBase := rfl
  dataBase := rfl
  symbols := by
    unfold ordered
    cases a.symbols with
    | none => exact .none
    | some l => exact .some (sortedSymbols_perm l)

/-- An exchangeable artifact is read back from its item, its symbols in order. -/
theorem ofItem?_toItem {a : Artifact} (h : a.Exchangeable) : ofItem? a.toItem = some a.ordered := by
  have hdistinct : ([] ++ a.fieldItems.map Prod.fst).Nodup := by
    change [Field.arch, .code, .data, .source, .symbols, .codeBase, .dataBase, .resultType].Nodup
    decide
  have hsymbols := readSymbols_symbolsItem fun l hl =>
    ⟨(h.symbols l hl).2.1, fun s hs => ((h.symbols l hl).2.2 s hs).1⟩
  have hread : readFields {} [] (fieldPairs a.fieldItems) = some a.ordered := by
    rw [readFields_fieldPairs hdistinct]
    simp [ordered, fieldItems, setField, readText_textItem h.arch.1,
      readText_textItem h.resultType.1,
      readText_textItem h.source.1, readByteString_bytesItem, readWord_unsigned, hsymbols]
  rw [toItem_eq, ofItem?]
  exact hread

theorem fits_bytesItem {b : Option Bytes} (h : ∀ s ∈ b, s.length < UInt64.size) (levels : Nat) :
    (bytesItem b).Fits levels := by
  cases b with
  | none => cases levels <;> exact (by decide : 22 < 24)
  | some s => cases levels <;> exact h s rfl

theorem fits_unsigned (n : UInt64) (levels : Nat) : (Item.unsigned n.toNat).Fits levels := by
  cases levels <;> exact n.toNat_lt

theorem fits_symbolsItem {symbols : Option (List (Text × UInt64))}
    (h : ∀ l ∈ symbols, l.length ≤ 131072 ∧ ∀ s ∈ l, s.1.length < UInt64.size) (levels : Nat) :
    (symbolsItem symbols).Fits (levels + 1) := by
  cases symbols with
  | none => exact (by decide : 22 < 24)
  | some l =>
    obtain ⟨hlength, hnames⟩ := h l rfl
    change (symbolPairs (sortedSymbols l)).length ≤ _ ∧ ∀ p ∈ symbolPairs (sortedSymbols l), _
    constructor
    · rw [symbolPairs, List.length_map, (sortedSymbols_perm l).length_eq]
      exact hlength
    · intro p hp
      obtain ⟨s, hs, rfl⟩ := List.mem_map.1 hp
      have hname := hnames s ((sortedSymbols_perm l).mem_iff.1 hs)
      exact ⟨fits_textItem hname levels, fits_unsigned s.2 levels⟩

theorem Field.length_name (f : Field) : f.name.length < UInt64.size := by
  cases f <;> decide +kernel

/-- What an artifact must be like to be written: lengths have 64 bits, and there are no more symbols
than readers accept. -/
structure Measured (a : Artifact) : Prop where
  arch : a.arch.length < UInt64.size
  resultType : a.resultType.length < UInt64.size
  source : a.source.length < UInt64.size
  code : ∀ b ∈ a.code, b.length < UInt64.size
  data : ∀ b ∈ a.data, b.length < UInt64.size
  symbols : ∀ l ∈ a.symbols, l.length ≤ 131072 ∧ ∀ s ∈ l, s.1.length < UInt64.size

theorem Measured.fits_toItem {a : Artifact} (h : a.Measured) (levels : Nat) :
    a.toItem.Fits (levels + 2) := by
  rw [toItem_eq]
  constructor
  · change 8 ≤ maxElements
    decide
  · intro p hp
    obtain ⟨f, hf, rfl⟩ := List.mem_map.1 hp
    refine ⟨fits_textItem f.1.length_name _, ?_⟩
    simp only [fieldItems, List.mem_cons, List.not_mem_nil, or_false] at hf
    rcases hf with rfl | rfl | rfl | rfl | rfl | rfl | rfl | rfl
    · exact fits_textItem h.arch _
    · exact fits_bytesItem h.code _
    · exact fits_bytesItem h.data _
    · exact fits_textItem h.source _
    · exact fits_symbolsItem h.symbols _
    · exact fits_unsigned a.codeBase _
    · exact fits_unsigned a.dataBase _
    · exact fits_textItem h.resultType _

/-- The bytes of an artifact are well formed, whatever its texts are. -/
theorem Measured.decode_encode {a : Artifact} (h : a.Measured) :
    decode a.encode = ofItem? a.toItem := by
  rw [decode, encode, Cbor.decode_encode (h.fits_toItem _)]
  rfl

theorem Exchangeable.measured {a : Artifact} (h : a.Exchangeable) : a.Measured where
  arch := h.arch.2
  resultType := h.resultType.2
  source := h.source.2
  code := h.code
  data := h.data
  symbols l hl := ⟨(h.symbols l hl).1, fun s hs => ((h.symbols l hl).2.2 s hs).2⟩

theorem fits_toItem {a : Artifact} (h : a.Exchangeable) (levels : Nat) :
    a.toItem.Fits (levels + 2) := h.measured.fits_toItem levels

/-- Artifacts with the same contents have the same bytes. -/
theorem Same.encode_eq {a b : Artifact} (h : a.Same b)
    (hnames : ∀ l ∈ b.symbols, DistinctNames l) : a.encode = b.encode := by
  have hsymbols : symbolsItem a.symbols = symbolsItem b.symbols := by
    have hrel := h.symbols
    generalize a.symbols = s at hrel ⊢
    generalize b.symbols = t at hrel hnames ⊢
    cases hrel with
    | none => rfl
    | some hperm =>
      have hsorted := sortedSymbols_eq hperm.symm (hnames _ rfl)
      unfold sortedSymbols at hsorted
      rw [symbolsItem, symbolsItem, hsorted]
  unfold encode toItem
  rw [h.arch, h.resultType, h.source, h.code, h.data, h.codeBase, h.dataBase, hsymbols]

/-- An artifact survives the exchange: its bytes are read as one with the same contents, and every
artifact with these contents has these bytes. -/
theorem exchange_keeps_artifact {a : Artifact} (h : a.Exchangeable) :
    (∃ b, decode a.encode = some b ∧ b.Same a) ∧
      ∀ b : Artifact, b.Same a → b.encode = a.encode := by
  constructor
  · refine ⟨a.ordered, ?_, a.same_ordered⟩
    rw [decode, encode, Cbor.decode_encode (fits_toItem h _)]
    exact ofItem?_toItem h
  · intro b hb
    exact hb.encode_eq fun l hl => (h.symbols l hl).2.1

/-- Empty code and absent data stay apart, and the order of two symbols does not show. -/
theorem exchange_keeps_absent_data :
    let a : Artifact :=
      { arch := utf8 "arm64", resultType := utf8 "string", source := utf8 "'ä' + 'b'"
        code := some [], data := none, codeBase := 0xffffffffffffffff
        symbols := some [(utf8 "pow", 1), (utf8 "fmod", 0)] }
    a.Exchangeable ∧ (∃ b, decode a.encode = some b ∧ b.Same a) ∧
      ({ a with symbols := some [(utf8 "fmod", 0), (utf8 "pow", 1)] } : Artifact).encode =
        a.encode := by
  intro a
  have ha : a.Exchangeable := by
    constructor
    · exact ⟨by decide +kernel, by decide +kernel⟩
    · exact ⟨by decide +kernel, by decide +kernel⟩
    · exact ⟨by decide +kernel, by decide +kernel⟩
    · intro b hb
      cases hb
      decide
    · intro b hb
      cases hb
    · intro symbols hs
      cases hs
      have hvalid : Valid (utf8 "pow") ∧ Valid (utf8 "fmod") :=
        ⟨⟨by decide +kernel, by decide +kernel⟩, by decide +kernel, by decide +kernel⟩
      refine ⟨by decide, by unfold DistinctNames; decide +kernel, ?_⟩
      simpa using hvalid
  obtain ⟨hread, hsame⟩ := exchange_keeps_artifact ha
  refine ⟨ha, hread, hsame _ ⟨rfl, rfl, rfl, rfl, rfl, rfl, rfl, ?_⟩⟩
  exact .some (List.Perm.swap ..)

end OnePass.Artifact
