import OnePass.Proofs.Text.Rune
import OnePass.Proofs.Token.Lexing

/-!
# Writing string literals

A literal can denote every valid text without a zero byte. Backslashes, quotes and line ends are
escaped, and tabs and carriage returns may be. The end of a literal is found by bytes while escapes
are resolved by code points; both agree, since all that has a meaning of its own is in ASCII and no
longer sequence has an ASCII byte in it.
-/

set_option autoImplicit false

namespace OnePass

open Text

namespace Lexeme

def escapeLetter? (quote b : UInt8) : Option UInt8 :=
  if b = 0x5c ∨ b = quote then some b
  else if b = newline then some 0x6e
  else if b = 0x09 then some 0x74
  else if b = 0x0d then some 0x72
  else none

/-- The second text is the first one, escaped for a literal between such quotes. -/
inductive Escaped (quote : UInt8) : Text → Text → Prop where
  | nil : Escaped quote [] []
  | plain {b : UInt8} {s e : Text} (hb : b ≠ 0x5c) (hq : b ≠ quote) (hn : b ≠ newline)
      (h : Escaped quote s e) : Escaped quote (b :: s) (b :: e)
  | escape {b letter : UInt8} {s e : Text} (hl : escapeLetter? quote b = some letter)
      (h : Escaped quote s e) : Escaped quote (b :: s) (0x5c :: letter :: e)

theorem exists_escaped (quote : UInt8) (s : Text) : ∃ e, Escaped quote s e := by
  induction s with
  | nil => exact ⟨[], .nil⟩
  | cons b s ih =>
    obtain ⟨e, he⟩ := ih
    cases hl : escapeLetter? quote b with
    | some letter => exact ⟨0x5c :: letter :: e, .escape hl he⟩
    | none =>
      obtain ⟨hb, hq, hn⟩ : b ≠ 0x5c ∧ b ≠ quote ∧ b ≠ newline := by
        unfold escapeLetter? at hl
        grind
      exact ⟨b :: e, .plain hb hq hn he⟩

theorem unescape_cons {c : Char} (hc : c.toNat ≠ 0x5c) (cs : List Char) :
    unescape (c :: cs) = c :: unescape cs := by
  cases cs with
  | nil => rfl
  | cons d cs => rw [unescape, if_neg hc]

section Quotes

variable {quote : UInt8} (hquote : quote = 0x22 ∨ quote = 0x27)
include hquote

theorem escapeMeaning_letter {b letter : UInt8} (h : escapeLetter? quote b = some letter) :
    b < 0x80 ∧ letter < 0x80 ∧
      escapeMeaning (Char.ofNat letter.toNat) = [Char.ofNat b.toNat] := by
  unfold escapeLetter? at h
  split at h
  · cases h
    rename_i hb
    rcases hb with rfl | rfl
    · decide
    · rcases hquote with rfl | rfl <;> decide
  · split at h
    · cases h
      subst b
      decide
    · split at h
      · cases h
        subst b
        decide
      · split at h
        · cases h
          subst b
          decide
        · cases h

/-- A sequence outside of ASCII stays as it is. -/
theorem Escaped.of_append_high {u t e : Text} (h : Escaped quote (u ++ t) e)
    (hu : ∀ b ∈ u, 0x80 ≤ b) : ∃ e', e = u ++ e' ∧ Escaped quote t e' := by
  induction u generalizing e with
  | nil => exact ⟨e, rfl, h⟩
  | cons b u ih =>
    rw [List.forall_mem_cons] at hu
    cases h with
    | plain hb hq hn h =>
      obtain ⟨e', rfl, he'⟩ := ih h hu.2
      exact ⟨e', rfl, he'⟩
    | escape hl h =>
      have hlow := (escapeMeaning_letter hquote hl).1
      exact absurd hlow (UInt8.not_lt.2 hu.1)

/-- The end of the body is found behind all escapes. -/
theorem bodyEnd_escaped {s e : Text} (h : Escaped quote s e) (rest : Text) :
    bodyEnd quote (e ++ quote :: rest) = (.closed, e.length) := by
  have hb : (0x5c : UInt8) ≠ quote := by
    rcases hquote with rfl | rfl <;> decide
  have hn : (0x5c : UInt8) ≠ newline := by decide
  induction h with
  | nil => exact bodyEnd_quote rest
  | plain hb hq hn _ ih => simp [bodyEnd_other hq hn hb, ih]
  | escape _ _ ih => simp [bodyEnd, hb, hn, ih]

/-- Escapes are resolved to the text that was escaped. -/
theorem unescape_runes {s e : Text} (hs : isValidUtf8 s) (h : Escaped quote s e) :
    unescape (runes e) = runes s := by
  refine valid_induction (P := fun s => ∀ e, Escaped quote s e → unescape (runes e) = runes s)
    ?_ ?_ hs e h
  · intro e h
    cases h
    rfl
  · intro u c t hu _ ih e h
    rw [hu.runes]
    rcases hu.plain with ⟨a, rfl, ha, rfl⟩ | hhigh
    · cases h with
      | plain hb hq hn h =>
        have hc : (Char.ofNat a.toNat).toNat ≠ 0x5c := by
          intro hc
          rw [Char.toNat, toNat_ofNat (.inl (by have := UInt8.toNat_lt a; omega))] at hc
          exact hb (UInt8.toNat_inj.1 hc)
        rw [runes_ascii ha, unescape_cons hc, ih _ h]
      | escape hl h =>
        obtain ⟨-, hletter, hmeaning⟩ := escapeMeaning_letter hquote hl
        rw [runes_ascii (by decide), runes_ascii hletter, unescape, if_pos (by decide), hmeaning,
          ih _ h]
        rfl
    · obtain ⟨e, rfl, he⟩ := h.of_append_high hquote hhigh
      have hc : c.toNat ≠ 0x5c := by
        intro hc
        have hbytes : u = [0x5c] := by
          rw [← hu.bytes, ← Char.ofNat_toNat c, hc]
          rfl
        exact absurd (hhigh 0x5c (by simp [hbytes])) (by decide)
      rw [hu.runes, unescape_cons hc, ih _ he]

theorem scanString_escaped {s e : Text} (hs : isValidUtf8 s) (hzero : 0 ∉ s)
    (h : Escaped quote s e) : scanString quote (e ++ [quote]) = (.string s, e.length + 2) := by
  rw [scanString_of_closed (bodyEnd_escaped hquote h []), List.take_left, ofBody,
    unescape_runes hquote hs h, ofRunes_runes hs, if_neg (by simpa using hzero)]

end Quotes

end Lexeme

/-- Every valid text without a zero byte can be escaped, and a literal that holds the text escaped
in any way is one token with this text as its value. -/
theorem string_literals_denote_every_text {quote : UInt8} (hquote : quote = 0x22 ∨ quote = 0x27)
    {s : Text} (hs : isValidUtf8 s) (hzero : 0 ∉ s) :
    (∃ e, Lexeme.Escaped quote s e) ∧
      ∀ e, Lexeme.Escaped quote s e →
        tokenize (quote :: e ++ [quote]) =
          [⟨.string s, ⟨1, 1, (quote :: e ++ [quote]).length⟩⟩,
            ⟨.endOfInput, ⟨1, 1 + (quote :: e ++ [quote]).length, 0⟩⟩] := by
  refine ⟨Lexeme.exists_escaped quote s, ?_⟩
  intro e he
  have hblank : ¬isBlank quote := by
    rcases hquote with rfl | rfl <;> decide
  have hscan : Lexeme.scan quote (e ++ [quote]) = (.string s, e.length + 2) := by
    rw [← Lexeme.scanString_escaped hquote hs hzero he]
    rcases hquote with rfl | rfl <;> rfl
  have hlength : (quote :: e ++ [quote]).length = e.length + 2 := by simp
  have hread := tokensFrom_lexeme ⟨1, 1⟩ hblank (e ++ [quote])
  rw [hscan, List.drop_of_length_le (by simp), tokensFrom] at hread
  rw [hlength]
  exact hread

/-- Two backslashes, a letter of two bytes before a quote, a line end and a tab that stays. -/
theorem string_literal_of_escapes :
    isValidUtf8 (utf8 "\\\\é\"\n\t") ∧ 0 ∉ utf8 "\\\\é\"\n\t" ∧
      tokenize (utf8 "\"\\\\\\\\é\\\"\\n\t\"") =
        [⟨.string (utf8 "\\\\é\"\n\t"), ⟨1, 1, 13⟩⟩, ⟨.endOfInput, ⟨1, 14, 0⟩⟩] := by
  have hvalid : isValidUtf8 (utf8 "\\\\é\"\n\t") := by decide +kernel
  have hzero : 0 ∉ utf8 "\\\\é\"\n\t" := by decide +kernel
  have hescaped : Lexeme.Escaped 0x22 (utf8 "\\\\é\"\n\t") (utf8 "\\\\\\\\é\\\"\\n\t") := by
    refine .escape (by decide) (.escape (by decide) (.plain ?_ ?_ ?_ (.plain ?_ ?_ ?_
      (.escape (by decide) (.escape (by decide) (.plain ?_ ?_ ?_ .nil)))))) <;> decide
  refine ⟨hvalid, hzero, ?_⟩
  exact (string_literals_denote_every_text (.inl rfl) hvalid hzero).2 _ hescaped

end OnePass
