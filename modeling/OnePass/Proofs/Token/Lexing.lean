import OnePass.Proofs.Token.Scanning

/-!
# Cutting a text into lexemes

Reading tokens cuts a text into lexemes and the blanks between them. No byte is lost or taken twice,
and every lexeme is one in its own right. Tokens stand where their lexemes do, as long as no lexeme
before them contains a line end.
-/

set_option autoImplicit false

namespace OnePass

open Text

def isBlank (b : UInt8) : Bool := b = 0x20 || b = 0x09 || b = 0x0d || b = 0x0a

structure Segment where
  blank : Text
  spelling : Text
  token : Token

namespace Segment

def bytes (s : Segment) : Text := s.blank ++ s.spelling

def masked (s : Segment) : Text := s.blank ++ fill s.spelling.length 0x20

/-- A segment with a lexeme in its own right: read alone, its bytes are one token of that kind, with
the same payload unless it is illegal. -/
structure Sound (s : Segment) : Prop where
  blank : ∀ b ∈ s.blank, isBlank b
  nonempty : s.spelling ≠ []
  length : s.token.location.length = s.spelling.length
  lexeme : s.token.lexeme ≠ .endOfInput
  alone : ∃ token finish, tokenize s.spelling = [token, ⟨.endOfInput, finish⟩] ∧
    s.token.lexeme.Alike token.lexeme

def EscapesLineEnd (s : Segment) : Prop :=
  ∃ quote rest, (quote = 0x22 ∨ quote = 0x27) ∧ s.spelling = quote :: rest ∧
    Lexeme.EscapesLineEnd rest

end Segment

structure Cut (source : Text) (segments : List Segment) (last : Text) : Prop where
  text : source = segments.flatMap Segment.bytes ++ last
  sound : ∀ s ∈ segments, s.Sound
  blank : ∀ b ∈ last, isBlank b

structure Place where
  line : Nat
  column : Nat
  deriving DecidableEq, Repr

namespace Place

def step (p : Place) (b : UInt8) : Place :=
  if b = newline then ⟨p.line + 1, 1⟩ else ⟨p.line, p.column + 1⟩

def past (p : Place) (s : Text) : Place := s.foldl step p

def location (p : Place) (length : Nat) : Location := ⟨p.line, p.column, length⟩

theorem past_append (p : Place) (s t : Text) : p.past (s ++ t) = (p.past s).past t :=
  List.foldl_append

theorem past_of_newline_free (p : Place) {s : Text} (h : newline ∉ s) :
    p.past s = ⟨p.line, p.column + s.length⟩ := by
  induction s generalizing p with
  | nil => rfl
  | cons b s ih =>
    have hb : b ≠ newline := fun hb => h (by simp [hb])
    have hs : newline ∉ s := fun hs => h (by simp [hs])
    change (p.step b).past s = _
    rw [ih _ hs, step, if_neg hb, List.length_cons, Nat.add_comm s.length, ← Nat.add_assoc]

theorem past_fill (p : Place) (n : Nat) : p.past (fill n 0x20) = ⟨p.line, p.column + n⟩ := by
  rw [past_of_newline_free]
  · simp [fill]
  · simp [fill, newline]

theorem past_reverse (s : Text) :
    past ⟨1, 1⟩ s.reverse = ⟨s.count newline + 1, (s.takeWhile (· != newline)).length + 1⟩ := by
  induction s with
  | nil => rfl
  | cons b s ih =>
    rw [List.reverse_cons, past_append, ih]
    by_cases hb : b = newline
    · simp [past, step, hb]
    · simp [past, step, hb]

/-- The place behind a text: one more line for each line end, and one more column for each byte
behind the last one. -/
theorem past_start (s : Text) :
    past ⟨1, 1⟩ s = ⟨s.count newline + 1, (s.reverse.takeWhile (· != newline)).length + 1⟩ := by
  simpa using past_reverse s.reverse

end Place

theorem tokensFrom_skip (line : Nat) {skip column : Nat} {s : Text} (h : skip ≤ s.length) :
    tokensFrom skip line column s = tokensFrom 0 line (column + skip) (s.drop skip) := by
  induction skip generalizing column s with
  | zero => rfl
  | succ skip ih =>
    cases s with
    | nil => simp at h
    | cons b s =>
      rw [tokensFrom, ih (by simpa using h), List.drop_succ_cons]
      congr 1
      omega

theorem tokensFrom_blank (p : Place) {w : Text} (hw : ∀ b ∈ w, isBlank b) (s : Text) :
    tokensFrom 0 p.line p.column (w ++ s) =
      tokensFrom 0 (p.past w).line (p.past w).column s := by
  induction w generalizing p with
  | nil => rfl
  | cons b w ih =>
    have hb := hw b (by simp)
    have hrest := ih (p.step b) fun c hc => hw c (by simp [hc])
    by_cases hn : b = newline
    · rw [List.cons_append, tokensFrom, if_pos hn]
      simpa [Place.past, Place.step, hn] using hrest
    · have hline : isLineBlank b := by simp_all [isBlank, isLineBlank, newline]
      rw [List.cons_append, tokensFrom, if_neg hn, if_pos hline]
      simpa [Place.past, Place.step, hn] using hrest

/-- A lexeme yields its token, at the place where it starts. -/
theorem tokensFrom_lexeme (p : Place) {b : UInt8} (hb : ¬isBlank b) (s : Text) :
    tokensFrom 0 p.line p.column (b :: s) =
      ⟨(Lexeme.scan b s).1, p.location (Lexeme.scan b s).2⟩ ::
        tokensFrom 0 p.line (p.column + (Lexeme.scan b s).2)
          (s.drop ((Lexeme.scan b s).2 - 1)) := by
  have hn : b ≠ newline := by
    rintro rfl
    exact hb rfl
  have hline : ¬isLineBlank b := by simp_all [isBlank, isLineBlank]
  obtain ⟨hpos, hle⟩ := Lexeme.length_scan b s
  rw [tokensFrom, if_neg hn, if_neg hline]
  dsimp only
  rw [tokensFrom_skip _ (by omega), Nat.add_assoc, Nat.add_sub_cancel' hpos]
  rfl

theorem tokenize_spelling {b : UInt8} (hb : ¬isBlank b) {x y : Text}
    (h : (Lexeme.scan b (x ++ y)).2 = x.length + 1) :
    ∃ token finish, tokenize (b :: x) = [token, ⟨.endOfInput, finish⟩] ∧
      (Lexeme.scan b (x ++ y)).1.Alike token.lexeme := by
  obtain ⟨hlength, halike⟩ := Lexeme.scan_alone h
  have hread := tokensFrom_lexeme ⟨1, 1⟩ hb x
  rw [hlength, Nat.add_sub_cancel, List.drop_length, tokensFrom] at hread
  exact ⟨_, _, hread, halike⟩

/-- A text that stands at a place, cut into segments and the blanks behind them. Each token is
placed by what comes before it; a lexeme moves the place along its line, whatever its bytes are. -/
inductive PlacedCut : Place → Text → List Segment → Text → Prop where
  | last {p : Place} {w : Text} (hw : ∀ b ∈ w, isBlank b) : PlacedCut p w [] w
  | lexeme {p : Place} {s : Segment} {rest : Text} {segments : List Segment} {last : Text}
      (sound : s.Sound) (escapes : newline ∈ s.spelling → s.EscapesLineEnd)
      (placed : s.token.location = (p.past s.blank).location s.spelling.length)
      (h : PlacedCut (p.past s.masked) rest segments last) :
      PlacedCut p (s.bytes ++ rest) (s :: segments) last

def Segment.first (p : Place) (w : Text) (b : UInt8) (s : Text) : Segment :=
  ⟨w, b :: s.take ((Lexeme.scan b s).2 - 1),
    ⟨(Lexeme.scan b s).1, (p.past w).location (Lexeme.scan b s).2⟩⟩

section First

variable (p : Place) {w : Text} {b : UInt8}

theorem Segment.length_first (w : Text) (b : UInt8) (s : Text) :
    (Segment.first p w b s).spelling.length = (Lexeme.scan b s).2 := by
  obtain ⟨hpos, hle⟩ := Lexeme.length_scan b s
  simp only [Segment.first, List.length_cons, List.length_take]
  omega

theorem Segment.bytes_first (w : Text) (b : UInt8) (s : Text) :
    (Segment.first p w b s).bytes ++ s.drop ((Lexeme.scan b s).2 - 1) = w ++ b :: s := by
  simp [Segment.first, Segment.bytes]

theorem Segment.sound_first (hw : ∀ c ∈ w, isBlank c) (hb : ¬isBlank b) (s : Text) :
    (Segment.first p w b s).Sound where
  blank := hw
  nonempty := by simp [Segment.first]
  length := by rw [Segment.length_first]; rfl
  lexeme := (Lexeme.scanned_scan b s).ne_endOfInput
  alone := by
    have hlength := Segment.length_first p w b s
    have hsplit := List.take_append_drop ((Lexeme.scan b s).2 - 1) s
    have halone := tokenize_spelling hb (x := s.take ((Lexeme.scan b s).2 - 1))
      (y := s.drop ((Lexeme.scan b s).2 - 1))
    rw [hsplit] at halone
    exact halone hlength.symm

theorem Segment.escapes_first (hb : ¬isBlank b) {s : Text}
    (h : newline ∈ (Segment.first p w b s).spelling) :
    (Segment.first p w b s).EscapesLineEnd := by
  have hmem : newline ∈ s.take ((Lexeme.scan b s).2 - 1) := by
    rcases List.mem_cons.1 h with hn | hmem
    · exact absurd (by rw [← hn]; rfl) hb
    · exact hmem
  obtain ⟨hquote, hrest⟩ := Lexeme.escapes_of_mem_scan hmem
  exact ⟨b, _, hquote, rfl, hrest⟩

theorem Segment.past_first (w : Text) (b : UInt8) (s : Text) :
    p.past (Segment.first p w b s).masked =
      ⟨(p.past w).line, (p.past w).column + (Lexeme.scan b s).2⟩ := by
  rw [Segment.masked, Place.past_append, Place.past_fill, Segment.length_first]
  rfl

end First

/-- Reading tokens cuts a text. -/
theorem exists_cut (p : Place) (source : Text) :
    ∃ segments last, PlacedCut p source segments last ∧
      tokensFrom 0 p.line p.column source = segments.map Segment.token ++
        [⟨.endOfInput, (p.past (segments.flatMap Segment.masked ++ last)).location 0⟩] := by
  have hsplit := List.takeWhile_append_dropWhile (p := isBlank) (l := source)
  have hw := Lexeme.forall_takeWhile isBlank source
  have hb := List.head?_dropWhile_not isBlank source
  generalize source.takeWhile isBlank = w at hsplit hw
  cases hd : source.dropWhile isBlank with
  | nil =>
    rw [hd, List.append_nil] at hsplit
    subst hsplit
    refine ⟨[], w, .last hw, ?_⟩
    have hread := tokensFrom_blank p hw []
    rw [List.append_nil, tokensFrom] at hread
    exact hread
  | cons b rest =>
    rw [hd] at hsplit hb
    have hshort : (rest.drop ((Lexeme.scan b rest).2 - 1)).length < source.length := by
      simp only [← hsplit, List.length_append, List.length_cons, List.length_drop]
      omega
    obtain ⟨segments, last, hcut, hread⟩ :=
      exists_cut (p.past (Segment.first p w b rest).masked) (rest.drop ((Lexeme.scan b rest).2 - 1))
    have hb : ¬isBlank b := by simpa using hb
    refine ⟨Segment.first p w b rest :: segments, last, ?_, ?_⟩
    · rw [← hsplit, ← Segment.bytes_first p w b rest]
      apply PlacedCut.lexeme (Segment.sound_first p hw hb rest) (Segment.escapes_first p hb) _ hcut
      rw [Segment.length_first]
      rfl
    · rw [← hsplit, tokensFrom_blank p hw, tokensFrom_lexeme _ hb]
      rw [Segment.past_first] at hread
      rw [hread, List.flatMap_cons, List.append_assoc, Place.past_append p, Segment.past_first]
      rfl
termination_by source.length
decreasing_by simpa using hshort

namespace PlacedCut

variable {p : Place} {source last : Text} {segments : List Segment}

theorem cut (h : PlacedCut p source segments last) : Cut source segments last := by
  induction h with
  | last hw => exact ⟨by simp, by simp, hw⟩
  | lexeme sound _ _ _ ih => exact ⟨by simp [ih.text], by simpa using ⟨sound, ih.sound⟩, ih.blank⟩

theorem escapes (h : PlacedCut p source segments last) :
    ∀ s ∈ segments, newline ∈ s.spelling → s.EscapesLineEnd := by
  induction h with
  | last hw => simp
  | lexeme _ escapes _ _ ih => simpa using ⟨escapes, ih⟩

theorem placed (h : PlacedCut p source segments last) {before after : List Segment} {s : Segment}
    (hs : segments = before ++ s :: after) :
    s.token.location =
      (p.past (before.flatMap Segment.masked ++ s.blank)).location s.spelling.length := by
  induction h generalizing before with
  | last hw => simp at hs
  | lexeme _ _ placed _ ih =>
    cases before with
    | nil =>
      obtain ⟨rfl, rfl⟩ := List.cons.inj hs
      exact placed
    | cons r before =>
      obtain ⟨rfl, hrest⟩ := List.cons.inj hs
      rw [ih hrest]
      simp only [List.flatMap_cons, List.append_assoc, Place.past_append]

end PlacedCut

/-- Reading tokens is total and loses nothing: the text is cut into lexemes and blanks, with one
token for each lexeme in its order and the end of input behind them. -/
theorem tokenize_loses_nothing (source : Text) :
    ∃ (segments : List Segment) (last : Text) (finish : Location), Cut source segments last ∧
      tokenize source = segments.map Segment.token ++ [⟨.endOfInput, finish⟩] := by
  obtain ⟨segments, last, hcut, hread⟩ := exists_cut ⟨1, 1⟩ source
  exact ⟨segments, last, _, hcut.cut, hread⟩

/-- The location of so many bytes behind a text: one line more than it has line ends, and one column
more than it has bytes behind the last of them. -/
def locationAfter (before : Text) (length : Nat) : Location :=
  ⟨before.count newline + 1, (before.reverse.takeWhile (· != newline)).length + 1, length⟩

theorem location_past (before : Text) (length : Nat) :
    (Place.past ⟨1, 1⟩ before).location length = locationAfter before length := by
  rw [Place.past_start]
  simp [Place.location, locationAfter]

/-- Where a token is said to be, with segments and blanks before it: where it would be if no lexeme
had a line end in it, so that it is where its bytes are exactly if none of them has one. -/
structure Located (before : List Segment) (blank : Text) (length : Nat) (l : Location) : Prop where
  masked : l = locationAfter (before.flatMap Segment.masked ++ blank) length
  exact_iff : l = locationAfter (before.flatMap Segment.bytes ++ blank) length ↔
    ∀ s ∈ before, newline ∉ s.spelling

theorem count_bytes (segments : List Segment) :
    (segments.flatMap Segment.bytes).count newline =
      (segments.flatMap Segment.masked).count newline +
        (segments.flatMap Segment.spelling).count newline := by
  induction segments with
  | nil => rfl
  | cons s segments ih =>
    have hfill : (fill s.spelling.length 0x20).count newline = 0 := by
      rw [fill, List.count_replicate]
      rfl
    simp only [List.flatMap_cons, Segment.bytes, Segment.masked, List.count_append, ih, hfill]
    omega

theorem past_bytes {segments : List Segment} (h : ∀ s ∈ segments, newline ∉ s.spelling)
    (p : Place) :
    p.past (segments.flatMap Segment.bytes) = p.past (segments.flatMap Segment.masked) := by
  induction segments generalizing p with
  | nil => rfl
  | cons s segments ih =>
    simp only [List.flatMap_cons, Segment.bytes, Segment.masked, Place.past_append]
    rw [Place.past_fill, Place.past_of_newline_free _ (h s (by simp))]
    exact ih (fun r hr => h r (by simp [hr])) _

theorem Located.of_masked {before : List Segment} {blank : Text} {length : Nat} {l : Location}
    (h : l = (Place.past ⟨1, 1⟩ (before.flatMap Segment.masked ++ blank)).location length) :
    Located before blank length l := by
  rw [location_past] at h
  refine ⟨h, ?_, ?_⟩
  · intro he s hs hn
    have hline := congrArg Location.line (h.symm.trans he)
    have hcount := count_bytes before
    have hspelled : (before.flatMap Segment.spelling).count newline = 0 := by
      simp only [locationAfter, List.count_append] at hline
      omega
    rw [List.count_eq_zero] at hspelled
    exact hspelled (List.mem_flatMap.2 ⟨s, hs, hn⟩)
  · intro hfree
    rw [h, ← location_past, ← location_past, Place.past_append, Place.past_append,
      past_bytes hfree]

/-- Every token is located by the line ends between lexemes. So it stands where its bytes do exactly
if no lexeme before it has a line end in it, which only an escape in a string literal can put
there. -/
theorem tokenize_locates_lexemes (source : Text) :
    ∃ (segments : List Segment) (last : Text) (finish : Location), Cut source segments last ∧
      tokenize source = segments.map Segment.token ++ [⟨.endOfInput, finish⟩] ∧
      (∀ before s after, segments = before ++ s :: after →
        Located before s.blank s.spelling.length s.token.location) ∧
      Located segments last 0 finish ∧
      ∀ s ∈ segments, newline ∈ s.spelling → s.EscapesLineEnd := by
  obtain ⟨segments, last, hcut, hread⟩ := exists_cut ⟨1, 1⟩ source
  refine ⟨segments, last, _, hcut.cut, hread, ?_, .of_masked rfl, hcut.escapes⟩
  intro before s after hs
  exact .of_masked (hcut.placed hs)

/-- The literal escapes a line end, so the number behind it starts the third column of the second
line; it is said to be in the sixth column of the first one. -/
theorem number_behind_escaped_line_end_is_misplaced :
    (tokenize [0x27, 0x5c, 0x0a, 0x27, 0x20, 0x31]).map Token.location =
        [⟨1, 1, 4⟩, ⟨1, 6, 1⟩, ⟨1, 7, 0⟩] ∧
      locationAfter [0x27, 0x5c, 0x0a, 0x27, 0x20] 1 = ⟨2, 3, 1⟩ := by
  decide +kernel

end OnePass
