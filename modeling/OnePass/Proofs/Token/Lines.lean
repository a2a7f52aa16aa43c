import OnePass.Proofs.Token.Lexing
import OnePass.Session

/-!
# Texts that are joined by a line end

A line end stops every scanner in the way the end of the text does, unless it stands in a literal
that was not closed. So a text without illegal lexemes keeps its tokens when more lines follow, and
these are read as they would be alone, further down.
-/

set_option autoImplicit false

namespace OnePass

open Text

namespace Lexeme

def isIllegal : Lexeme → Bool
  | .illegal _ => true
  | _ => false

section Stops

variable (x y : Text)

theorem takeWhile_newline {p : UInt8 → Bool} (hp : p newline = false) :
    (x ++ newline :: y).takeWhile p = x.takeWhile p := by
  induction x with
  | nil => simp [hp]
  | cons b x ih => by_cases hb : p b <;> simp [hb, ih]

theorem fractionLength_newline : fractionLength (x ++ newline :: y) = fractionLength x := by
  rcases x with _ | ⟨b, _ | ⟨c, x⟩⟩
  · rfl
  · -- Behind a point, a line end is not the digit that a fraction needs.
    by_cases hb : b = 0x2e
    · subst hb
      rfl
    · simp [fractionLength, hb]
  · by_cases hb : b = 0x2e
    · subst hb
      simp [fractionLength, takeWhile_newline x y (p := isDigit) rfl]
    · simp [fractionLength, hb]

theorem signLength_newline : signLength (x ++ newline :: y) = signLength x := by
  cases x <;> rfl

theorem exponentLength_newline : exponentLength (x ++ newline :: y) = exponentLength x := by
  cases x with
  | nil => rfl
  | cons b x =>
    simp only [List.cons_append, exponentLength, signLength_newline,
      List.drop_append_of_le_length (signLength_le x),
      takeWhile_newline (x.drop (signLength x)) y (p := isDigit) rfl]

theorem decimalParts_newline : decimalParts (x ++ newline :: y) = decimalParts x := by
  unfold decimalParts
  simp only [takeWhile_newline x y (p := isDigit) rfl,
    List.drop_append_of_le_length (length_takeWhile_le isDigit x)]
  generalize x.drop (x.takeWhile isDigit).length = r
  simp only [fractionLength_newline, List.take_append_of_le_length (fractionLength_le r),
    List.drop_append_of_le_length (List.length_take_le' (fractionLength r) r)]
  generalize r.drop (r.take (fractionLength r)).length = q
  rw [exponentLength_newline, List.take_append_of_le_length (exponentLength_le q)]

theorem scanNumber_newline (d : UInt8) : scanNumber d (x ++ newline :: y) = scanNumber d x := by
  by_cases h : Marked d x
  · cases x with
    | nil => simp [Marked] at h
    | cons mark x =>
      obtain ⟨base, hscan⟩ := scanNumber_marked h
      rw [List.cons_append, hscan, hscan, scanPattern, scanPattern,
        takeWhile_newline x y (p := isHexDigit) rfl]
  · have h' : ¬Marked d (x ++ newline :: y) := by
      cases x with
      | nil => simp [Marked, markedBase?, newline]
      | cons mark x => exact h
    rw [scanNumber_plain h, scanNumber_plain h', scanDecimal_eq rfl, scanDecimal_eq rfl]
    exact congrArg (fun p => ofDecimalParts p.1 p.2.1 p.2.2) (decimalParts_newline (d :: x) y)

variable {x}

/-- The body of a literal that is closed ends there, whatever follows. -/
theorem bodyEnd_append_of_closed {quote : UInt8} (h : (bodyEnd quote x).1 = .closed) :
    bodyEnd quote (x ++ y) = bodyEnd quote x := by
  fun_induction bodyEnd quote x with
  | case1 => cases h
  | case2 x => exact bodyEnd_quote (x ++ y)
  | case3 => cases h
  | case4 => cases h
  | case5 b x hq hn ih => simp [bodyEnd, hq, hn, ih h]
  | case6 b x hq hn hb ih => simp [bodyEnd_other hq hn hb, ih h]

theorem scanString_append_of_legal {quote : UInt8} (h : (scanString quote x).1.isIllegal = false) :
    scanString quote (x ++ y) = scanString quote x := by
  cases hb : bodyEnd quote x with
  | mk e n =>
    by_cases he : e = .closed
    · subst he
      have hclosed : (bodyEnd quote x).1 = .closed := by rw [hb]
      have hy := (bodyEnd_append_of_closed y hclosed).trans hb
      have hle := bodyEnd_le quote x
      rw [hb] at hle
      rw [scanString_of_closed hb, scanString_of_closed hy, List.take_append_of_le_length hle]
    · obtain ⟨reason, hs⟩ := scanString_of_open hb he
      rw [hs] at h
      cases h

theorem scan_newline {b : UInt8} (h : (scan b x).1.isIllegal = false) :
    scan b (x ++ newline :: y) = scan b x := by
  unfold scan at h ⊢
  split at h
  case h_3 =>
    cases x with
    | nil => simp [newline]
    | cons c x => rfl
  case h_8 => exact scanString_append_of_legal _ h
  case h_9 => exact scanString_append_of_legal _ h
  case h_10 => simp only [scanNumber_newline, takeWhile_newline x y (p := continuesWord) rfl]
  all_goals rfl

end Stops

end Lexeme

def Token.lower (n : Int) (t : Token) : Token :=
  { t with location := { t.location with line := t.location.line + n } }

theorem tokensFrom_lower (n skip line column : Nat) (s : Text) :
    tokensFrom skip (line + n) column s = (tokensFrom skip line column s).map (Token.lower n) := by
  fun_induction tokensFrom skip line column s with
  | case1 => simp [tokensFrom, Token.lower]
  | case2 skip line column b s ih => rw [tokensFrom, ih]
  | case3 line column s ih =>
    rw [tokensFrom, if_pos rfl, Nat.add_right_comm, ih]
  | case4 line column b s hn hb ih => rw [tokensFrom, if_neg hn, if_pos hb, ih]
  | case5 line column b s hn hb lexeme length hscan ih =>
    rw [tokensFrom, if_neg hn, if_neg hb, hscan]
    simp [ih, Token.lower]

/-- What is read of a text without illegal lexemes stays when a line end and more text follow, and
reading goes on in the line below the one it had ended in. -/
theorem tokensFrom_newline {skip line column : Nat} {a : Text} (hskip : skip ≤ a.length)
    (ha : ∀ token ∈ tokensFrom skip line column a, token.lexeme.isIllegal = false) :
    ∃ before last finish, tokensFrom skip line column a =
        before ++ [⟨.endOfInput, ⟨(last : Nat), (finish : Nat), 0⟩⟩] ∧
      ∀ b, tokensFrom skip line column (a ++ newline :: b) =
        before ++ tokensFrom 0 (last + 1) 1 b := by
  fun_induction tokensFrom skip line column a with
  | case1 skip line column =>
    obtain rfl : skip = 0 := Nat.le_zero.1 hskip
    exact ⟨[], line, column, rfl, fun b => rfl⟩
  | case2 skip line column c a ih => exact ih (by simpa using hskip) ha
  | case3 line column a ih =>
    obtain ⟨before, last, finish, hread, hjoin⟩ := ih (Nat.zero_le _) ha
    refine ⟨before, last, finish, hread, fun b => ?_⟩
    rw [List.cons_append, tokensFrom, if_pos rfl, hjoin]
  | case4 line column c a hn hc ih =>
    obtain ⟨before, last, finish, hread, hjoin⟩ := ih (Nat.zero_le _) ha
    refine ⟨before, last, finish, hread, fun b => ?_⟩
    rw [List.cons_append, tokensFrom, if_neg hn, if_pos hc, hjoin]
  | case5 line column c a hn hc lexeme length hscan ih =>
    obtain ⟨hlegal, hrest⟩ := List.forall_mem_cons.1 ha
    have hlength := (Lexeme.length_scan c a).2
    rw [hscan] at hlength
    obtain ⟨before, last, finish, hread, hjoin⟩ := ih (Nat.sub_le_of_le_add hlength) hrest
    refine ⟨⟨lexeme, ⟨line, column, length⟩⟩ :: before, last, finish, by rw [hread]; rfl,
      fun b => ?_⟩
    have hsame : Lexeme.scan c (a ++ newline :: b) = (lexeme, length) := by
      rw [Lexeme.scan_newline b (by rwa [hscan]), hscan]
    rw [List.cons_append, tokensFrom, if_neg hn, if_neg hc, hsame]
    simp [hjoin]

namespace Session

inductive Waits (c : Context) : Session → Session → Prop where
  | refl (s : Session) : Waits c s s
  | line {s s' : Session} (l : Text) {source : Text}
      (h : Entry.ofSource (s.pending ++ l) = .unfinished source)
      (hs : Waits c (s.step c (.line l)).1 s') : Waits c s s'

variable {c : Context} {s s' : Session}

theorem source_of_unfinished {source a : Text} (h : Entry.ofSource source = .unfinished a) :
    source = a := by
  unfold Entry.ofSource at h
  dsimp only at h
  split at h
  · cases h
  · split at h
    · cases h
    · split at h
      · exact Entry.unfinished.inj h
      · cases h

theorem pending_of_unfinished {l a : Text} (h : Entry.ofSource (s.pending ++ l) = .unfinished a) :
    (s.step c (.line l)).1.pending = a ++ [newline] := by
  simp only [step, h]
  rfl

theorem Waits.pending (h : Waits c s s') : s.pending <+: s'.pending := by
  induction h with
  | refl s => exact List.prefix_refl _
  | line l h _ ih =>
    rw [pending_of_unfinished h, ← source_of_unfinished h, List.append_assoc] at ih
    exact (List.prefix_append _ _).trans ih

end Session

/-- With a line end and more text behind it, a text without illegal lexemes has the tokens that it
has alone, and the other text has those that it has alone, in lines further down. So however many
lines a session adds to those that wait, it reads these as before. -/
theorem joined_lines_keep_tokens (a : Text)
    (ha : ∀ token ∈ tokenize a, token.lexeme.isIllegal = false) :
    ∃ before finish, tokenize a = before ++ [⟨.endOfInput, finish⟩] ∧
      (∀ b, tokenize (a ++ newline :: b) =
        before ++ (tokenize b).map (Token.lower finish.line)) ∧
      ∀ (c : Context) (s s' : Session) (line next : Text),
        Entry.ofSource (s.pending ++ line) = .unfinished a →
        Session.Waits c (s.step c (.line line)).1 s' →
        ∃ more, s'.pending ++ next = a ++ newline :: more ∧
          tokenize (s'.pending ++ next) =
            before ++ (tokenize more).map (Token.lower finish.line) := by
  obtain ⟨before, last, finish, hread, hjoin⟩ := tokensFrom_newline (Nat.zero_le a.length) ha
  have htokens (b : Text) :
      tokenize (a ++ newline :: b) = before ++ (tokenize b).map (Token.lower last) := by
    rw [tokenize, hjoin, Nat.add_comm, tokensFrom_lower]
    rfl
  refine ⟨before, _, hread, htokens, ?_⟩
  intro c s s' line next hentry hwaits
  obtain ⟨more, hmore⟩ := hwaits.pending
  rw [Session.pending_of_unfinished hentry, List.append_assoc] at hmore
  have hsource : s'.pending ++ next = a ++ newline :: (more ++ next) := by
    rw [← hmore, List.append_assoc]
    rfl
  exact ⟨more ++ next, hsource, by rw [hsource, htokens]⟩

/-- A product and, in the line below, the rest of its parenthesis; the literal before it has an
escaped line end, which is not counted. -/
theorem open_product_keeps_tokens :
    (∀ token ∈ tokenize (utf8 "('\\\n' *"), token.lexeme.isIllegal = false) ∧
      tokenize (utf8 "('\\\n' *" ++ newline :: utf8 " 2)") =
        [⟨.leftParen, ⟨1, 1, 1⟩⟩, ⟨.string (utf8 "\\\n"), ⟨1, 2, 4⟩⟩, ⟨.star, ⟨1, 7, 1⟩⟩] ++
          (tokenize (utf8 " 2)")).map (Token.lower 1) := by
  have ha : ∀ token ∈ tokenize (utf8 "('\\\n' *"), token.lexeme.isIllegal = false := by
    decide +kernel
  have hread : tokenize (utf8 "('\\\n' *") =
      [⟨.leftParen, ⟨1, 1, 1⟩⟩, ⟨.string (utf8 "\\\n"), ⟨1, 2, 4⟩⟩, ⟨.star, ⟨1, 7, 1⟩⟩] ++
        [⟨.endOfInput, ⟨1, 8, 0⟩⟩] := by
    decide +kernel
  obtain ⟨before, finish, hbefore, htokens, -⟩ := joined_lines_keep_tokens _ ha
  obtain ⟨rfl, hlast⟩ := List.append_inj' (hread.symm.trans hbefore) rfl
  cases hlast
  exact ⟨ha, htokens _⟩

end OnePass
