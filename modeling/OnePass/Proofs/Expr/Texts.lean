import OnePass.Proofs.Expr.Parsing
import OnePass.Token.Lexer

/-!
# Texts without zero bytes

A zero byte ends a text in memory, so none may be inside. Sources yield no string with a zero byte,
however it is escaped, and neither do the expressions that are read from them. The tokens of a
source are its sentence and the end of input.
-/

set_option autoImplicit false

namespace OnePass

def Lexeme.ZeroFree : Lexeme → Prop
  | .string s => 0 ∉ s
  | _ => True

def Lexeme.Scanned : Lexeme → Prop
  | .string s => 0 ∉ s
  | .endOfInput => False
  | _ => True

def Expr.ZeroFree : Expr → Prop
  | .string s => 0 ∉ s
  | .sign _ e => e.ZeroFree
  | .binary _ a b => a.ZeroFree ∧ b.ZeroFree
  | _ => True

namespace Lexeme

theorem Scanned.zeroFree {l : Lexeme} (h : l.Scanned) : l.ZeroFree := by
  cases l with
  | string s => exact h
  | _ => trivial

theorem Scanned.ne_endOfInput {l : Lexeme} (h : l.Scanned) : l ≠ .endOfInput := by
  rintro rfl
  exact h

theorem scanned_scanString (quote : UInt8) (rest : Text) : (scanString quote rest).1.Scanned := by
  unfold scanString
  split
  · trivial
  · trivial
  · dsimp only
    split
    · trivial
    · rename_i hz
      simpa [Scanned] using hz

theorem scanned_scanPattern (base : Nat) (mark : UInt8) (rest : Text) :
    (scanPattern base mark rest).1.Scanned := by
  unfold scanPattern
  dsimp only
  split <;> trivial

theorem scanned_scanDecimal (s : Text) : (scanDecimal s).1.Scanned := by
  unfold scanDecimal
  dsimp only
  split
  · split <;> trivial
  · split <;> trivial

theorem scanned_scanNumber (d : UInt8) (rest : Text) : (scanNumber d rest).1.Scanned := by
  unfold scanNumber
  split
  · split
    · exact scanned_scanPattern ..
    · exact scanned_scanDecimal _
  · exact scanned_scanDecimal _

theorem scanned_ofWord (name : Text) : (ofWord name).Scanned := by
  unfold ofWord
  split
  · trivial
  · split
    · trivial
    · split <;> trivial

theorem scanned_scan (b : UInt8) (rest : Text) : (scan b rest).1.Scanned := by
  unfold scan
  split
  case h_3 => split <;> trivial
  case h_8 => exact scanned_scanString ..
  case h_9 => exact scanned_scanString ..
  case h_10 =>
    split
    · exact scanned_scanNumber ..
    · split
      · exact scanned_ofWord _
      · trivial
  all_goals trivial

end Lexeme

theorem zeroFree_tokensFrom (skip line column : Nat) (source : Text) :
    ∀ token ∈ tokensFrom skip line column source, token.lexeme.ZeroFree := by
  fun_induction tokensFrom skip line column source with
  | case1 => simp [Lexeme.ZeroFree]
  | case2 | case3 | case4 =>
    rename_i ih
    exact ih
  | case5 line column b rest _ _ lexeme length hscan ih =>
    refine List.forall_mem_cons.2 ⟨?_, ih⟩
    have hz := Lexeme.scanned_scan b rest
    rw [hscan] at hz
    exact hz.zeroFree

theorem zeroFree_tokenize (source : Text) : ∀ token ∈ tokenize source, token.lexeme.ZeroFree :=
  zeroFree_tokensFrom 0 1 1 source

namespace Grammar

theorem sentence_tokensFrom (skip line column : Nat) (source : Text) :
    (tokensFrom skip line column source).map Token.lexeme =
      sentence (tokensFrom skip line column source) ++ [Lexeme.endOfInput] := by
  fun_induction tokensFrom skip line column source with
  | case1 => simp [sentence]
  | case2 | case3 | case4 =>
    rename_i ih
    exact ih
  | case5 line column b rest _ _ lexeme length hscan ih =>
    have hs := Lexeme.scanned_scan b rest
    rw [hscan] at hs
    rw [sentence_cons hs.ne_endOfInput, List.map_cons, ih, List.cons_append]

/-- The tokens of a source are its sentence and the end of input. -/
theorem sentence_tokenize (source : Text) :
    (tokenize source).map Token.lexeme = sentence (tokenize source) ++ [Lexeme.endOfInput] :=
  sentence_tokensFrom 0 1 1 source

theorem Derivation.zeroFree {c : Category} (d : Derivation c)
    (h : ∀ l ∈ d.lexemes, l.ZeroFree) : d.expr.ZeroFree := by
  induction d with
  | literal x => cases x <;> first | trivial | exact h _ List.mem_cons_self
  | parens d ih => exact ih fun l hl => h l (by simp [lexemes, hl])
  | atom d ih | factor d ih | term d ih => exact ih h
  | sign s d ih => exact ih fun l hl => h l (by simp [lexemes, hl])
  | multiply a o b iha ihb | add a o b iha ihb =>
    exact ⟨iha fun l hl => h l (by simp [lexemes, hl]),
      ihb fun l hl => h l (by simp [lexemes, hl])⟩

theorem Derivation.zeroFree_of_source {source : Text} {d : Derivation .expression}
    (h : d.lexemes = sentence (tokenize source)) : d.expr.ZeroFree := by
  refine d.zeroFree fun l hl => ?_
  rw [h, sentence] at hl
  obtain ⟨token, ht, rfl⟩ := List.mem_map.1 ((List.takeWhile_prefix _).subset hl)
  exact zeroFree_tokenize source token ht

end Grammar

end OnePass
