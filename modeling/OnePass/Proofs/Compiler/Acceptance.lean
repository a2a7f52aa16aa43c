import OnePass.Proofs.Compiler.Compilation
import OnePass.Proofs.Compiler.Targets

/-!
# Which tokens compile

With all routines there and room enough in the buffers, compilation accepts the typed sentences of
the grammar that are not nested too deep, with their types, and nothing else.
-/

set_option autoImplicit false

namespace OnePass

open Grammar (Derivation sentence)

theorem Arch.exists_encoder {arch : Arch} {target : Target} (h : arch.target? = some target) :
    Nonempty (Encoder target) := by
  cases arch with
  | x86 =>
    cases h
    exact ⟨X86.encoder⟩
  | arm64 =>
    cases h
    exact ⟨Arm64.encoder⟩
  | _ => cases h

namespace Linkage

variable (l : Linkage) (depth : Nat)

theorem length_operandsCode_le (left right : Ty) (c : Coercion) :
    (l.operandsCode left right depth c).length ≤ 6 := by
  have hpop {freg reg : Text} {ty : Ty} {k : Nat} : (popAsFloatCode freg reg ty k).length ≤ 3 := by
    unfold popAsFloatCode
    split <;> exact Nat.le_of_ble_eq_true rfl
  cases c with
  | int | concat => exact Nat.le_of_ble_eq_true rfl
  | float =>
    rw [operandsCode, List.length_append]
    exact Nat.add_le_add hpop hpop

theorem length_computeCode_le (c : Coercion) (op : Operator) : (l.computeCode c op).length ≤ 2 := by
  unfold computeCode
  split
  · exact Nat.le_of_ble_eq_true rfl
  · split <;> exact Nat.le_of_ble_eq_true rfl

theorem length_binaryCode_le (op : Operator) (left right : Ty) :
    (l.binaryCode op left right depth).length ≤ 11 := by
  unfold binaryCode
  split
  · exact Nat.le_of_ble_eq_true rfl
  · rename_i result c _
    have hoperands := l.length_operandsCode_le depth left right c
    have hcompute := l.length_computeCode_le c op
    have hpush : (l.pushCode result depth).length = 2 := rfl
    simp only [List.length_cons, List.length_append, List.length_map]
    omega

theorem length_signCode_le (op : Operator) (ty : Ty) : (l.signCode op ty depth).length ≤ 5 := by
  cases op <;> cases ty <;> exact Nat.le_of_ble_eq_true rfl

theorem constantRoom_binaryCode (op : Operator) (left right : Ty) :
    constantRoom (l.binaryCode op left right depth) = 0 := by
  have hpop (freg reg : Text) (ty : Ty) (k : Nat) :
      constantRoom (popAsFloatCode freg reg ty k) = 0 := by
    unfold popAsFloatCode
    split <;> rfl
  unfold binaryCode
  split
  · rfl
  · rename_i result c _
    have hoperands : constantRoom (l.operandsCode left right depth c) = 0 := by
      cases c with
      | int | concat => rfl
      | float => rw [operandsCode, constantRoom_append, hpop, hpop]
    rw [constantRoom, constantRoom_append, constantRoom_append, hoperands,
      constantRoom_operations]
    rfl

theorem constantRoom_signCode (op : Operator) (ty : Ty) :
    constantRoom (l.signCode op ty depth) = 0 := by
  cases op <;> cases ty <;> rfl

end Linkage

/-- Room for the constant of a lexeme, wherever it starts. -/
def Lexeme.room : Lexeme → Nat
  | .float _ _ => 15
  | .string s => 8 + s.length
  | _ => 0

def dataRoom : List Lexeme → Nat
  | [] => 0
  | l :: ls => l.room + dataRoom ls

@[simp] theorem dataRoom_append (ls ls' : List Lexeme) :
    dataRoom (ls ++ ls') = dataRoom ls + dataRoom ls' := by
  induction ls with
  | nil => exact (Nat.zero_add _).symm
  | cons l ls ih => rw [List.cons_append, dataRoom, dataRoom, ih, Nat.add_assoc]

/-- Room for the code of a sentence: no lexeme calls for more than eleven actions, and the function
around them for four. -/
def codeRoom (ls : List Lexeme) : Nat := operationRoom * (11 * ls.length + 4)

section Room

variable (l : Linkage)

theorem length_code_le {c : Grammar.Category} (d : Derivation c) (depth : Nat) :
    (d.expr.code l depth).length ≤ 11 * d.lexemes.length := by
  induction d generalizing depth with
  | literal a => cases a <;> exact Nat.le_of_ble_eq_true rfl
  | parens d ih =>
    have hd := ih depth
    simp only [Derivation.expr, Derivation.lexemes, List.length_cons, List.length_append]
    omega
  | atom d ih | factor d ih | term d ih => exact ih depth
  | sign s d ih =>
    have hd := ih depth
    have hs := l.length_signCode_le depth s.operator d.expr.ty
    simp only [Derivation.expr, Derivation.lexemes, Expr.code, List.length_cons, List.length_append]
    omega
  | multiply a o b iha ihb | add a o b iha ihb =>
    have ha := iha depth
    have hb := ihb (depth + 1)
    have ho := l.length_binaryCode_le depth o.operator a.expr.ty b.expr.ty
    simp only [Derivation.expr, Derivation.lexemes, Expr.code, List.length_cons, List.length_append]
    omega

theorem constantRoom_code {c : Grammar.Category} (d : Derivation c) (depth : Nat) :
    constantRoom (d.expr.code l depth) = dataRoom d.lexemes := by
  induction d generalizing depth with
  | literal a => cases a <;> rfl
  | parens d ih =>
    rw [Derivation.expr, ih]
    simp [dataRoom, Derivation.lexemes, Lexeme.room]
  | atom d ih | factor d ih | term d ih => exact ih depth
  | sign s d ih =>
    rw [Derivation.expr, Expr.code, constantRoom_append, l.constantRoom_signCode, ih]
    cases s <;> simp [dataRoom, Derivation.lexemes, Grammar.Additive.lexeme, Lexeme.room]
  | multiply a o b iha ihb =>
    rw [Derivation.expr, Expr.code, constantRoom_append, constantRoom_append,
      l.constantRoom_binaryCode, iha, ihb]
    cases o <;> simp [dataRoom, Derivation.lexemes, Grammar.Multiplicative.lexeme, Lexeme.room]
  | add a o b iha ihb =>
    rw [Derivation.expr, Expr.code, constantRoom_append, constantRoom_append,
      l.constantRoom_binaryCode, iha, ihb]
    cases o <;> simp [dataRoom, Derivation.lexemes, Grammar.Additive.lexeme, Lexeme.room]

theorem constantRoom_resultCode (ty : Ty) : constantRoom (l.resultCode ty) = 0 := by
  unfold Linkage.resultCode
  split <;> rfl

theorem length_constants_function_le (d : Derivation .expression) (offset : Nat) :
    (constants offset (d.expr.function l)).length ≤ dataRoom d.lexemes := by
  refine Nat.le_trans (length_constants_le offset _) (Nat.le_of_eq ?_)
  rw [Expr.function, constantRoom, constantRoom_append, Expr.body, constantRoom_append,
    constantRoom_code, constantRoom_resultCode]
  exact Nat.zero_add _

theorem length_encode_function_le {target : Target} (E : Encoder target)
    (d : Derivation .expression) (base : UInt64) (offset : Nat) :
    (E.encode (linked base offset (d.expr.function l))).length ≤ codeRoom d.lexemes := by
  have hresult : (l.resultCode d.expr.ty).length = 2 := by
    unfold Linkage.resultCode
    split <;> rfl
  have hactions : (d.expr.function l).length ≤ 11 * d.lexemes.length + 4 := by
    have hcode := length_code_le l d 0
    simp only [Expr.function, Expr.body, List.length_cons, List.length_append, List.length_nil,
      hresult]
    omega
  calc (E.encode (linked base offset (d.expr.function l))).length
    _ ≤ operationRoom * (linked base offset (d.expr.function l)).length := E.length_encode_le _
    _ ≤ codeRoom d.lexemes :=
      Nat.mul_le_mul_left _ (Nat.le_trans (length_linked_le base offset _) hactions)

end Room

theorem Buffer.Fits.mono {b : Buffer} {m n : Nat} (h : b.Fits n) (hm : m ≤ n) : b.Fits m := by
  unfold Buffer.Fits at *
  omega

/-- What compiles does so in buffers that have room for its sentence. -/
theorem ok_of_room {target : Target} (E : Encoder target) {symbols : Symbols} {tokens : List Token}
    {code data : Buffer} (hc : code.Ready) (hd : data.Ready)
    (hcode : code.Fits (codeRoom (sentence tokens)))
    (hdata : data.Fits (dataRoom (sentence tokens))) {d : Derivation .expression}
    (hl : d.lexemes = sentence tokens) (hn : d.nesting ≤ Generate.maxNesting) {t : Ty}
    (ht : d.expr.compiles? symbols = some t) (verbose : Bool) :
    (compileTokens target symbols tokens code data verbose).outcome = .ok t := by
  rw [← hl] at hcode hdata
  exact ok_of_fits E hc hd hl hn ht (hdata.mono (length_constants_function_le _ d _))
    (hcode.mono (length_encode_function_le _ E d _ _))

/-- Compilation accepts exactly the typed sentences of the grammar, each with one derivation, when
the buffers have the room that their lexemes call for. -/
theorem compileTokens_accepts_typed_sentences {arch : Arch} {target : Target}
    (ha : arch.target? = some target) {symbols : Symbols} (hs : ∀ r, symbols.address r ≠ 0)
    {tokens : List Token} {code data : Buffer} (hc : code.Ready) (hd : data.Ready)
    (hcode : code.Fits (codeRoom (sentence tokens)))
    (hdata : data.Fits (dataRoom (sentence tokens))) (verbose : Bool) (t : Ty) :
    (compileTokens target symbols tokens code data verbose).outcome = .ok t ↔
      ∃ d : Derivation .expression, d.lexemes = sentence tokens ∧
        d.nesting ≤ 1000 ∧ d.expr.type? = some t ∧
        ∀ d' : Derivation .expression, d'.lexemes = sentence tokens → d' = d := by
  obtain ⟨E⟩ := Arch.exists_encoder ha
  constructor
  · intro h
    obtain ⟨d, hd'⟩ := compiled_of_ok E hc hd h
    exact ⟨d, hd'.lexemes, hd'.nesting, Expr.type?_of_compiles? hd'.type,
      fun d' hl => Grammar.derivation_unique (hl.trans hd'.lexemes.symm)⟩
  · rintro ⟨d, hl, hn, ht, -⟩
    rw [← Expr.compiles?_eq_type? hs] at ht
    exact ok_of_room E hc hd hcode hdata hl hn ht verbose

/-- A sum of an integer and a double is accepted, as a double; a difference of an integer and a text
is a sentence, but has no type. -/
theorem compileTokens_accepts_mixed_sum :
    (compileTokens X86.target ⟨1, 2, 3⟩ (tokenize (utf8 "1 + 2.5"))
      (.create (utf8 "code") 8192 0) (.create (utf8 "data") 64 0x10000)).outcome = .ok .float ∧
    ∀ t, (compileTokens Arm64.target ⟨1, 2, 3⟩ (tokenize (utf8 "1 - 'a'"))
      (.create (utf8 "code") 8192 0) (.create (utf8 "data") 64 0x10000)).outcome ≠ .ok t := by
  have hs : ∀ r, Symbols.address ⟨1, 2, 3⟩ r ≠ 0 := by
    intro r
    cases r <;> decide
  have hcode : (Buffer.create (utf8 "code") 8192 0).Ready := Buffer.ready_create _ _ (by decide)
  have hdata : (Buffer.create (utf8 "data") 64 0x10000).Ready :=
    Buffer.ready_create _ _ (by decide)
  have hsum : (Derivation.add (.term (.factor (.atom (.literal (.int 1 (utf8 "1")))))) .plus
      (.factor (.atom (.literal (.float ⟨0x4004000000000000⟩ (utf8 "2.5")))))).lexemes =
      sentence (tokenize (utf8 "1 + 2.5")) := by
    decide +kernel
  have hdifference : (Derivation.add (.term (.factor (.atom (.literal (.int 1 (utf8 "1")))))) .minus
      (.factor (.atom (.literal (.string (utf8 "a")))))).lexemes =
      sentence (tokenize (utf8 "1 - 'a'")) := by
    decide +kernel
  have hx86 : Arch.x86.target? = some X86.target := rfl
  have harm64 : Arch.arm64.target? = some Arm64.target := rfl
  constructor
  · refine (compileTokens_accepts_typed_sentences hx86 hs hcode hdata ?_ ?_ true
      .float).2 ⟨_, hsum, by decide, by decide, fun d' hd' =>
        Grammar.derivation_unique (hd'.trans hsum.symm)⟩
    · rw [← hsum]
      exact Buffer.fits_create_iff.2 (by decide)
    · rw [← hsum]
      exact Buffer.fits_create_iff.2 (by decide)
  · intro t ht
    obtain ⟨d, hl, -, htype, -⟩ := (compileTokens_accepts_typed_sentences harm64 hs
      hcode hdata (by rw [← hdifference]; exact Buffer.fits_create_iff.2 (by decide))
      (by rw [← hdifference]; exact Buffer.fits_create_iff.2 (by decide)) true t).1 ht
    obtain rfl := Grammar.derivation_unique (hl.trans hdifference.symm)
    cases htype

end OnePass
