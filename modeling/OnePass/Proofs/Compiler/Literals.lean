import OnePass.Proofs.Compiler.Operations
import OnePass.Proofs.Machine.Memory

/-!
# Literals in code and data

Doubles and texts are the constants of a source. They are laid out in the order in which they are
written, each at a multiple of eight; and the operations that load something are those of the
literals in the same order, the ones of constants with the addresses of these.
-/

set_option autoImplicit false

namespace OnePass

open Grammar (Derivation Literal)

inductive Constant where
  | float (x : Binary64)
  | text (s : Text)
  deriving DecidableEq, Repr

namespace Constant

def bytes : Constant → Bytes
  | .float x => littleEndian 8 x.bits.toNat
  | .text s => s ++ [0]

theorem length_bytes_pos (c : Constant) : 0 < c.bytes.length := by
  cases c with
  | float x => simp [bytes]
  | text s => simp [bytes]

/-- Memory yields the constant at an address: the double as a word, the text up to the first zero
byte. -/
def ReadAt (r : Ram) (a : UInt64) : Constant → Prop
  | .float x => r.word a = x.bits
  | .text s => ∀ limit, s.length < limit → r.text limit a = s

end Constant

def Lexeme.constant? : Lexeme → Option Constant
  | .float x _ => some (.float x)
  | .string s => some (.text s)
  | _ => none

/-- Constants behind `start` bytes: each is at its offset with less than eight zero bytes before it,
and there is nothing behind the last. -/
inductive Laid : Nat → List (Nat × Constant) → Bytes → Prop where
  | nil (start : Nat) : Laid start [] []
  | cons {start gap : Nat} {c : Constant} {rest : List (Nat × Constant)} {bytes : Bytes}
      (gap_lt : gap < 8) (behind : Laid (start + gap + c.bytes.length) rest bytes) :
      Laid start ((start + gap, c) :: rest) (List.replicate gap 0 ++ c.bytes ++ bytes)

def Operation.isLoad : Operation → Bool
  | .loadImmediate _ _ => true
  | .loadFloat _ _ => true
  | _ => false

/-- The loads of literals, one for each: words for themselves, constants by the address that their
offset has from `base`. -/
inductive Loaded (roles : Roles) (base : UInt64) :
    List Literal → List (Nat × Constant) → List Operation → Prop where
  | nil : Loaded roles base [] [] []
  | null {xs : List Literal} {ps : List (Nat × Constant)} {os : List Operation}
      (rest : Loaded roles base xs ps os) :
      Loaded roles base (.null :: xs) ps (.loadImmediate roles.accumulator 0 :: os)
  | bool (b : Bool) {xs : List Literal} {ps : List (Nat × Constant)} {os : List Operation}
      (rest : Loaded roles base xs ps os) :
      Loaded roles base (.bool b :: xs) ps
        (.loadImmediate roles.accumulator (if b then 1 else 0) :: os)
  | int (n : Int64) (spelling : Text) {xs : List Literal} {ps : List (Nat × Constant)}
      {os : List Operation} (rest : Loaded roles base xs ps os) :
      Loaded roles base (.int n spelling :: xs) ps
        (.loadImmediate roles.accumulator n.toUInt64 :: os)
  | float (x : Binary64) (spelling : Text) (offset : Nat) {xs : List Literal}
      {ps : List (Nat × Constant)} {os : List Operation} (rest : Loaded roles base xs ps os) :
      Loaded roles base (.float x spelling :: xs) ((offset, .float x) :: ps)
        (.loadFloat roles.floatAccumulator (base + UInt64.ofNat offset) :: os)
  | string (s : Text) (offset : Nat) {xs : List Literal} {ps : List (Nat × Constant)}
      {os : List Operation} (rest : Loaded roles base xs ps os) :
      Loaded roles base (.string s :: xs) ((offset, .text s) :: ps)
        (.loadImmediate roles.accumulator (base + UInt64.ofNat offset) :: os)

def Action.constant? : Action → Option Constant
  | .loadFloat _ x => some (.float x)
  | .loadText _ s => some (.text s)
  | _ => none

theorem constant?_of_constants_eq_nil {offset : Nat} {as : List Action}
    (h : constants offset as = []) : as.filterMap Action.constant? = [] := by
  induction as generalizing offset with
  | nil => rfl
  | cons a as ih =>
    obtain ⟨ha, has⟩ := List.append_eq_nil_iff.1 h
    have hnone : a.constant? = none := by
      cases a <;> simp_all [Action.constant, Action.constant?, littleEndian]
    rw [List.filterMap_cons_none hnone]
    exact ih has

def Linkage.load (l : Linkage) : Literal → Action
  | .null => .operation (.loadImmediate l.roles.accumulator 0)
  | .bool b => .operation (.loadImmediate l.roles.accumulator (if b then 1 else 0))
  | .int n _ => .operation (.loadImmediate l.roles.accumulator n.toUInt64)
  | .float x _ => .loadFloat l.roles.floatAccumulator x
  | .string s => .loadText l.roles.accumulator s

structure Loads (l : Linkage) (as : List Action) (xs : List Literal) : Prop where
  constants : ∀ offset, constants offset as = constants offset (xs.map l.load)
  linked : ∀ base offset,
    (linked base offset as).filter Operation.isLoad = linked base offset (xs.map l.load)
  stored : as.filterMap Action.constant? = xs.filterMap fun x => x.lexeme.constant?

namespace Loads

variable {l : Linkage}

theorem append {as bs : List Action} {xs ys : List Literal} (ha : Loads l as xs)
    (hb : Loads l bs ys) : Loads l (as ++ bs) (xs ++ ys) where
  constants offset := by
    rw [List.map_append, constants_append, constants_append, ha.constants, hb.constants]
  linked base offset := by
    rw [List.map_append, linked_append, linked_append, List.filter_append, ha.linked, hb.linked,
      ha.constants]
  stored := by rw [List.filterMap_append, List.filterMap_append, ha.stored, hb.stored]

theorem of_plain {as : List Action} {os : List Operation} (h : Plain as os)
    (ho : ∀ o ∈ os, o.isLoad = false) : Loads l as [] where
  constants := h.constants
  linked base offset := by
    rw [h.linked, List.filter_eq_nil_iff.2]
    · rfl
    · intro o hmem
      rw [ho o hmem]
      exact Bool.false_ne_true
  stored := constant?_of_constants_eq_nil (h.constants 0)

theorem pushCode (ty : Ty) (depth : Nat) : Loads l (l.pushCode ty depth) [] := by
  refine of_plain (plain_pushCode ty) (List.forall_mem_singleton.2 ?_)
  unfold pushed
  cases ty.isFloat <;> rfl

theorem isLoad_popAsFloat (freg reg : Text) (ty : Ty) :
    ∀ o ∈ popAsFloat freg reg ty, o.isLoad = false := by
  unfold popAsFloat
  split
  · exact List.forall_mem_singleton.2 rfl
  · exact List.forall_mem_cons.2 ⟨rfl, List.forall_mem_singleton.2 rfl⟩

theorem isLoad_operands (left right : Ty) (c : Coercion) :
    ∀ o ∈ operands l left right c, o.isLoad = false := by
  cases c with
  | int | concat => exact List.forall_mem_cons.2 ⟨rfl, List.forall_mem_singleton.2 rfl⟩
  | float =>
    exact List.forall_mem_append.2 ⟨isLoad_popAsFloat _ _ right, isLoad_popAsFloat _ _ left⟩

theorem isLoad_computeCode (c : Coercion) (op : Operator) :
    ∀ o ∈ l.computeCode c op, o.isLoad = false := by
  unfold Linkage.computeCode
  cases c.routine? op with
  | none => cases c <;> exact List.forall_mem_singleton.2 rfl
  | some r =>
    refine List.forall_mem_cons.2 ⟨rfl, List.forall_mem_singleton.2 ?_⟩
    cases r <;> rfl

theorem binaryCode (op : Operator) (left right : Ty) (depth : Nat) :
    Loads l (l.binaryCode op left right depth) [] := by
  cases hp : op.promote left right with
  | error f =>
    have hnil : l.binaryCode op left right depth = [] := by rw [Linkage.binaryCode, hp]
    rw [hnil]
    exact ⟨fun _ => rfl, fun _ _ => rfl, rfl⟩
  | ok r =>
    obtain ⟨t, c⟩ := r
    refine of_plain (plain_binaryCode hp) ?_
    refine List.forall_mem_append.2 ⟨List.forall_mem_append.2 ⟨isLoad_operands left right c,
      isLoad_computeCode c op⟩, List.forall_mem_singleton.2 ?_⟩
    unfold pushed
    cases t.isFloat <;> rfl

theorem signCode (op : Operator) (operand : Ty) (depth : Nat) :
    Loads l (l.signCode op operand depth) [] := by
  refine of_plain (plain_signCode op operand) ?_
  cases op <;> cases operand <;> simp [signed, pushed, Ty.isFloat, Operation.isLoad]

theorem resultCode (ty : Ty) : Loads l (l.resultCode ty) [] := by
  refine of_plain (plain_resultCode ty) (List.forall_mem_singleton.2 ?_)
  unfold popped
  cases ty.isFloat <;> rfl

theorem literal (x : Literal) (ty : Ty) (depth : Nat) :
    Loads l (l.load x :: l.pushCode ty depth) [x] := by
  have hload : Loads l [l.load x] [x] := by
    refine ⟨fun _ => rfl, fun base offset => ?_, ?_⟩
    · cases x <;> rfl
    · cases x <;> rfl
  exact hload.append (pushCode ty depth)

end Loads

def literals (ls : List Lexeme) : List Literal := ls.filterMap Literal.of?

theorem literals_append (as bs : List Lexeme) : literals (as ++ bs) = literals as ++ literals bs :=
  List.filterMap_append

/-- The code of a derivation loads its literals in the order in which they are written. -/
theorem Grammar.Derivation.loads (l : Linkage) {c : Grammar.Category} (d : Derivation c)
    (depth : Nat) : Loads l (d.expr.code l depth) (literals d.lexemes) := by
  induction d generalizing depth with
  | literal x =>
    cases x with
    | null => exact .literal .null .null depth
    | bool b => exact .literal (.bool b) .bool depth
    | int n spelling => exact .literal (.int n spelling) .int depth
    | float x spelling => exact .literal (.float x spelling) .float depth
    | string s => exact .literal (.string s) .string depth
  | parens d ih =>
    have hlit : literals (Derivation.parens d).lexemes = literals d.lexemes := by
      have hparens : (Derivation.parens d).lexemes =
          [Lexeme.leftParen] ++ d.lexemes ++ [Lexeme.rightParen] := rfl
      rw [hparens, literals_append, literals_append]
      exact List.append_nil _
    rw [hlit]
    exact ih depth
  | atom d ih | factor d ih | term d ih => exact ih depth
  | sign s d ih =>
    have hlit : literals (Derivation.sign s d).lexemes = literals d.lexemes ++ [] := by
      rw [List.append_nil]
      cases s <;> rfl
    rw [hlit]
    exact (ih depth).append (.signCode s.operator d.expr.ty depth)
  | multiply a o b iha ihb =>
    have hlit : literals (Derivation.multiply a o b).lexemes =
        literals a.lexemes ++ literals b.lexemes ++ [] := by
      rw [List.append_nil]
      cases o <;> exact literals_append ..
    rw [hlit]
    exact ((iha depth).append (ihb (depth + 1))).append
      (.binaryCode o.operator a.expr.ty b.expr.ty depth)
  | add a o b iha ihb =>
    have hlit : literals (Derivation.add a o b).lexemes =
        literals a.lexemes ++ literals b.lexemes ++ [] := by
      rw [List.append_nil]
      cases o <;> exact literals_append ..
    rw [hlit]
    exact ((iha depth).append (ihb (depth + 1))).append
      (.binaryCode o.operator a.expr.ty b.expr.ty depth)

theorem Grammar.Derivation.loads_function (l : Linkage) (d : Derivation .expression) :
    Loads l (d.expr.function l) (literals d.lexemes) := by
  have hone : ∀ {o : Operation}, o.isLoad = false → Loads l [.operation o] [] := fun ho =>
    .of_plain (plain_operations [_]) (List.forall_mem_singleton.2 ho)
  have h := (hone (o := .prologue) rfl).append
    (((d.loads l 0).append (.resultCode d.expr.ty)).append (hone (o := .epilogue) rfl))
  rw [List.nil_append, List.append_nil, List.append_nil] at h
  exact h

def placed (start : Nat) : List Literal → List (Nat × Constant)
  | [] => []
  | x :: xs =>
    match x.lexeme.constant? with
    | none => placed start xs
    | some c =>
      (start + eightPadding start, c) :: placed (start + eightPadding start + c.bytes.length) xs

theorem constant_load (l : Linkage) (start : Nat) (x : Literal) :
    (l.load x).constant start = match x.lexeme.constant? with
      | none => []
      | some c => List.replicate (eightPadding start) 0 ++ c.bytes := by
  cases x <;> rfl

theorem laid_placed (l : Linkage) (start : Nat) (xs : List Literal) :
    Laid start (placed start xs) (constants start (xs.map l.load)) := by
  induction xs generalizing start with
  | nil => exact .nil start
  | cons x xs ih =>
    rw [List.map_cons, constants, constant_load, placed]
    cases x.lexeme.constant? with
    | none => exact ih start
    | some c =>
      dsimp only
      rw [List.length_append, List.length_replicate, ← Nat.add_assoc]
      exact .cons (Nat.lt_succ_of_le (eightPadding_le start)) (ih _)

theorem map_snd_placed (start : Nat) (xs : List Literal) :
    (placed start xs).map Prod.snd = xs.filterMap fun x => x.lexeme.constant? := by
  induction xs generalizing start with
  | nil => rfl
  | cons x xs ih =>
    rw [placed, List.filterMap_cons]
    cases x.lexeme.constant? with
    | none => exact ih start
    | some c => exact congrArg (c :: ·) (ih _)

theorem dvd_placed (start : Nat) (xs : List Literal) : ∀ p ∈ placed start xs, 8 ∣ p.1 := by
  induction xs generalizing start with
  | nil => exact List.forall_mem_nil _
  | cons x xs ih =>
    rw [placed]
    cases x.lexeme.constant? with
    | none => exact ih start
    | some c =>
      refine List.forall_mem_cons.2 ⟨?_, ih _⟩
      dsimp only
      unfold eightPadding
      omega

/-- The loads of literals have the addresses of the constants. -/
theorem loaded_placed (l : Linkage) (base : UInt64) (start : Nat) (xs : List Literal) :
    Loaded l.roles base xs (placed start xs) (linked base start (xs.map l.load)) := by
  induction xs generalizing start with
  | nil => exact .nil
  | cons x xs ih =>
    -- Behind a constant, linking goes on from where the constant ends.
    have hnext : ∀ c, x.lexeme.constant? = some c →
        Loaded l.roles base xs (placed (start + eightPadding start + c.bytes.length) xs)
          (linked base (start + ((l.load x).constant start).length) (xs.map l.load)) := by
      intro c hc
      rw [constant_load, hc]
      dsimp only
      rw [List.length_append, List.length_replicate, ← Nat.add_assoc]
      exact ih _
    cases x with
    | null => exact .null (ih start)
    | bool b => exact .bool b (ih start)
    | int n spelling => exact .int n spelling (ih start)
    | float x spelling => exact .float x spelling _ (hnext (.float x) rfl)
    | string s => exact .string s _ (hnext (.text s) rfl)

namespace Laid

variable {start : Nat} {ps : List (Nat × Constant)} {bytes : Bytes}

theorem start_le (h : Laid start ps bytes) : ∀ p ∈ ps, start ≤ p.1 := by
  induction h with
  | nil start => exact List.forall_mem_nil _
  | @cons start gap c rest bytes _ _ ih =>
    refine List.forall_mem_cons.2 ⟨Nat.le_add_right _ _, ?_⟩
    intro p hp
    have hle := ih p hp
    omega

theorem append {qs : List (Nat × Constant)} {bytes' : Bytes} (h : Laid start ps bytes)
    (h' : Laid (start + bytes.length) qs bytes') : Laid start (ps ++ qs) (bytes ++ bytes') := by
  induction h with
  | nil start => exact h'
  | @cons start gap c rest bytes gap_lt _ ih =>
    rw [List.append_assoc _ bytes]
    refine .cons gap_lt (ih ?_)
    rw [List.length_append, List.length_append, List.length_replicate] at h'
    rwa [← Nat.add_assoc, ← Nat.add_assoc] at h'

/-- No two constants are at one place, and later ones are behind. -/
theorem pairwise (h : Laid start ps bytes) : (ps.map Prod.fst).Pairwise (· < ·) := by
  induction h with
  | nil start => exact List.Pairwise.nil
  | @cons start gap c rest bytes _ hrest ih =>
    rw [List.map_cons, List.pairwise_cons]
    refine ⟨?_, ih⟩
    intro offset ho
    obtain ⟨p, hp, rfl⟩ := List.mem_map.1 ho
    have hle := hrest.start_le p hp
    have hpos := c.length_bytes_pos
    dsimp only
    omega

end Laid

namespace Ram

theorem load_add (r : Ram) (a : UInt64) (m n : Nat) :
    r.load a (m + n) = r.load a m ++ r.load (a + UInt64.ofNat m) n := by
  unfold load
  rw [List.range_add, List.map_append, List.map_map]
  congr 1
  apply List.map_congr_left
  intro i _
  rw [Function.comp_apply, UInt64.ofNat_add, UInt64.add_assoc]

theorem load_of_append {r : Ram} {a : UInt64} {as bs : Bytes}
    (h : r.load a (as ++ bs).length = as ++ bs) :
    r.load a as.length = as ∧ r.load (a + UInt64.ofNat as.length) bs.length = bs := by
  rw [List.length_append, load_add] at h
  exact List.append_inj h (length_load ..)

theorem load_succ (r : Ram) (a : UInt64) (n : Nat) :
    r.load a (n + 1) = r a :: r.load (a + 1) n := by
  rw [Nat.add_comm, load_add]
  simp [load]

theorem text_of_load {r : Ram} {a : UInt64} {s : Text} (hz : 0 ∉ s)
    (h : r.load a (s ++ [0]).length = s ++ [0]) {limit : Nat} (hl : s.length < limit) :
    r.text limit a = s := by
  induction s generalizing a limit with
  | nil =>
    obtain ⟨k, rfl⟩ : ∃ k, limit = k + 1 := ⟨limit - 1, by simp at hl; omega⟩
    rw [List.nil_append, List.length_singleton, load_succ] at h
    rw [text, if_pos (List.cons.inj h).1]
  | cons b s ih =>
    obtain ⟨k, rfl⟩ : ∃ k, limit = k + 1 := ⟨limit - 1, by simp at hl; omega⟩
    rw [List.cons_append, List.length_cons, load_succ] at h
    obtain ⟨hb, hrest⟩ := List.cons.inj h
    rw [List.mem_cons, not_or] at hz
    rw [text, hb, if_neg (Ne.symm hz.1), ih hz.2 hrest]
    rw [List.length_cons] at hl
    omega

end Ram

theorem Constant.readAt_of_load {r : Ram} {a : UInt64} {c : Constant}
    (hz : ∀ s, c = .text s → 0 ∉ s) (h : r.load a c.bytes.length = c.bytes) : c.ReadAt r a := by
  cases c with
  | float x =>
    replace h : r.load a (littleEndian 8 x.bits.toNat).length = littleEndian 8 x.bits.toNat := h
    rw [length_littleEndian] at h
    change r.word a = x.bits
    rw [Ram.word, h, word_of_bytes]
  | text s => exact fun limit hl => Ram.text_of_load (hz s rfl) h hl

/-- Every constant can be read where it was laid out. -/
theorem Laid.load {start : Nat} {ps : List (Nat × Constant)} {bytes : Bytes}
    (h : Laid start ps bytes) {r : Ram} {base : UInt64}
    (hr : r.load (base + UInt64.ofNat start) bytes.length = bytes) :
    ∀ p ∈ ps, r.load (base + UInt64.ofNat p.1) p.2.bytes.length = p.2.bytes := by
  induction h with
  | nil start => exact List.forall_mem_nil _
  | @cons start gap c rest bytes hgap hrest ih =>
    obtain ⟨hleft, hright⟩ := Ram.load_of_append hr
    obtain ⟨-, hc⟩ := Ram.load_of_append hleft
    rw [List.length_replicate, UInt64.add_assoc, ← UInt64.ofNat_add] at hc
    rw [List.length_append, List.length_replicate, UInt64.add_assoc, ← UInt64.ofNat_add,
      ← Nat.add_assoc] at hright
    exact List.forall_mem_cons.2 ⟨hc, ih hright⟩

end OnePass
