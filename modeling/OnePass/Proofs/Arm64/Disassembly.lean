import OnePass.Proofs.Arm64.Refinement
import OnePass.Proofs.Arm64.Rejection

/-!
# Disassembling ARM64 code

The words of operations are read back as the instructions that were meant, and every branch among
them leads to one of them or to the end. The zero register is left out: as the first operand of a
subtraction it makes a negation.
-/

set_option autoImplicit false

namespace OnePass

def Operation.names : Operation → List Text
  | .prologue | .epilogue | .call _ => []
  | .loadImmediate reg _ => [reg]
  | .loadFloat freg _ => [freg]
  | .push reg => [reg]
  | .pop reg => [reg]
  | .pushFloat freg => [freg]
  | .popFloat freg => [freg]
  | .move dst src => [dst, src]
  | .moveFloat dst src => [dst, src]
  | .intToFloat freg reg => [freg, reg]
  | .floatToInt reg freg => [reg, freg]
  | .intBinary _ dst src => [dst, src]
  | .floatBinary _ dst src => [dst, src]
  | .intNegate reg => [reg]
  | .floatNegate freg => [freg]

namespace Arm64

def xzr : Text := utf8 "xzr"

theorem Gp.index_ne_of_name {s : Text} {r : Gp} (h : Gp.ofName? s = some r) (hs : s ≠ xzr) :
    r.index ≠ 31 := by
  intro hr
  have hz : Gp.ofName? xzr = some ⟨31⟩ := by decide
  obtain rfl : r = ⟨31⟩ := congrArg Gp.mk hr
  exact hs (Gp.ofName?_inj h hz)

theorem mapM_decode {is : List Resolved} (h : ∀ i ∈ is, i.Encodable) :
    (is.map Instr.word).mapM decode = some is := by
  induction is with
  | nil => rfl
  | cons i is ih =>
    rw [List.map_cons, List.mapM_cons, Instr.decode_word (h i (by simp)),
      ih fun j hj => h j (by simp [hj])]
    rfl

theorem decodeAll_encodeAll {is : List Resolved} (h : ∀ i ∈ is, i.Encodable) :
    decodeAll (encodeAll is) = some is := by
  rw [decodeAll, words_encodeAll]
  exact mapM_decode h

def Instr.distance? : Resolved → Option Int
  | .b d => some d
  | .bCond _ d => some d
  | .cbz _ d => some d
  | .tbzBit0 _ d => some d
  | _ => none

def Instr.Lands (P : Nat → Prop) (k : Nat) (i : Resolved) : Prop :=
  ∀ d, i.distance? = some d → ∃ t : Nat, (k : Int) + d = t ∧ P t

def Landing (P : Nat → Prop) : Nat → List Resolved → Prop
  | _, [] => True
  | k, i :: is => i.Lands P k ∧ Landing P (k + 1) is

def Inside (k : Nat) (is : List Resolved) (t : Nat) : Prop := k ≤ t ∧ t ≤ k + is.length

variable {P Q : Nat → Prop} {k : Nat} {is js : List Resolved}

theorem landing_append : Landing P k (is ++ js) ↔
    Landing P k is ∧ Landing P (k + is.length) js := by
  induction is generalizing k with
  | nil => simp [Landing]
  | cons i is ih => simp [Landing, ih, and_assoc, Nat.add_assoc, Nat.add_comm 1]

theorem Landing.mono (h : Landing P k is) (hPQ : ∀ t, P t → Q t) : Landing Q k is := by
  induction is generalizing k with
  | nil => trivial
  | cons i is ih =>
    refine ⟨fun d hd => ?_, ih h.2⟩
    obtain ⟨t, ht, hp⟩ := h.1 d hd
    exact ⟨t, ht, hPQ t hp⟩

theorem Landing.get (h : Landing P k is) {n : Nat} {i : Resolved} (hi : is[n]? = some i) :
    i.Lands P (k + n) := by
  induction is generalizing k n with
  | nil => simp at hi
  | cons j is ih =>
    cases n with
    | zero =>
      cases hi
      exact h.1
    | succ n =>
      have hn := ih h.2 (by simpa using hi)
      rwa [show k + 1 + n = k + (n + 1) by omega] at hn

theorem lands_of_none {i : Resolved} (h : i.distance? = none) : i.Lands P k := by
  intro d hd
  rw [h] at hd
  cases hd

theorem inside_lands {i : Resolved} {d : Int} {n : Nat} (hd : i.distance? = some d)
    (h : (k : Int) ≤ n + d ∧ n + d ≤ k + is.length) : i.Lands (Inside k is) n := by
  intro d' hd'
  cases hd.symm.trans hd'
  exact ⟨(n + d).toNat, by omega, by omega, by omega⟩

structure Closed (is : List Resolved) : Prop where
  encodable : ∀ i ∈ is, i.Encodable
  landing : ∀ k, Landing (Inside k is) k is

theorem Closed.nil : Closed [] := ⟨by simp, fun _ => trivial⟩

theorem Closed.append (ha : Closed is) (hb : Closed js) : Closed (is ++ js) where
  encodable := List.forall_mem_append.2 ⟨ha.encodable, hb.encodable⟩
  landing k := by
    refine landing_append.2 ⟨(ha.landing k).mono fun t ht => ?_, (hb.landing _).mono fun t ht => ?_⟩
    all_goals
      simp only [Inside, List.length_append] at ht ⊢
      omega

def Instr.Straight (i : Resolved) : Prop := i.Encodable ∧ i.distance? = none

theorem Closed.of_straight (h : ∀ i ∈ is, i.Straight) : Closed is := by
  induction is with
  | nil => exact .nil
  | cons i is ih =>
    have hi := h i (by simp)
    have hone : Closed [i] := ⟨fun j hj => List.mem_singleton.1 hj ▸ hi.1,
      fun _ => ⟨lands_of_none hi.2, trivial⟩⟩
    exact hone.append (ih fun j hj => h j (by simp [hj]))

theorem wide_straight (r : Gp) (v : UInt64) : ∀ i ∈ wideCode r v, i.Straight := by
  intro i hi
  rcases List.mem_cons.1 hi with rfl | hi
  · exact ⟨by simp [Instr.Encodable], rfl⟩
  · obtain ⟨half, hh, rfl⟩ := List.mem_map.1 hi
    have hlt : ∀ half ∈ [1, 2, 3], half < (4 : UInt32) := by simp
    exact ⟨hlt half (List.mem_filter.1 hh).1, rfl⟩

theorem modulo_straight (d s : Gp) : ∀ i ∈ moduloCode d s, i.Straight := by
  have hequal : equal < 16 := by decide
  simp only [moduloCode, List.forall_mem_cons]
  exact ⟨⟨trivial, rfl⟩, ⟨trivial, rfl⟩, ⟨trivial, rfl⟩, ⟨hequal, rfl⟩, List.forall_mem_nil _⟩

theorem power_closed (d s : Gp) : Closed (powerCode d s) where
  encodable := by
    simp [powerCode, roundCode, Instr.Encodable]
    decide
  landing k := by
    refine ⟨lands_of_none rfl, lands_of_none rfl, inside_lands rfl ?_, inside_lands rfl ?_,
      inside_lands rfl ?_, lands_of_none rfl, lands_of_none rfl, lands_of_none rfl,
      inside_lands rfl ?_, lands_of_none rfl, lands_of_none rfl, trivial⟩
    all_goals
      simp only [powerCode, roundCode, List.length_append, List.length_cons, List.length_nil]
      omega

def Instr.simple {G F : Type} : Instr G F → Bool
  | .movz _ _ _ | .movk _ _ _ | .csel _ _ _ _ | .int .sub _ _ _ => false
  | .b _ | .bCond _ _ | .cbz _ _ | .tbzBit0 _ _ => false
  | _ => true

theorem straight_of_resolve? {i : Named} {r : Resolved} (h : i.resolve? = some r)
    (hs : i.simple = true) : r.Straight := by
  cases i with
  | int op d n m =>
    simp only [Instr.resolve?, Option.bind_eq_bind, Option.bind_eq_some_iff, Option.pure_def,
      Option.some.injEq] at h
    obtain ⟨d, -, n, -, m, -, rfl⟩ := h
    cases op with
    | sub => cases hs
    | add | mul | sdiv => exact ⟨trivial, rfl⟩
  | _ =>
    simp only [Instr.resolve?, Option.bind_eq_bind, Option.bind_eq_some_iff, Option.pure_def,
      Option.some.injEq] at h
    grind [Instr.Straight, Instr.Encodable, Instr.distance?, Instr.simple]

theorem closed_of_single {i : Named} (h : single i = some is) (hs : i.simple = true) :
    Closed is := by
  obtain ⟨r, hr, rfl⟩ := Option.map_eq_some_iff.1 h
  exact .of_straight fun j hj => List.mem_singleton.1 hj ▸ straight_of_resolve? hr hs

theorem subtraction_closed {dst src : Text} (hx : dst ≠ xzr)
    (h : single (.int .sub dst dst src) = some is) : Closed is := by
  simp only [single, Instr.resolve?, Option.bind_eq_bind, Option.pure_def, Option.map_eq_some_iff,
    Option.bind_eq_some_iff, Option.some.injEq] at h
  obtain ⟨-, ⟨d, hd, n, hn, m, -, rfl⟩, rfl⟩ := h
  have hr : Instr.Straight (.int .sub d n m) := ⟨Gp.index_ne_of_name hn hx, rfl⟩
  exact .of_straight fun j hj => List.mem_singleton.1 hj ▸ hr

theorem closed_of_lower? {o : Operation} (hx : xzr ∉ o.names) (h : lower? o = some is) :
    Closed is := by
  cases o with
  | prologue | epilogue =>
    cases h
    exact .of_straight (by simp [Instr.Straight, Instr.Encodable, Instr.distance?])
  | loadImmediate r v =>
    obtain ⟨x, -, rfl⟩ := Option.map_eq_some_iff.1 h
    exact .of_straight (wide_straight x v)
  | loadFloat f a =>
    obtain ⟨x, -, rfl⟩ := Option.map_eq_some_iff.1 h
    exact .of_straight (List.forall_mem_append.2 ⟨wide_straight _ a,
      by simp [Instr.Straight, Instr.Encodable, Instr.distance?]⟩)
  | call a =>
    cases h
    exact .of_straight (List.forall_mem_append.2 ⟨wide_straight _ a,
      by simp [Instr.Straight, Instr.Encodable, Instr.distance?]⟩)
  | push r | pop r | pushFloat f | popFloat f | floatNegate f | intToFloat f r | intNegate r
  | floatToInt r f => exact closed_of_single h rfl
  | move d s | moveFloat d s =>
    simp only [lower?] at h
    split at h
    · cases h
      exact .nil
    · exact closed_of_single h rfl
  | intBinary op d s =>
    cases op with
    | add | mul | div => exact closed_of_single h rfl
    | sub => exact subtraction_closed (fun he => hx (he ▸ List.mem_cons_self)) h
    | mod =>
      simp [lower?, Option.bind_eq_some_iff] at h
      obtain ⟨d, -, s, -, rfl⟩ := h
      exact .of_straight (modulo_straight d s)
    | pow =>
      simp only [lower?] at h
      split at h
      · cases h
      · simp [Option.bind_eq_some_iff] at h
        obtain ⟨d, -, s, -, rfl⟩ := h
        exact power_closed d s
    | unknown => cases h
  | floatBinary op d s =>
    cases op with
    | add | sub | mul | div => exact closed_of_single h rfl
    | mod | pow | unknown => cases h

theorem lowerAll_closed {os : List Operation} (hx : ∀ o ∈ os, xzr ∉ o.names) :
    Closed (lowerAll os) := by
  induction os with
  | nil => exact .nil
  | cons o os ih =>
    have htail := ih fun p hp => hx p (by simp [hp])
    cases h : lower? o with
    | none => simpa [lowerAll, h] using htail
    | some is => simpa [lowerAll, h] using (closed_of_lower? (hx o (by simp)) h).append htail

/-- Whatever operations are performed on an empty buffer, as long as none of them is rejected or
names the zero register and all of them fit, the buffer holds whole words, the words are read back
as the instructions that the operations stand for, and every branch leads to one of these
instructions or behind the last one. -/
theorem performed_words_decode {code : Buffer} {verbose : Bool} (hc : code.Ready)
    (h0 : code.offset = 0)
    (os : List Operation) (hx : ∀ o ∈ os, xzr ∉ o.names)
    (hi : (performAll { buffer := code, verbose } os).buffer.failure = none) :
    (∀ o ∈ os, (lower? o).isSome) ∧
      4 ∣ (performAll { buffer := code, verbose } os).buffer.bytes.length ∧
      decodeAll (performAll { buffer := code, verbose } os).buffer.bytes = some (lowerAll os) ∧
      ∀ (k : Nat) i d, (lowerAll os)[k]? = some i → i.distance? = some d →
        ∃ t : Nat, 4 * (k : Int) + 4 * d = 4 * t ∧ (t < (lowerAll os).length ∨
          4 * t = (performAll { buffer := code, verbose } os).buffer.bytes.length) := by
  obtain ⟨hlower, hw⟩ := performAll_written (Written.begin code hc #[] verbose) hi
  have hbytes :
      (performAll { buffer := code, verbose } os).buffer.bytes = encodeAll (lowerAll os) :=
    hw.bytes_of_intact h0 hi
  have hclosed := lowerAll_closed hx
  rw [hbytes, length_encodeAll]
  refine ⟨hlower, ⟨_, rfl⟩, decodeAll_encodeAll hclosed.encodable, fun k i d hk hd => ?_⟩
  obtain ⟨t, ht, -, hle⟩ := (hclosed.landing 0).get hk d hd
  exact ⟨t, by omega, by omega⟩

/-- A power between high registers: the branches skip parts of its own code and lead back. -/
theorem power_words_decode :
    ∃ w, performAll { buffer := .create [] 64 0 }
        [.loadImmediate (utf8 "x9") 0x10002, .intBinary .pow (utf8 "x30") (utf8 "x9"),
          .intBinary .sub (utf8 "x30") (utf8 "x9")] = w ∧
      w.buffer.failure = none ∧
      decodeAll w.buffer.bytes = some ([.movz ⟨9⟩ 2 0, .movk ⟨9⟩ 1 1] ++ powerCode ⟨30⟩ ⟨9⟩ ++
        [.int .sub ⟨30⟩ ⟨30⟩ ⟨9⟩]) := by
  have hc : (Buffer.create [] 64 0).Ready := ⟨rfl, rfl, by decide, by decide⟩
  have hi : (performAll { buffer := .create [] 64 0 }
      [.loadImmediate (utf8 "x9") 0x10002, .intBinary .pow (utf8 "x30") (utf8 "x9"),
        .intBinary .sub (utf8 "x30") (utf8 "x9")]).buffer.failure = none := by
    decide +kernel
  obtain ⟨-, -, hd, -⟩ := performed_words_decode hc rfl _ (by decide +kernel) hi
  exact ⟨_, rfl, hi, hd.trans (by decide +kernel)⟩

end Arm64

end OnePass
