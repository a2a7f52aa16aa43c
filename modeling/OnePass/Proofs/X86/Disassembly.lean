import OnePass.Proofs.X86.Computation
import OnePass.Proofs.X86.Rejection

/-!
# Disassembling x86-64 code

The code of operations is read back as the instructions that were meant, one behind the other from
the first byte to the last, and every jump in it leads to one of them or to the end.
-/

set_option autoImplicit false

namespace OnePass.X86

def listUpTo : Nat → Nat → Bytes → Option (List (Nat × Resolved))
  | _, _, [] => some []
  | 0, _, _ :: _ => none
  | limit + 1, offset, s => do
    let (i, rest) ← decode s
    return (offset, i) :: (← listUpTo limit (offset + (s.length - rest.length)) rest)

def listing? (s : Bytes) : Option (List (Nat × Resolved)) := listUpTo s.length 0 s

theorem listUpTo_succ {s rest : Bytes} {i : Resolved} (h : decode s = some (i, rest)) (hs : s ≠ [])
    (limit offset : Nat) : listUpTo (limit + 1) offset s =
      (listUpTo limit (offset + (s.length - rest.length)) rest).map ((offset, i) :: ·) := by
  cases s with
  | nil => exact absurd rfl hs
  | cons b s =>
    simp only [listUpTo, h]
    exact (Option.map_eq_bind ..).symm

theorem listUpTo_map (limit offset : Nat) (s : Bytes) :
    (listUpTo limit offset s).map (List.map Prod.snd) = decodeUpTo limit s := by
  induction limit generalizing offset s with
  | zero => cases s <;> rfl
  | succ limit ih =>
    cases s with
    | nil => rfl
    | cons b s =>
      have hs : b :: s ≠ [] := List.cons_ne_nil b s
      cases hd : decode (b :: s) with
      | none => simp [listUpTo, decodeUpTo, hd]
      | some r =>
        rcases r with ⟨i, rest⟩
        have hrest := ih (offset + ((b :: s).length - rest.length)) rest
        simp only [listUpTo_succ hd hs, decodeUpTo, hd, Option.map_map]
        rw [Option.bind_eq_bind, Option.bind_some, ← hrest]
        cases listUpTo limit (offset + ((b :: s).length - rest.length)) rest <;> rfl

theorem listing?_map (s : Bytes) : (listing? s).map (List.map Prod.snd) = decodeAll s :=
  listUpTo_map s.length 0 s

def placed : Nat → List Resolved → List (Nat × Resolved)
  | _, [] => []
  | n, i :: is => (n, i.plain) :: placed (n + i.encode.length) is

theorem map_snd_placed (n : Nat) (is : List Resolved) :
    (placed n is).map Prod.snd = is.map Instr.plain := by
  induction is generalizing n with
  | nil => rfl
  | cons i is ih => simp [placed, ih]

theorem listUpTo_encodeAll {is : List Resolved} (h : ∀ i ∈ is, i.Encodable) (limit n : Nat)
    (hl : codeSize is ≤ limit) : listUpTo limit n (encodeAll is) = some (placed n is) := by
  induction is generalizing limit n with
  | nil => cases limit <;> rfl
  | cons i is ih =>
    have hpos := i.encode_length_pos
    have hd := i.decode_encode (h i (by simp)) (encodeAll is)
    rw [codeSize_cons] at hl
    cases limit with
    | zero => omega
    | succ limit =>
      have hrest := ih (fun j hj => h j (by simp [hj])) limit (n + i.encode.length) (by omega)
      have hne : i.encode ++ encodeAll is ≠ [] := by
        intro hnil
        simp [(List.append_eq_nil_iff.1 hnil).1] at hpos
      have hlen : (i.encode ++ encodeAll is).length - (encodeAll is).length = i.encode.length := by
        rw [List.length_append, Nat.add_sub_cancel]
      rw [encodeAll_cons, listUpTo_succ hd hne, hlen, hrest]
      rfl

theorem listing?_encodeAll {is : List Resolved} (h : ∀ i ∈ is, i.Encodable) :
    listing? (encodeAll is) = some (placed 0 is) :=
  listUpTo_encodeAll h _ 0 (Nat.le_refl _)

/-- The places of instructions that stand at `n`: where one of them starts, and their end. -/
def Boundary : Nat → List Resolved → Nat → Prop
  | n, [], t => t = n
  | n, i :: is, t => t = n ∨ Boundary (n + i.encode.length) is t

def Instr.Lands (P : Nat → Prop) (n : Nat) : Resolved → Prop
  | .jump _ d => ∃ t : Nat, (n : Int) + 2 + d.toInt = t ∧ P t
  | _ => True

def Landing (P : Nat → Prop) : Nat → List Resolved → Prop
  | _, [] => True
  | n, i :: is => i.Lands P n ∧ Landing P (n + i.encode.length) is

variable {P Q : Nat → Prop} {n t : Nat} {is js : List Resolved}

theorem Boundary.start (n : Nat) (is : List Resolved) : Boundary n is n := by
  cases is with
  | nil => rfl
  | cons i is => exact .inl rfl

theorem boundary_append : Boundary n (is ++ js) t ↔
    Boundary n is t ∨ Boundary (n + codeSize is) js t := by
  induction is generalizing n with
  | nil =>
    have hstart : t = n → Boundary n js t := fun h => h ▸ Boundary.start n js
    simpa [Boundary] using hstart
  | cons i is ih => simp [Boundary, ih, or_assoc, Nat.add_assoc]

theorem boundary_iff : Boundary n is t ↔
    t ∈ (placed n is).map Prod.fst ∨ t = n + codeSize is := by
  induction is generalizing n with
  | nil => simp [Boundary, placed]
  | cons i is ih => simp [Boundary, placed, ih, or_assoc, Nat.add_assoc]

theorem landing_append : Landing P n (is ++ js) ↔
    Landing P n is ∧ Landing P (n + codeSize is) js := by
  induction is generalizing n with
  | nil => simp [Landing]
  | cons i is ih => simp [Landing, ih, and_assoc, Nat.add_assoc]

theorem Instr.Lands.mono {i : Resolved} (h : i.Lands P n) (hPQ : ∀ t, P t → Q t) :
    i.Lands Q n := by
  cases i with
  | jump opcode d =>
    obtain ⟨t, ht, hp⟩ := h
    exact ⟨t, ht, hPQ t hp⟩
  | _ => trivial

theorem Landing.mono (h : Landing P n is) (hPQ : ∀ t, P t → Q t) : Landing Q n is := by
  induction is generalizing n with
  | nil => trivial
  | cons i is ih => exact ⟨h.1.mono hPQ, ih h.2⟩

theorem Landing.of_mem (h : Landing P n is) {m : Nat} {opcode : UInt8} {d : Int8}
    (hm : (m, .jump opcode d) ∈ placed n is) : ∃ t : Nat, (m : Int) + 2 + d.toInt = t ∧ P t := by
  induction is generalizing n with
  | nil => cases hm
  | cons i is ih =>
    rcases List.mem_cons.1 hm with he | hm
    · obtain ⟨rfl, hi⟩ := Prod.mk.inj he
      -- What a decoder reports as a jump was one: only moves go by another name.
      cases i <;> cases hi
      exact h.1
    · exact ih h.2 hm

theorem length_encode_forward (opcode : UInt8) (block : List Resolved) :
    (forward opcode block).encode.length = 2 := rfl

theorem length_encode_backward (opcode : UInt8) (block : List Resolved) :
    (backward opcode block).encode.length = 2 := rfl

theorem jump_lands (opcode : UInt8) {k : Nat} (hk : k ≤ 127) (ht : P (n + 2 + k)) :
    Instr.Lands P n (.jump opcode (Int8.ofNat k)) := by
  have hint : (Int8.ofNat k).toInt = k := Int8.toInt_ofNat_of_lt (by omega)
  exact ⟨n + 2 + k, by rw [hint]; omega, ht⟩

theorem forward_lands (opcode : UInt8) {block : List Resolved} (h : block.length ≤ 12)
    (ht : P (n + 2 + codeSize block)) : (forward opcode block).Lands P n := by
  have hsize := codeSize_le block
  exact jump_lands opcode (by omega) ht

theorem backward_lands (opcode : UInt8) {block : List Resolved} (h : block.length ≤ 12)
    (hn : n = t + codeSize block) (ht : P t) : (backward opcode block).Lands P n := by
  have hsize := codeSize_le block
  have hint : (-Int8.ofNat (codeSize block + 2)).toInt = -(codeSize block + 2 : Nat) :=
    toInt_neg_ofNat (by omega)
  exact ⟨t, by rw [hint]; omega, ht⟩

/-- Code that can be read back and that no jump leaves, wherever it stands. -/
structure Closed (is : List Resolved) : Prop where
  encodable : ∀ i ∈ is, i.Encodable
  landing : ∀ n, Landing (Boundary n is) n is

theorem Closed.nil : Closed [] := ⟨by simp, fun _ => trivial⟩

theorem Closed.append (ha : Closed is) (hb : Closed js) : Closed (is ++ js) where
  encodable := List.forall_mem_append.2 ⟨ha.encodable, hb.encodable⟩
  landing n := landing_append.2
    ⟨(ha.landing n).mono fun _ ht => boundary_append.2 (.inl ht),
      (hb.landing _).mono fun _ ht => boundary_append.2 (.inr ht)⟩

def Instr.Straight : Resolved → Prop
  | .loadSd _ base => base.needsLongBase = false
  | .jump _ _ => False
  | _ => True

theorem Closed.of_straight (h : ∀ i ∈ is, i.Straight) : Closed is := by
  induction is with
  | nil => exact .nil
  | cons i is ih =>
    have hi := h i (by simp)
    have hone : Closed [i] := by
      cases i with
      | jump opcode d => exact hi.elim
      | loadSd x base =>
        exact ⟨fun j hj => List.mem_singleton.1 hj ▸ hi, fun _ => ⟨trivial, trivial⟩⟩
      | _ => exact ⟨by simp [Instr.Encodable], fun _ => ⟨trivial, trivial⟩⟩
    exact hone.append (ih fun j hj => h j (by simp [hj]))

theorem saturation_closed (r : Gp) (x : Xmm) : Closed (saturationCode r x) where
  encodable := by
    simp [saturationCode, forward, Instr.Encodable, isShortJump, jno, jp, jbe, jmp]
  landing n := by
    refine ⟨trivial, trivial, forward_lands _ (by simp) ?_, trivial, forward_lands _ (by simp) ?_,
      trivial, trivial, forward_lands _ (by simp) ?_, trivial, forward_lands _ (by simp) ?_,
      trivial, trivial⟩
    all_goals
      simp only [saturationCode, Boundary, List.cons_append, List.nil_append, codeSize_cons,
        codeSize_nil, length_encode_forward]
      omega

theorem division_closed {op : Operator} (hop : op = .div ∨ op = .mod) (r : Gp) :
    Closed (divisionCode op r) where
  encodable := by
    rcases hop with rfl | rfl <;>
      simp [divisionCode, forward, Instr.Encodable, isShortJump, jz, jmp]
  landing n := by
    rcases hop with rfl | rfl
    · refine ⟨trivial, forward_lands _ (by simp) ?_, trivial, forward_lands _ (by simp) ?_, trivial,
        trivial, forward_lands _ (by simp) ?_, trivial, forward_lands _ (by simp) ?_, trivial,
        trivial⟩
      all_goals
        simp only [divisionCode, Boundary, List.cons_append, List.nil_append, codeSize_cons,
          codeSize_nil, length_encode_forward, if_true, if_false, reduceCtorEq]
        omega
    · refine ⟨trivial, forward_lands _ (by simp) ?_, trivial, forward_lands _ (by simp) ?_, trivial,
        trivial, trivial, forward_lands _ (by simp) ?_, trivial, forward_lands _ (by simp) ?_,
        trivial, trivial⟩
      all_goals
        simp only [divisionCode, Boundary, List.cons_append, List.nil_append, codeSize_cons,
          codeSize_nil, length_encode_forward, if_true, if_false, reduceCtorEq]
        omega

theorem power_closed (d s : Gp) : Closed (powerCode d s) where
  encodable := by
    simp [powerCode, roundCode, bitCode, forward, backward, Instr.Encodable, isShortJump, jz, jmp,
      js]
  landing n := by
    -- The jump back leads to the round, behind the three instructions that prepare it.
    have hbit : codeSize (bitCode d s) ≤ 50 := codeSize_le _
    have hclear : codeSize [.xor32 .rdx] ≤ 10 := codeSize_le _
    refine ⟨trivial, trivial, forward_lands _ (by simp [roundCode, bitCode]) ?_, trivial,
      jump_lands _ (by omega) ?_, trivial, forward_lands _ (by simp) ?_, trivial, trivial, trivial,
      backward_lands (t := n + codeSize [.movEdx 1, .test s s, forward js []]) _
        (by simp [roundCode, bitCode]) ?_ ?_, trivial, trivial, trivial⟩
    all_goals
      simp only [powerCode, roundCode, bitCode, Boundary, List.cons_append, List.nil_append,
        codeSize_cons, codeSize_nil, length_encode_forward, length_encode_backward,
        length_encode_jump]
      omega

theorem straight_of_resolve? {i : Named} {r : Resolved} (h : i.resolve? = some r)
    (hb : longBase? i = none) (hj : ∀ opcode d, i ≠ .jump opcode d) : r.Straight := by
  cases i with
  | jump opcode d => exact absurd rfl (hj opcode d)
  | loadSd x base =>
    simp only [Instr.resolve?, Option.bind_eq_bind, Option.bind_eq_some_iff, Option.pure_def,
      Option.some.injEq] at h
    obtain ⟨a, -, b, hbase, rfl⟩ := h
    have hshort : b.needsLongBase = false := by simpa [longBase?, hbase] using hb
    exact hshort
  | _ =>
    simp only [Instr.resolve?, Option.bind_eq_bind, Option.bind_eq_some_iff, Option.pure_def,
      Option.some.injEq] at h
    grind [Instr.Straight]

theorem closed_of_single {i : Named} (h : single i = some is) (hb : longBase? i = none)
    (hj : ∀ opcode d, i ≠ .jump opcode d) : Closed is := by
  obtain ⟨r, hr, rfl⟩ := Option.map_eq_some_iff.1 h
  exact .of_straight fun j hj' => List.mem_singleton.1 hj' ▸ straight_of_resolve? hr hb hj

theorem closed_of_lower? {o : Operation} (h : lower? o = some is) : Closed is := by
  cases o with
  | prologue | epilogue | call a =>
    cases h
    exact .of_straight (by simp [Instr.Straight])
  | loadImmediate r v | intToFloat f r | intNegate r => exact closed_of_single h rfl (by simp)
  | loadFloat f a =>
    obtain ⟨x, -, rfl⟩ := Option.map_eq_some_iff.1 h
    have hbase : Gp.r11.needsLongBase = false := rfl
    exact .of_straight (by simp [Instr.Straight, hbase])
  | push r | pop r | pushFloat f | popFloat f | floatNegate f =>
    obtain ⟨x, -, rfl⟩ := Option.map_eq_some_iff.1 h
    exact .of_straight (by simp [Instr.Straight])
  | move d s | moveFloat d s =>
    simp only [lower?] at h
    split at h
    · cases h
      exact .nil
    · exact closed_of_single h rfl (by simp)
  | floatToInt r f =>
    simp [lower?, Option.bind_eq_some_iff] at h
    obtain ⟨r, -, x, -, rfl⟩ := h
    exact saturation_closed r x
  | intBinary op d s =>
    cases op with
    | add | sub | mul => exact closed_of_single h rfl (by simp)
    | div | mod =>
      simp only [lower?] at h
      split at h
      · cases h
      · obtain ⟨x, -, rfl⟩ := Option.map_eq_some_iff.1 h
        exact division_closed (by simp) x
    | pow =>
      simp only [lower?] at h
      split at h
      · cases h
      · simp [Option.bind_eq_some_iff] at h
        obtain ⟨d, -, s, -, rfl⟩ := h
        exact power_closed d s
    | unknown => cases h
  | floatBinary op d s =>
    cases op with
    | add | sub | mul | div => exact closed_of_single h rfl (by simp)
    | mod | pow | unknown => cases h

theorem lowerAll_closed (os : List Operation) : Closed (lowerAll os) := by
  induction os with
  | nil => exact .nil
  | cons o os ih =>
    cases h : lower? o with
    | none => simpa [lowerAll, h] using ih
    | some is => simpa [lowerAll, h] using (closed_of_lower? h).append ih

/-- Whatever operations are performed on an empty buffer, as long as none of them is rejected and
all of them fit, the buffer is read back from its first byte to its last as the instructions that
they stand for, and every jump leads to one of these instructions or behind the last one. -/
theorem performed_code_disassembles {code : Buffer} {verbose : Bool} (hc : code.Ready)
    (h0 : code.offset = 0) (os : List Operation)
    (hi : (performAll { buffer := code, verbose } os).buffer.failure = none) :
    (∀ o ∈ os, (lower? o).isSome) ∧
      decodeAll (performAll { buffer := code, verbose } os).buffer.bytes =
        some ((lowerAll os).map Instr.plain) ∧
      ∃ listing, listing? (performAll { buffer := code, verbose } os).buffer.bytes = some listing ∧
        listing.map Prod.snd = (lowerAll os).map Instr.plain ∧
        ∀ n opcode d, (n, .jump opcode d) ∈ listing → ∃ t : Nat, (n : Int) + 2 + d.toInt = t ∧
          (t ∈ listing.map Prod.fst ∨
            t = (performAll { buffer := code, verbose } os).buffer.bytes.length) := by
  obtain ⟨hlower, hw⟩ := performAll_written (Written.begin code hc #[] verbose) hi
  have hbytes :
      (performAll { buffer := code, verbose } os).buffer.bytes = encodeAll (lowerAll os) :=
    hw.bytes_of_intact h0 hi
  have hclosed := lowerAll_closed os
  have hlist : listing? (encodeAll (lowerAll os)) = some (placed 0 (lowerAll os)) :=
    listing?_encodeAll hclosed.encodable
  rw [hbytes]
  refine ⟨hlower, ?_, placed 0 (lowerAll os), hlist, map_snd_placed 0 _, ?_⟩
  · rw [← listing?_map, hlist, Option.map_some, map_snd_placed]
  · intro n opcode d hm
    obtain ⟨t, ht, hb⟩ := (hclosed.landing 0).of_mem hm
    rw [boundary_iff, Nat.zero_add] at hb
    exact ⟨t, ht, hb⟩

/-- A conversion between registers with high numbers, whose jumps skip parts of its own code. -/
theorem conversion_disassembles :
    ∃ w listing, performAll { buffer := .create [] 64 0 }
        [.floatToInt (utf8 "r13") (utf8 "xmm9"), .push (utf8 "r8")] = w ∧
      w.buffer.failure = none ∧ listing? w.buffer.bytes = some listing ∧
      listing.map Prod.snd = [.cvttsd2si ⟨13⟩ ⟨9⟩, .cmpImm ⟨13⟩ 1, .jump jno 27, .ucomisd ⟨9⟩ ⟨9⟩,
        .jump jp 17, .xorpd ⟨15⟩ ⟨15⟩, .ucomisd ⟨9⟩ ⟨15⟩, .jump jbe 8, .not ⟨13⟩, .jump jmp 3,
        .xor32 ⟨13⟩, .subRsp 16, .storeRsp ⟨8⟩] := by
  have hc : (Buffer.create [] 64 0).Ready := ⟨rfl, rfl, by decide, by decide⟩
  have hi : (performAll { buffer := .create [] 64 0 }
      [.floatToInt (utf8 "r13") (utf8 "xmm9"), .push (utf8 "r8")]).buffer.failure = none := by
    decide +kernel
  obtain ⟨-, -, listing, hl, hm, -⟩ := performed_code_disassembles hc rfl _ hi
  exact ⟨_, listing, rfl, hi, hl, hm.trans (by decide +kernel)⟩

end OnePass.X86
