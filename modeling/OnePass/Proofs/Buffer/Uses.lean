import OnePass.Proofs.Buffer.Growth

/-!
# Uses of a buffer

Whatever a buffer is used for, in whatever order, only two things ever happen to its bytes: some
are appended behind the cursor, or some before it are replaced. What one use does is said once, by
its outcomes; that nothing outside the emitted bytes is touched, that the first failure and the
commit are final, and that the emitted bytes are those the uses stand for, follows from it.
-/

set_option autoImplicit false

namespace OnePass

inductive Use where
  | write (bs : Bytes)
  | writeByte (v : UInt8)
  | writeWord (v : UInt32)
  | writeDoubleWord (v : UInt64)
  | align (n : Int64) (pos : 0 < n)
  | fail (cause : Option Rejection)
  | patchByte (place : Int64) (v : UInt8)
  | patchWord (place : Int64) (v : UInt32)
  | readWord (place : Int64)
  | commit
  deriving DecidableEq

inductive Effect where
  | nothing
  | append (bs : Bytes)
  | patch (place : Nat) (bs : Bytes)
  deriving DecidableEq

namespace Effect

def apply : Effect → Bytes → Bytes
  | .nothing, s => s
  | .append bs, s => s ++ bs
  | .patch place bs, s => s.take place ++ bs ++ s.drop (place + bs.length)

end Effect

namespace Use

def run : Use → Buffer → Except Misuse Buffer
  | .write bs, b => b.append bs
  | .writeByte v, b => b.append [v]
  | .writeWord v, b => b.append (littleEndian 4 v.toNat)
  | .writeDoubleWord v, b => b.append (littleEndian 8 v.toNat)
  | .align n _, b => b.align n
  | .fail cause, b => .ok (cause.elim b b.fail)
  | .patchByte place v, b => b.patchByte place v
  | .patchWord place v, b => b.patchWord place v
  | .readWord place, b => (b.readWord place).map fun _ => b
  | .commit, b => .ok b.commit

def runAll : List Use → Buffer → Except Misuse Buffer
  | [], b => .ok b
  | u :: us, b => (u.run b).bind (runAll us)

def effect (emitted : Nat) : Use → Effect
  | .write bs => .append bs
  | .writeByte v => .append [v]
  | .writeWord v => .append (littleEndian 4 v.toNat)
  | .writeDoubleWord v => .append (littleEndian 8 v.toNat)
  | .align n _ => .append (List.replicate (zerosTo n.toNatClampNeg emitted) 0)
  | .patchByte place v => .patch place.toNatClampNeg [v]
  | .patchWord place v => .patch place.toNatClampNeg (littleEndian 4 v.toNat)
  | .fail _ | .readWord _ | .commit => .nothing

def amend (s : Bytes) (u : Use) : Bytes := (u.effect s.length).apply s

end Use

namespace Buffer

/-- Sizes are those of memory that a process can have. -/
structure Bounded (b : Buffer) : Prop where
  offset_le : b.offset ≤ b.capacity
  capacity_lt : b.capacity < 0x8000000000000000

variable {b b' : Buffer}

theorem Bounded.offset_lt (h : b.Bounded) : b.offset < 0x8000000000000000 :=
  Nat.lt_of_le_of_lt h.offset_le h.capacity_lt

inductive Outcome (e : Effect) (b : Buffer) : Buffer → Prop
  | unchanged (h : b.failure.isSome ∨ e = .nothing) : Outcome e b b
  | failed (h : b.failure = none) (f : Failure) : Outcome e b { b with failure := some f }
  | appended (hf : b.failure = none) (hc : b.committed = false) (bs : Bytes) (he : e = .append bs)
      (room : b.offset + bs.length ≤ b.capacity) :
      Outcome e b { b with memory := b.memory.store b.offset bs, offset := b.offset + bs.length }
  | patched (hf : b.failure = none) (hc : b.committed = false) (place : Nat) (bs : Bytes)
      (he : e = .patch place bs) (inside : place + bs.length ≤ b.offset) :
      Outcome e b { b with memory := b.memory.store place bs }
  | closed (he : e = .nothing) : Outcome e b b.commit

def Emitted (b : Buffer) (place : Int64) (n : Nat) : Prop :=
  0 ≤ place.toInt ∧ place.toInt + n ≤ b.offset

/-- The offset behind a word at the given one is no 64-bit number. -/
def EndWraps (place : Int64) : Prop := 0x8000000000000000 ≤ place.toInt + 4

section Offsets

variable {place : Int64}

theorem Emitted.toNat {n : Nat} (h : b.Emitted place n) :
    place.toInt = place.toNatClampNeg ∧ place.toNatClampNeg + n ≤ b.offset := by
  obtain ⟨hpos, hend⟩ := h
  rw [Int64.toNatClampNeg]
  omega

theorem byteOutside_iff (hb : b.Bounded) :
    (place < 0 ∨ place ≥ Int64.ofNat b.offset) ↔ ¬b.Emitted place 1 := by
  have h0 : (0 : Int64).toInt = 0 := rfl
  rw [Emitted, Int64.lt_iff_toInt_lt, ge_iff_le, Int64.le_iff_toInt_le,
    Int64.toInt_ofNat_of_lt hb.offset_lt, h0]
  omega

/-- The check of a word's offset, with its end as the 64-bit number that it is. -/
theorem wordOutside_iff_toInt (hb : b.Bounded) :
    b.wordOutside place = true ↔ place.toInt < 0 ∨ b.offset < (place + 4).toInt := by
  have h0 : (0 : Int64).toInt = 0 := rfl
  simp only [wordOutside, Bool.or_eq_true, decide_eq_true_eq, gt_iff_lt, Int64.lt_iff_toInt_lt,
    Int64.toInt_ofNat_of_lt hb.offset_lt, h0]

theorem wordOutside_iff (hb : b.Bounded) (h : ¬EndWraps place) :
    b.wordOutside place = true ↔ ¬b.Emitted place 4 := by
  have hlow := place.le_toInt
  have h4 : (4 : Int64).toInt = 4 := rfl
  have hend : (place + 4).toInt = place.toInt + 4 := by
    rw [EndWraps] at h
    rw [Int64.toInt_add, h4, Int.bmod_eq_of_le (by omega) (by omega)]
  rw [wordOutside_iff_toInt hb, Emitted, hend]
  omega

theorem capacity_lt_of_endWraps (hb : b.Bounded) (h : EndWraps place) :
    b.capacity < place.toNatClampNeg + 4 := by
  have hlt := hb.capacity_lt
  rw [EndWraps] at h
  rw [Int64.toNatClampNeg]
  omega

end Offsets

/-- What writes to a buffer refuses a committed one first and drops everything for a failed one. -/
theorem outcome_of_write {e : Effect} {r : Except Misuse Buffer}
    (h : (if b.committed then .error (.committed b.name)
      else if b.failure.isSome then .ok b else r) = .ok b')
    (hr : b.failure = none → b.committed = false → r = .ok b' → Outcome e b b') :
    Outcome e b b' := by
  by_cases hc : b.committed = true
  · rw [if_pos hc] at h
    cases h
  by_cases hf : b.failure.isSome = true
  · rw [if_neg hc, if_pos hf] at h
    cases h
    exact .unchanged (.inl hf)
  · rw [if_neg hc, if_neg hf] at h
    exact hr (by simpa using hf) (by simpa using hc) h

theorem outcome_append (hb : b.Bounded) {bs : Bytes} (h : b.append bs = .ok b') :
    Outcome (.append bs) b b' := by
  have hle := hb.offset_le
  refine outcome_of_write h fun hf hc hr => ?_
  by_cases hroom : b.capacity - b.offset < bs.length
  · rw [if_pos hroom] at hr
    cases hr
    exact .failed hf _
  · rw [if_neg hroom] at hr
    cases hr
    exact .appended hf hc bs rfl (by omega)

theorem outcome_fail (e : Effect) (cause : Rejection) : Outcome e b (b.fail cause) := by
  unfold fail
  cases hf : b.failure with
  | none => exact .failed hf _
  | some f => exact .unchanged (.inl (by simp [hf]))

/-- An offset that is not outside, in 64 bits, is the offset of an emitted byte. -/
theorem byte_inside (hb : b.Bounded) {place : Int64}
    (h : ¬(place < 0 ∨ place ≥ Int64.ofNat b.offset)) : place.toNatClampNeg + 1 ≤ b.offset := by
  rw [byteOutside_iff hb, Classical.not_not] at h
  exact h.toNat.2

/-- A word that is not outside, in 64 bits, and that the region holds whole has been emitted: the
end of the word does not wrap around. -/
theorem word_emitted (hb : b.Bounded) {place : Int64} (h : ¬b.wordOutside place = true)
    (hcap : ¬b.capacity < place.toNatClampNeg + 4) : place.toNatClampNeg + 4 ≤ b.offset := by
  have hend : ¬EndWraps place := fun hw => hcap (capacity_lt_of_endWraps hb hw)
  rw [wordOutside_iff hb hend, Classical.not_not] at h
  exact h.toNat.2

theorem outcome_patchByte (hb : b.Bounded) {place : Int64} {v : UInt8}
    (h : b.patchByte place v = .ok b') : Outcome (.patch place.toNatClampNeg [v]) b b' := by
  refine outcome_of_write h fun hf hc hr => ?_
  by_cases ho : place < 0 ∨ place ≥ Int64.ofNat b.offset
  · rw [if_pos ho] at hr
    cases hr
    exact outcome_fail _ _
  · rw [if_neg ho] at hr
    cases hr
    exact .patched hf hc place.toNatClampNeg [v] rfl (byte_inside hb ho)

theorem outcome_patchWord (hb : b.Bounded) {place : Int64} {v : UInt32}
    (h : b.patchWord place v = .ok b') :
    Outcome (.patch place.toNatClampNeg (littleEndian 4 v.toNat)) b b' := by
  refine outcome_of_write h fun hf hc hr => ?_
  by_cases ho : b.wordOutside place = true
  · rw [if_pos ho] at hr
    cases hr
    exact outcome_fail _ _
  by_cases hcap : b.capacity < place.toNatClampNeg + 4
  · rw [if_neg ho, if_pos hcap] at hr
    cases hr
  · rw [if_neg ho, if_neg hcap] at hr
    cases hr
    exact .patched hf hc place.toNatClampNeg (littleEndian 4 v.toNat) rfl (word_emitted hb ho hcap)

theorem outcome_readWord {place : Int64} (h : (b.readWord place).map (fun _ => b) = .ok b') :
    Outcome .nothing b b' := by
  cases hr : b.readWord place with
  | error m => simp [hr, Except.map] at h
  | ok v =>
    simp only [hr, Except.map, Except.ok.injEq] at h
    subst h
    exact .unchanged (.inr rfl)

end Buffer

/-- Every use that returns has one of the outcomes of its effect. -/
theorem Use.outcome {u : Use} {b b' : Buffer} (hb : b.Bounded) (h : u.run b = .ok b') :
    b.Outcome (u.effect b.offset) b' := by
  cases u with
  | write bs => exact Buffer.outcome_append hb h
  | writeByte v => exact Buffer.outcome_append hb h
  | writeWord v => exact Buffer.outcome_append hb h
  | writeDoubleWord v => exact Buffer.outcome_append hb h
  | align n pos =>
    rw [Use.run, b.align_eq pos hb.offset_lt] at h
    exact Buffer.outcome_append hb h
  | fail cause =>
    cases Except.ok.inj h
    cases cause with
    | none => exact .unchanged (.inr rfl)
    | some cause => exact Buffer.outcome_fail _ cause
  | patchByte place v => exact Buffer.outcome_patchByte hb h
  | patchWord place v => exact Buffer.outcome_patchWord hb h
  | readWord place => exact Buffer.outcome_readWord h
  | commit =>
    cases Except.ok.inj h
    exact .closed rfl

namespace Buffer

variable {b b' : Buffer} {e : Effect}

/-- What one use keeps: it only appends behind the cursor or replaces the bytes it addresses before
it, and it does neither after a failure or the commit. -/
structure Kept (e : Effect) (b b' : Buffer) : Prop where
  capacity : b'.capacity = b.capacity
  grows : b.offset ≤ b'.offset
  room : b'.offset ≤ b'.capacity
  beyond : ∀ i, b'.offset ≤ i → b'.memory.byte i = b.memory.byte i
  emitted : (∀ place bs, e ≠ .patch place bs) →
    ∀ i < b.offset, b'.memory.byte i = b.memory.byte i
  patch : ∀ place bs, e = .patch place bs → b'.offset = b.offset ∧
    ∀ i, b'.memory.byte i ≠ b.memory.byte i → i < b.offset ∧ place ≤ i ∧ i < place + bs.length
  failed : ∀ f, b.failure = some f →
    b'.failure = some f ∧ b'.offset = b.offset ∧ b'.memory = b.memory
  committed : b.committed →
    b'.committed ∧ b'.offset = b.offset ∧ b'.memory = b.memory

theorem Kept.of_same (hb : b.Bounded) (hm : b'.memory = b.memory) (ho : b'.offset = b.offset)
    (hf : ∀ f, b.failure = some f → b'.failure = some f) (hc : b.committed → b'.committed) :
    Kept e b b' where
  capacity := congrArg Memory.size hm
  grows := Nat.le_of_eq ho.symm
  room := by
    rw [ho, Buffer.capacity, hm]
    exact hb.offset_le
  beyond _ _ := by rw [hm]
  emitted _ _ _ := by rw [hm]
  patch _ _ _ := ⟨ho, fun i hi => absurd (by rw [hm]) hi⟩
  failed f h := ⟨hf f h, ho, hm⟩
  committed h := ⟨hc h, ho, hm⟩

theorem Outcome.kept (hb : b.Bounded) (h : b.Outcome e b') : Kept e b b' := by
  cases h with
  | unchanged h => exact .of_same hb rfl rfl (fun _ hf => hf) (fun hc => hc)
  | failed hf f => exact .of_same hb rfl rfl (by simp [hf]) (fun hc => hc)
  | appended hf hc bs he room =>
    exact {
      capacity := by simp [Buffer.capacity]
      grows := Nat.le_add_right _ _
      room := by simpa [Buffer.capacity] using room
      beyond := fun i hi => b.memory.byte_store_outside (.inr hi)
      emitted := fun _ i hi => b.memory.byte_store_outside (.inl hi)
      patch := by simp [he]
      failed := by simp [hf]
      committed := by simp [hc] }
  | patched hf hc place bs he inside =>
    subst he
    have hkeep : ∀ i, ¬(place ≤ i ∧ i < place + bs.length) →
        (b.memory.store place bs).byte i = b.memory.byte i := by
      intro i hi
      exact b.memory.byte_store_outside (by omega)
    exact {
      capacity := by simp [Buffer.capacity]
      grows := Nat.le_refl _
      room := by simpa [Buffer.capacity] using hb.offset_le
      beyond := fun i hi => b.memory.byte_store_outside (.inr (Nat.le_trans inside hi))
      emitted := fun hne => absurd rfl (hne place bs)
      patch := by
        intro place' bs' he'
        cases he'
        refine ⟨rfl, fun i hi => ?_⟩
        have hin := Classical.byContradiction fun hout => hi (hkeep i hout)
        exact ⟨Nat.lt_of_lt_of_le hin.2 inside, hin⟩
      failed := by simp [hf]
      committed := by simp [hc] }
  | closed he => exact .of_same hb rfl rfl (fun _ hf => hf) (fun _ => rfl)

structure Holds (s : Bytes) (b : Buffer) : Prop where
  bounded : b.Bounded
  bytes : b.failure = none → b.bytes = s

theorem Outcome.bytes (h : b.Outcome e b') (hf : b'.failure = none) :
    b.failure = none ∧ b'.bytes = e.apply b.bytes := by
  cases h with
  | unchanged h =>
    obtain h | rfl := h
    · simp [hf] at h
    · exact ⟨hf, rfl⟩
  | failed h f => simp at hf
  | appended h hc bs he room =>
    subst he
    refine ⟨h, ?_⟩
    simp only [Buffer.bytes, Effect.apply, Memory.slice_add, Nat.zero_add, Memory.slice_store_self,
      Memory.slice_store_before _ _ _ _ (Nat.le_refl _)]
  | patched h hc place bs he inside =>
    subst he
    refine ⟨h, ?_⟩
    -- cut around the bytes that are replaced, to store over the middle
    have hsplit : b.bytes = b.bytes.take place ++ (b.bytes.drop place).take bs.length ++
        b.bytes.drop (place + bs.length) := by
      rw [List.append_assoc, ← List.drop_drop, List.take_append_drop, List.take_append_drop]
    have hlen : (b.bytes.take place).length = place := by
      rw [List.length_take, length_bytes]
      omega
    have hmid := Memory.slice_store_middle b.memory b.offset _ _ bs _
      (by rw [List.length_take, List.length_drop, length_bytes]; omega) hsplit
    rw [hlen] at hmid
    exact hmid
  | closed he =>
    subst he
    exact ⟨hf, rfl⟩

/-- The step of the invariant: a use turns the bytes held into those it stands for. -/
theorem Holds.run {s : Bytes} {u : Use} (h : Holds s b) (hu : u.run b = .ok b') :
    Holds (Use.amend s u) b' := by
  have hout := Use.outcome h.bounded hu
  have hkept := hout.kept h.bounded
  refine ⟨⟨hkept.room, ?_⟩, fun hf => ?_⟩
  · rw [hkept.capacity]
    exact h.bounded.capacity_lt
  · obtain ⟨hnone, hbytes⟩ := hout.bytes hf
    have hs := h.bytes hnone
    have hlen : s.length = b.offset := by rw [← hs, length_bytes]
    rw [Use.amend, hlen, hbytes, hs]

theorem Holds.runAll {s : Bytes} {us : List Use} (h : Holds s b)
    (hus : Use.runAll us b = .ok b') :
    Holds (us.foldl Use.amend s) b' ∧ b'.capacity = b.capacity := by
  induction us generalizing s b with
  | nil =>
    cases Except.ok.inj hus
    exact ⟨h, rfl⟩
  | cons u us ih =>
    rw [Use.runAll] at hus
    cases hu : u.run b with
    | error m => simp [hu, Except.bind] at hus
    | ok c =>
      rw [hu] at hus
      obtain ⟨hend, hcap⟩ := ih (h.run hu) hus
      exact ⟨hend, hcap.trans ((Use.outcome h.bounded hu).kept h.bounded).capacity⟩

end Buffer

end OnePass
