import OnePass.Proofs.Buffer.Intact
import OnePass.Proofs.Buffer.Uses

/-!
# Regions that stay

Bytes that were written stay as they are until they are patched. What a step of a writer keeps is
said for the region that it leaves alone; it composes, so that a run keeps a region that all of its
steps leave alone.
-/

set_option autoImplicit false

namespace OnePass

def Effect.Spares (start stop : Nat) : Effect → Prop
  | .patch place bs => place + bs.length ≤ start ∨ stop ≤ place
  | _ => True

namespace Buffer

theorem Outcome.committed {e : Effect} {b b' : Buffer} (h : b.Outcome e b') (he : e ≠ .nothing) :
    b'.committed = b.committed := by
  cases h with
  | closed h => exact absurd h he
  | _ => rfl

theorem Ready.bounded {b : Buffer} (h : b.Ready) : b.Bounded := ⟨h.offset_le, h.capacity_lt⟩

variable {b : Buffer} {place : Int64}

theorem offset_fail (b : Buffer) (c : Rejection) : (b.fail c).offset = b.offset := by
  unfold fail
  cases b.failure <;> rfl

theorem offset_patchWord {b' : Buffer} {v : UInt32} (h : b.patchWord place v = .ok b') :
    b'.offset = b.offset := by
  unfold patchWord at h
  split at h
  · cases h
  · split at h
    · cases h
      rfl
    · split at h
      · cases h
        exact b.offset_fail _
      · split at h <;> cases h
        rfl

theorem getElem?_bytes {i : Nat} (h : i < b.offset) : b.bytes[i]? = some (b.memory.byte i) :=
  Memory.byte_of_slice rfl h

theorem byte_of_bytes {before rest : Bytes} {a : UInt8} (h : b.bytes = before ++ a :: rest) :
    b.memory.byte before.length = a := by
  have hlength := congrArg List.length h
  rw [length_bytes, List.length_append, List.length_cons] at hlength
  have hbyte := getElem?_bytes (b := b) (i := before.length) (by omega)
  rw [h, List.getElem?_append_right (Nat.le_refl _), Nat.sub_self] at hbyte
  exact (Option.some.inj hbyte).symm

theorem write_eq_fail {c : Rejection} (hc : b.committed = false) :
    (if b.committed then .error (.committed b.name)
      else if b.failure.isSome then .ok b else .ok (b.fail c) : Except Misuse Buffer) =
      .ok (b.fail c) := by
  unfold fail
  cases hf : b.failure <;> simp [hc]

/-- A word before the last offsets there are is in the region, or it is outside of the emitted
bytes. -/
theorem word_in_region (hb : b.Bounded) (hplace : place.toInt + 4 < 0x8000000000000000)
    (h : ¬b.wordOutside place = true) : ¬b.capacity < place.toNatClampNeg + 4 := by
  have hend : ¬EndWraps place := Int.not_le.2 hplace
  rw [wordOutside_iff hb hend, Classical.not_not] at h
  exact Nat.not_lt.2 (Nat.le_trans h.toNat.2 hb.offset_le)

end Buffer

namespace Writer

theorem offset_use {w : Writer} {f : Buffer → Except Misuse Buffer}
    (hf : ∀ b, f w.buffer = .ok b → b.offset = w.buffer.offset) : (w.use f).offset = w.offset := by
  unfold use
  cases w.misuse with
  | some m => rfl
  | none =>
    cases hb : f w.buffer with
    | error m => rfl
    | ok b => exact hf b hb

structure Sound (w : Writer) : Prop where
  usable : w.Usable
  bounded : w.buffer.Bounded

structure Keeps (start stop : Nat) (w w' : Writer) : Prop where
  sound : w'.Sound
  capacity : w'.buffer.capacity = w.buffer.capacity
  grows : w.offset ≤ w'.offset
  bytes : ∀ i, start ≤ i → i < stop → i < w.offset →
    w'.buffer.memory.byte i = w.buffer.memory.byte i
  intact : w'.Intact → w.Intact

variable {start stop : Nat} {w w' : Writer}

namespace Keeps

theorem refl (h : w.Sound) : Keeps start stop w w :=
  ⟨h, rfl, Nat.le_refl _, fun _ _ _ _ => rfl, id⟩

theorem trans {w'' : Writer} (h : Keeps start stop w w') (h' : Keeps start stop w' w'') :
    Keeps start stop w w'' where
  sound := h'.sound
  capacity := h'.capacity.trans h.capacity
  grows := Nat.le_trans h.grows h'.grows
  bytes i hstart hstop hi :=
    (h'.bytes i hstart hstop (Nat.lt_of_lt_of_le hi h.grows)).trans (h.bytes i hstart hstop hi)
  intact hi := h.intact (h'.intact hi)

theorem foldl {α : Type} {step : Writer → α → Writer} (h : w.Sound) (as : List α)
    (hstep : ∀ u, u.Sound → ∀ a ∈ as, Keeps start stop u (step u a)) :
    Keeps start stop w (as.foldl step w) := by
  induction as generalizing w with
  | nil => exact refl h
  | cons a as ih =>
    have hfirst := hstep w h a (by simp)
    exact hfirst.trans (ih hfirst.sound fun u hu b hb => hstep u hu b (by simp [hb]))

end Keeps

namespace Sound

theorem toInt_offset_sub (h : w.Sound) {k : Int64} (hk : 0 ≤ k.toInt) :
    (Int64.ofNat w.offset - k).toInt = w.offset - k.toInt := by
  have hlt : w.offset < 0x8000000000000000 := h.bounded.offset_lt
  have hk' := k.toInt_lt
  rw [Int64.toInt_sub, Int64.toInt_ofNat_of_lt hlt, Int.bmod_eq_of_le (by omega) (by omega)]

theorem note (h : w.Sound) (e : Event) : Keeps start stop w (w.note e) where
  sound := ⟨h.usable.note e, by rw [buffer_note]; exact h.bounded⟩
  capacity := by rw [buffer_note]
  grows := Nat.le_of_eq (by rw [offset, offset, buffer_note])
  bytes _ _ _ _ := by rw [buffer_note]
  intact hi := hi.of_note

theorem use (h : w.Sound) {f : Buffer → Except Misuse Buffer} {b : Buffer} {e : Effect}
    (hf : f w.buffer = .ok b) (hout : w.buffer.Outcome e b) (he : e ≠ .nothing)
    (hspares : e.Spares start stop) : Keeps start stop w (w.use f) := by
  have hkept := hout.kept h.bounded
  rw [use_ok h.usable.misuse hf]
  refine ⟨⟨⟨h.usable.misuse, (hout.committed he).trans h.usable.committed⟩, hkept.room, ?_⟩,
    hkept.capacity, hkept.grows, ?_, ?_⟩
  · rw [hkept.capacity]
    exact h.bounded.capacity_lt
  · intro i hstart hstop hi
    cases e with
    | nothing => exact absurd rfl he
    | append bs => exact hkept.emitted (by simp) i hi
    | patch place bs =>
      apply Classical.byContradiction
      intro hne
      obtain ⟨-, hplace, hend⟩ := (hkept.patch place bs rfl).2 i hne
      simp only [Effect.Spares] at hspares
      omega
  · intro hi
    cases hfail : w.buffer.failure with
    | none => exact hfail
    | some m => exact absurd ((hkept.failed m hfail).1.symm.trans hi) (by simp)

theorem fail (h : w.Sound) (c : Rejection) : Keeps start stop w (w.fail c) :=
  h.use (e := .append []) rfl (Buffer.outcome_fail _ c) (by simp) trivial

theorem failAll (h : w.Sound) (cs : List Rejection) :
    Keeps start stop w (cs.foldl Writer.fail w) :=
  .foldl h cs fun _ hu c _ => hu.fail c

theorem exists_append (h : w.Sound) (bs : Bytes) :
    ∃ b, w.buffer.append bs = .ok b ∧ w.buffer.Outcome (.append bs) b := by
  obtain ⟨b, hb⟩ : ∃ b, w.buffer.append bs = .ok b := by
    simp only [Buffer.append, h.usable.committed, Bool.false_eq_true, if_false]
    split
    · exact ⟨_, rfl⟩
    · split <;> exact ⟨_, rfl⟩
  exact ⟨b, hb, Buffer.outcome_append h.bounded hb⟩

theorem noteOverflow (h : w.Sound) (n : Nat) : Keeps start stop w (w.noteOverflow n) := by
  unfold Writer.noteOverflow
  split
  · exact h.note _
  · exact .refl h

theorem append (h : w.Sound) (bs : Bytes) : Keeps start stop w (w.append bs) := by
  have hn : Keeps start stop w (w.noteOverflow bs.length) := h.noteOverflow bs.length
  obtain ⟨b, hb, hout⟩ := hn.sound.exists_append bs
  exact hn.trans (hn.sound.use hb hout (by simp) trivial)

theorem append_noted (h : w.Sound) (e : Event) (bs : Bytes) :
    Keeps start stop w ((w.note e).append bs) := by
  have hnote : Keeps start stop w (w.note e) := h.note e
  exact hnote.trans (hnote.sound.append bs)

theorem appendAll (h : w.Sound) (pieces : List Bytes) : Keeps start stop w (w.appendAll pieces) :=
  .foldl h pieces fun _ hu p _ => hu.append p

theorem bytes_append (h : w.Sound) {e : Event} {bs : Bytes} (hi : ((w.note e).append bs).Intact) :
    ((w.note e).append bs).buffer.bytes = w.buffer.bytes ++ bs ∧
      ((w.note e).append bs).offset = w.offset + bs.length := by
  have hnote : Keeps 0 0 w (w.note e) := h.note e
  have hn : Keeps 0 0 w ((w.note e).noteOverflow bs.length) :=
    hnote.trans (hnote.sound.noteOverflow bs.length)
  obtain ⟨b, hb, hout⟩ := hn.sound.exists_append bs
  have hbytes : ((w.note e).append bs).buffer.bytes = w.buffer.bytes ++ bs := by
    rw [Writer.append, use_ok hn.sound.usable.misuse hb] at hi ⊢
    rw [(hout.bytes hi).2, buffer_noteOverflow, buffer_note]
    rfl
  refine ⟨hbytes, ?_⟩
  have hlength := congrArg List.length hbytes
  rwa [Buffer.length_bytes, List.length_append, Buffer.length_bytes] at hlength

/-- Appending fails for want of room only. -/
theorem intact_append_iff (h : w.Sound) (e : Event) (bs : Bytes) :
    ((w.note e).append bs).Intact ↔ w.Intact ∧ w.buffer.Fits bs.length := by
  have hnote : Keeps 0 0 w (w.note e) := h.note e
  have happ : Keeps 0 0 w ((w.note e).append bs) := h.append_noted e bs
  constructor
  · intro hi
    have hroom := happ.sound.bounded.offset_le
    rw [happ.capacity] at hroom
    rw [Buffer.Fits, ← show _ = w.buffer.offset + bs.length from (h.bytes_append hi).2]
    exact ⟨happ.intact hi, hroom⟩
  · rintro ⟨hi, hroom⟩
    have hn := hnote.trans (hnote.sound.noteOverflow bs.length)
    have hbuffer : ((w.note e).noteOverflow bs.length).buffer = w.buffer := by
      rw [buffer_noteOverflow, buffer_note]
    have hspace : ¬w.buffer.capacity - w.buffer.offset < bs.length := by
      unfold Buffer.Fits at hroom
      omega
    have hok : ((w.note e).noteOverflow bs.length).buffer.append bs = .ok { w.buffer with
        memory := w.buffer.memory.store w.buffer.offset bs
        offset := w.buffer.offset + bs.length } := by
      have hnone : w.buffer.failure = none := hi
      rw [hbuffer, Buffer.append, if_neg (by simp [h.usable.committed]), if_neg (by simp [hnone]),
        if_neg hspace]
    rw [Writer.append, use_ok hn.sound.usable.misuse hok]
    exact hi

theorem patchByte (h : w.Sound) {place : Int64} (v : UInt8)
    (hspares : ¬((start : Int) ≤ place.toInt ∧ place.toInt < stop)) :
    Keeps start stop w (w.patchByte place v) := by
  by_cases hout : place < 0 ∨ place ≥ Int64.ofNat w.buffer.offset
  · have hfail : w.buffer.patchByte place v =
        .ok (w.buffer.fail (.patchOutside place w.buffer.offset)) := by
      rw [Buffer.patchByte, if_pos hout, Buffer.write_eq_fail h.usable.committed]
    exact h.use (e := .append []) hfail (Buffer.outcome_fail _ _) (by simp) trivial
  · obtain ⟨b, hb⟩ : ∃ b, w.buffer.patchByte place v = .ok b := by
      rw [Buffer.patchByte, if_neg hout, if_neg (by simp [h.usable.committed])]
      split <;> exact ⟨_, rfl⟩
    refine h.use hb (Buffer.outcome_patchByte h.bounded hb) (by simp) ?_
    have hpos : 0 ≤ place.toInt := by
      rw [not_or, Int64.lt_iff_toInt_lt] at hout
      exact Int.not_lt.1 hout.1
    simp only [Effect.Spares, List.length_singleton, Int64.toNatClampNeg]
    omega

theorem patchWord (h : w.Sound) {place : Int64} (v : UInt32)
    (hplace : place.toInt + 4 < 0x8000000000000000)
    (hspares : place.toInt + 4 ≤ start ∨ stop ≤ place.toInt) :
    Keeps start stop w (w.patchWord place v) := by
  by_cases hout : w.buffer.wordOutside place = true
  · have hfail : w.buffer.patchWord place v =
        .ok (w.buffer.fail (.patchOutside place w.buffer.offset)) := by
      rw [Buffer.patchWord, if_pos hout, Buffer.write_eq_fail h.usable.committed]
    exact h.use (e := .append []) hfail (Buffer.outcome_fail _ _) (by simp) trivial
  · obtain ⟨b, hb⟩ : ∃ b, w.buffer.patchWord place v = .ok b := by
      rw [Buffer.patchWord, if_neg hout, if_neg (by simp [h.usable.committed]),
        if_neg (Buffer.word_in_region h.bounded hplace hout)]
      split <;> exact ⟨_, rfl⟩
    refine h.use hb (Buffer.outcome_patchWord h.bounded hb) (by simp) ?_
    have hpos : 0 ≤ place.toInt := by
      simp only [Buffer.wordOutside, Bool.or_eq_true, decide_eq_true_eq, not_or,
        Int64.lt_iff_toInt_lt] at hout
      exact Int.not_lt.1 hout.1
    simp only [Effect.Spares, length_littleEndian, Int64.toNatClampNeg]
    omega

theorem patchByte_inside (h : w.Sound) {place : Int64} {k : Nat} (hplace : place.toInt = k)
    (hk : k < w.offset) (v : UInt8) :
    (w.patchByte place v).misuse = none ∧ ((w.patchByte place v).Intact ↔ w.Intact) ∧
      ((w.patchByte place v).Intact →
        (w.patchByte place v).buffer.bytes = w.buffer.bytes.set k v) := by
  have hnat : place.toNatClampNeg = k := by rw [Int64.toNatClampNeg, hplace, Int.toNat_natCast]
  have hout : ¬(place < 0 ∨ place ≥ Int64.ofNat w.buffer.offset) := by
    have h0 : (0 : Int64).toInt = 0 := rfl
    rw [Int64.lt_iff_toInt_lt, ge_iff_le, Int64.le_iff_toInt_le, hplace,
      Int64.toInt_ofNat_of_lt h.bounded.offset_lt, h0]
    change k < w.buffer.offset at hk
    omega
  obtain ⟨b, hb, hfailure⟩ : ∃ b, w.buffer.patchByte place v = .ok b ∧
      b.failure = w.buffer.failure := by
    rw [Buffer.patchByte, if_neg hout, if_neg (by simp [h.usable.committed])]
    split <;> exact ⟨_, rfl, rfl⟩
  have houtcome := Buffer.outcome_patchByte h.bounded hb
  rw [Writer.patchByte, use_ok h.usable.misuse hb]
  refine ⟨h.usable.misuse, by simp only [Intact, hfailure], fun hi => ?_⟩
  have hlt : k < w.buffer.bytes.length := by rw [Buffer.length_bytes]; exact hk
  rw [(houtcome.bytes hi).2, hnat, List.set_eq_take_append_cons_drop, if_pos hlt]
  simp [Effect.apply]

theorem word_inside (h : w.Sound) {place : Int64} {k : Nat} (hplace : place.toInt = k)
    (hk : k + 4 ≤ w.offset) :
    ¬w.buffer.wordOutside place = true ∧ place.toNatClampNeg = k ∧
      ¬w.buffer.capacity < place.toNatClampNeg + 4 := by
  have hlt : w.offset < 0x8000000000000000 := h.bounded.offset_lt
  have hnat : place.toNatClampNeg = k := by rw [Int64.toNatClampNeg, hplace, Int.toNat_natCast]
  have hend : ¬Buffer.EndWraps place := by
    rw [Buffer.EndWraps, hplace]
    omega
  have hout : ¬w.buffer.wordOutside place = true := by
    change k + 4 ≤ w.buffer.offset at hk
    rw [Buffer.wordOutside_iff h.bounded hend, Classical.not_not, Buffer.Emitted, hplace]
    omega
  exact ⟨hout, hnat, Buffer.word_in_region h.bounded (by omega) hout⟩

theorem readWord_inside (h : w.Sound) {place : Int64} {k : Nat} (hplace : place.toInt = k)
    (hk : k + 4 ≤ w.offset) {v : UInt32}
    (hv : w.buffer.memory.slice k 4 = littleEndian 4 v.toNat) :
    w.buffer.readWord place = .ok v := by
  obtain ⟨hout, hnat, hcap⟩ := h.word_inside hplace hk
  rw [Buffer.readWord, if_neg hout, if_neg hcap, hnat, hv, halfWord_of_bytes]

theorem patchWord_inside (h : w.Sound) {place : Int64} {k : Nat} (hplace : place.toInt = k)
    (hk : k + 4 ≤ w.offset) (v : UInt32) :
    (w.patchWord place v).misuse = none ∧ ((w.patchWord place v).Intact ↔ w.Intact) ∧
      ((w.patchWord place v).Intact → (w.patchWord place v).buffer.bytes =
        w.buffer.bytes.take k ++ littleEndian 4 v.toNat ++ w.buffer.bytes.drop (k + 4)) := by
  obtain ⟨hout, hnat, hcap⟩ := h.word_inside hplace hk
  obtain ⟨b, hb, hfailure⟩ : ∃ b, w.buffer.patchWord place v = .ok b ∧
      b.failure = w.buffer.failure := by
    rw [Buffer.patchWord, if_neg hout, if_neg hcap, if_neg (by simp [h.usable.committed])]
    split <;> exact ⟨_, rfl, rfl⟩
  have houtcome := Buffer.outcome_patchWord h.bounded hb
  rw [Writer.patchWord, use_ok h.usable.misuse hb]
  refine ⟨h.usable.misuse, by simp only [Intact, hfailure], fun hi => ?_⟩
  rw [(houtcome.bytes hi).2, hnat, Effect.apply, length_littleEndian]

end Sound

end Writer

end OnePass
