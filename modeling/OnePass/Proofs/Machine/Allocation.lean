import OnePass.Proofs.Machine.Processor

/-!
# Allocation at the free end

The routines that functions are run with put new texts where memory is free and move the free end
behind them. What is in use are the addresses between a lower bound, which is not zero, and the free
end, as far as it does not pass an upper bound.
-/

set_option autoImplicit false

namespace OnePass

def Symbols.Distinct (s : Symbols) : Prop :=
  ∀ r r', s.address r ≠ 0 → s.address r = s.address r' → r = r'

theorem Symbols.distinct_of_ne {s : Symbols} (h : s.pow ≠ s.fmod) (h' : s.pow ≠ s.concat)
    (h'' : s.fmod ≠ s.concat) : s.Distinct := by
  intro r r' _ he
  cases r <;> cases r' <;> first | rfl | exact absurd he ‹_› | exact absurd he.symm ‹_›

theorem World.routine_ofSymbols {σ : Type} {D : Doubles} {s : Symbols} {serve : Routine → σ → σ}
    (hs : s.Distinct) {r : Routine} (hr : s.address r ≠ 0) (m : σ) :
    (World.ofSymbols D s serve).routine (s.address r) m = some (serve r m) := by
  cases r with
  | pow => simp [ofSymbols, Symbols.address]
  | fmod =>
    have hpow : s.fmod ≠ s.pow := fun h => nomatch hs .fmod .pow hr h
    simp [ofSymbols, Symbols.address, hpow]
  | concat =>
    have hpow : s.concat ≠ s.pow := fun h => nomatch hs .concat .pow hr h
    have hfmod : s.concat ≠ s.fmod := fun h => nomatch hs .concat .fmod hr h
    simp [ofSymbols, Symbols.address, hpow, hfmod]

def Arena.upTo (low high : Nat) : Arena where
  used free a := low ≤ a.toNat ∧ a.toNat < free.toNat ∧ a.toNat < high
  room free := high - free.toNat

def Heap.put (h : Heap) (s : Text) : Heap where
  memory := h.memory.store h.free (s ++ [0])
  free := h.free + UInt64.ofNat (s.length + 1)

namespace Arena

variable {low high : Nat} {h : Heap}

theorem Stored.tail {A : Arena} {a : UInt64} {b : UInt8} {bs : Bytes}
    (s : A.Stored h a (b :: bs)) : A.Stored h (a + 1) bs :=
  (show A.Stored h a ([b] ++ bs) from s).right

theorem text_of_stored {a : UInt64} {s : Text} (hs : 0 ∉ s)
    (ht : (upTo low high).Stored h a (s ++ [0])) : h.memory.text (h.free - a).toNat a = s := by
  induction s generalizing a with
  | nil =>
    have hzero : h.memory a = 0 := by simpa using (ht 0 (by simp)).2
    cases (h.free - a).toNat <;> simp [Ram.text, hzero]
  | cons b s ih =>
    rw [List.mem_cons, not_or] at hs
    obtain ⟨hb, hs⟩ := hs
    obtain ⟨⟨-, hlt, -⟩, hbyte⟩ := ht 0 (by simp)
    have hbyte : h.memory a = b := by simpa using hbyte
    have hlt : a.toNat < h.free.toNat := by simpa using hlt
    have hsub := UInt64.toNat_sub_of_le h.free a (UInt64.le_iff_toNat_le.2 (by omega))
    have hnext : (a + 1).toNat = a.toNat + 1 := toNat_add_ofNat (i := 1) (by
      have := h.free.toNat_lt
      omega)
    have hsub' := UInt64.toNat_sub_of_le h.free (a + 1) (UInt64.le_iff_toNat_le.2 (by omega))
    have hlimit : (h.free - a).toNat = (h.free - (a + 1)).toNat + 1 := by omega
    rw [hlimit, Ram.text, hbyte, if_neg (Ne.symm hb), ih hs ht.tail]

theorem textBelow_of_textAt (hlow : 0 < low) {a : UInt64} {s : Text}
    (t : (upTo low high).TextAt h a s) : h.memory.textBelow h.free a = s := by
  have hne : a ≠ 0 := by
    rintro rfl
    have hused := (t.stored 0 (by simp)).1.1
    simp at hused
    omega
  rw [Ram.textBelow, if_neg hne, text_of_stored t.nonzero t.stored]

theorem low_le_free {a : UInt64} {s : Text} (t : (upTo low high).TextAt h a s) :
    low ≤ h.free.toNat := by
  obtain ⟨hlow, hlt, -⟩ := (t.stored 0 (by simp)).1
  omega

theorem stored_store {r : Ram} {a free : UInt64} {bs : Bytes} (hlow : low ≤ a.toNat)
    (hfree : a.toNat + bs.length ≤ free.toNat) (hhigh : free.toNat ≤ high) :
    (upTo low high).Stored ⟨r.store a bs, free⟩ a bs := by
  intro i hi
  have hlt := free.toNat_lt
  have hat : (a + UInt64.ofNat i).toNat = a.toNat + i := toNat_add_ofNat (by omega)
  have hindex : (a + UInt64.ofNat i - a).toNat = i := by
    rw [UInt64.toNat_sub_of_le _ _ (UInt64.le_iff_toNat_le.2 (by omega)), hat]
    omega
  refine ⟨⟨by omega, by simp only; omega, by omega⟩, ?_⟩
  change bs.getD (a + UInt64.ofNat i - a).toNat _ = _
  rw [hindex, List.getD_eq_getElem?_getD, List.getElem?_eq_getElem hi, Option.getD_some]

section Put

variable {s : Text} (hroom : h.free.toNat + s.length + 1 ≤ high)
  (hhigh : high ≤ 0xffffffffffffffff)
include hroom hhigh

theorem free_put : (h.put s).free.toNat = h.free.toNat + (s.length + 1) := by
  exact toNat_add_ofNat (by omega)

theorem memory_put {a : UInt64} (ha : a.toNat < h.free.toNat ∨ high ≤ a.toNat) :
    (h.put s).memory a = h.memory a := by
  have hout : (s ++ [0]).length ≤ (a - h.free).toNat := by
    have := a.toNat_lt
    have := h.free.toNat_lt
    rw [List.length_append, List.length_singleton, UInt64.toNat_sub]
    omega
  change (s ++ [0]).getD (a - h.free).toNat _ = _
  rw [List.getD_eq_getElem?_getD, List.getElem?_eq_none hout, Option.getD_none]

theorem grows_put : (upTo low high).Grows h (h.put s) (s.length + 1) where
  kept a ha := by
    have hfree := free_put hroom hhigh
    obtain ⟨hlow, hlt, hlt'⟩ := ha
    exact ⟨⟨hlow, by omega, hlt'⟩, memory_put hroom hhigh (.inl hlt)⟩
  room := by
    have hfree := free_put hroom hhigh
    change high - _ ≤ high - _ + _
    omega

theorem textAt_put (hs : 0 ∉ s) (hlow : low ≤ h.free.toNat) :
    (upTo low high).TextAt (h.put s) h.free s := by
  have hfree := free_put hroom hhigh
  have hlen : (s ++ [0]).length = s.length + 1 := by simp
  have hend : h.free.toNat + (s ++ [0]).length ≤ (h.put s).free.toNat := by omega
  exact ⟨hs, stored_store hlow hend (hfree ▸ hroom)⟩

end Put

/-- Two texts are read and put behind each other. -/
theorem put_append (hlow : 0 < low) (hhigh : high ≤ 0xffffffffffffffff) {a b : UInt64} {s t : Text}
    (hs : (upTo low high).TextAt h a s) (ht : (upTo low high).TextAt h b t)
    (hroom : h.free.toNat + (s ++ t).length + 1 ≤ high) :
    h.memory.textBelow h.free a ++ h.memory.textBelow h.free b = s ++ t ∧
      (upTo low high).Grows h (h.put (s ++ t)) (s.length + t.length + 1) ∧
      (upTo low high).TextAt (h.put (s ++ t)) h.free (s ++ t) := by
  rw [← List.length_append]
  refine ⟨?_, grows_put hroom hhigh, textAt_put hroom hhigh ?_ (low_le_free hs)⟩
  · rw [textBelow_of_textAt hlow hs, textBelow_of_textAt hlow ht]
  · simp [hs.nonzero, ht.nonzero]

theorem clears_upTo {top : UInt64} {slots : Nat} (h : high + 16 * slots + 16 ≤ top.toNat) :
    (upTo low high).Clears top slots where
  space := by omega
  apart _ _ ha := by
    obtain ⟨-, -, hlt⟩ := ha
    omega

end Arena

namespace Native.Processor

variable {σ ι κ : Type} (P : Processor σ ι κ)

/-- Routines that compute powers and remainders in registers and put joined texts where memory is
free, and keep to the calling convention where they do not write to the stack. -/
structure Provides (D : Doubles) (serve : Routine → σ → σ) : Prop where
  pow : ∀ m, P.heap (serve .pow m) = P.heap m ∧
    (P.view (serve .pow m) []).double P.target.roles.floatResult =
      D.pow ((P.view m []).double P.target.roles.floatAccumulator)
        ((P.view m []).double P.target.roles.floatOperand)
  fmod : ∀ m, P.heap (serve .fmod m) = P.heap m ∧
    (P.view (serve .fmod m) []).double P.target.roles.floatResult =
      D.fmod ((P.view m []).double P.target.roles.floatAccumulator)
        ((P.view m []).double P.target.roles.floatOperand)
  concat : ∀ m, P.heap (serve .concat m) = (P.heap m).put
      ((P.heap m).memory.textBelow (P.heap m).free
          ((P.view m []).word P.target.roles.firstArgument) ++
        (P.heap m).memory.textBelow (P.heap m).free
          ((P.view m []).word P.target.roles.secondArgument)) ∧
    (P.view (serve .concat m) []).word P.target.roles.result = (P.heap m).free
  kept : ∀ r top m, (∀ a : UInt64, (P.stackPointer m).toNat ≤ a.toNat →
      (P.heap (serve r m)).memory a = (P.heap m).memory a) → P.kept top m (serve r m)

variable {P} {D : Doubles} {serve : Routine → σ → σ} (h : P.Provides D serve)
include h

/-- A concatenation that has room puts the texts it is given behind each other. -/
theorem Provides.joins {low high : Nat} (hlow : 0 < low) (hhigh : high ≤ 0xffffffffffffffff) {m : σ}
    {s t : Text} (hs : (Arena.upTo low high).TextAt (P.heap m)
      ((P.view m []).word P.target.roles.firstArgument) s)
    (ht : (Arena.upTo low high).TextAt (P.heap m)
      ((P.view m []).word P.target.roles.secondArgument) t)
    (hroom : s.length + t.length + 1 ≤ (Arena.upTo low high).room (P.heap m).free) :
    P.heap (serve .concat m) = (P.heap m).put (s ++ t) ∧
      (P.heap m).free.toNat + (s ++ t).length + 1 ≤ high := by
  have hlen : (P.heap m).free.toNat + (s ++ t).length + 1 ≤ high := by
    change _ ≤ high - _ at hroom
    rw [List.length_append]
    omega
  refine ⟨(h.concat m).1.trans ?_, hlen⟩
  rw [(Arena.put_append hlow hhigh hs ht hlen).1]

variable {symbols : Symbols} (hs : symbols.Distinct)
include hs

/-- Such routines at distinct addresses, with the stack above the memory in use. -/
theorem Provides.runtime {low high : Nat} {top : UInt64} {slots : Nat} (hlow : 0 < low)
    (htop : high + 16 * slots + 16 ≤ top.toNat) :
    P.Runtime (Arena.upTo low high) symbols (.ofSymbols D symbols serve) top slots where
  toClears := Arena.clears_upTo htop
  serves r hr m hb hask := by
    refine ⟨serve r m, World.routine_ofSymbols hs hr m, ?_⟩
    have hsame (hheap : P.heap (serve r m) = P.heap m) : P.kept top m (serve r m) ∧
        (Arena.upTo low high).Grows (P.heap m) (P.heap (serve r m)) 0 := by
      refine ⟨h.kept r top m fun a _ => by rw [hheap], ?_⟩
      rw [hheap]
      exact .refl _
    cases r with
    | pow =>
      obtain ⟨hheap, hx⟩ := h.pow m
      exact ⟨(hsame hheap).1, hx, (hsame hheap).2⟩
    | fmod =>
      obtain ⟨hheap, hx⟩ := h.fmod m
      exact ⟨(hsame hheap).1, hx, (hsame hheap).2⟩
    | concat =>
      have hhigh : high ≤ 0xffffffffffffffff := by
        have := top.toNat_lt
        omega
      refine ⟨h.kept .concat top m fun a ha => ?_, fun s t hst htt hroom => ?_⟩
      · obtain ⟨s, t, hst, htt, hroom⟩ := hask
        obtain ⟨hheap, hlen⟩ := h.joins hlow hhigh hst htt hroom
        obtain ⟨hbelow, -, -⟩ := hb
        rw [hheap]
        exact Arena.memory_put hlen hhigh (.inr (by omega))
      · obtain ⟨hheap, hlen⟩ := h.joins hlow hhigh hst htt hroom
        obtain ⟨-, hgrows, htext⟩ := Arena.put_append hlow hhigh hst htt hlen
        change (Arena.upTo low high).TextAt (P.heap _) _ _ ∧
          (Arena.upTo low high).Grows _ (P.heap _) _
        rw [hheap, (h.concat m).2]
        exact ⟨htext, hgrows⟩

/-- Powers and remainders keep to the calling convention on every machine. -/
theorem Provides.conventional (hconcat : symbols.concat = 0) (top : UInt64) (slots : Nat) :
    P.Conventional symbols (.ofSymbols D symbols serve) top slots := by
  intro r hr m m' _ hm
  cases (World.routine_ofSymbols hs hr m).symm.trans hm
  refine h.kept r top m fun a _ => ?_
  cases r with
  | pow => rw [(h.pow m).1]
  | fmod => rw [(h.fmod m).1]
  | concat => exact absurd hconcat hr

end Native.Processor

end OnePass
