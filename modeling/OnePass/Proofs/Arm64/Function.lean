import OnePass.Proofs.Arm64.Refinement
import OnePass.Proofs.Compiler.Execution

/-!
# Functions on ARM64

The code of a function is that of its operations between a prologue and an epilogue. It is followed
from the first instruction to the return, with the caller's registers restored at the end.
-/

set_option autoImplicit false

namespace OnePass.Arm64

namespace Activation

open Native (Used)

variable {A : Activation}

theorem step_inside (i : Resolved) (is : List Resolved) (t : Machine) {all : List Operation}
    {done : Machine → Prop} {s : Machine} (hc : CodeAt A.code s.position (i :: is))
    (hi : i.Encodable) (hx : execute A.world A.base s i = next t) (ht : t.position = s.position)
    (hsafe : A.Safe s i) (hplace : A.realization.Place all s)
    (k : A.Leads (A.realization.Inside all) done (t.moveTo (s.position + 1))) :
    A.Leads (A.realization.Inside all) done s := by
  rw [next_eq, ht] at hx
  exact .step ⟨safe_of_fetch hc hi hsafe, hplace⟩ (advance_of_execute hc hi hx) k

theorem return_inside {all : List Operation} {s : Machine} {post : Native.View → Prop}
    (hc : CodeAt A.code s.position [.ret]) (hplace : A.realization.Place all s)
    (hr : Restored A.entry s) (hp : post (view s [])) :
    A.Leads (A.realization.Inside all) (A.realization.Leaving all post) s :=
  .done ⟨⟨safe_of_fetch hc trivial (.of_still id rfl), hplace⟩, hr, s,
    step_at (i := .ret) hc trivial, hp⟩

theorem stands_enter (p n : Nat) :
    A.Stands ((((enter A.entry).moveTo p).set framePointer (enter A.entry).sp).moveTo n) [] := by
  have hspace : 16 * A.limit + 16 ≤ A.entry.sp.toNat := A.space
  have hf := A.toNat_frame
  have hlt := A.entry.sp.toNat_lt
  have hfr : A.entry.sp - 16 = A.frame := rfl
  have h8 : (A.frame + 8).toNat = A.frame.toNat + 8 := toNat_add_ofNat (i := 8) (by omega)
  refine ⟨?_, ?_, Nat.zero_le _, trivial, ?_, ?_, fun r hr => ?_, fun x hx => ?_⟩
  · simp +decide [enter, hfr]
  · simp [enter, hfr]
  · simp [enter, hfr]
    rw [Ram.word_storeWord_outside _ _ (by omega) (by omega) (by omega), Ram.word_storeWord_self]
  · simp [enter, hfr]
  · simp [Ne.symm (Gp.ne_framePointer hr)]
    rfl
  · simp
    rfl

theorem quiet_enter (p n : Nat) : A.context.Quiet (view A.entry [])
    (view ((((enter A.entry).moveTo p).set framePointer (enter A.entry).sp).moveTo n) []) := by
  have hspace : 16 * A.limit + 16 ≤ A.entry.sp.toNat := A.space
  have hf := A.toNat_frame
  have hlt := A.entry.sp.toNat_lt
  have hfr : A.entry.sp - 16 = A.frame := rfl
  have h8 : (A.frame + 8).toNat = A.frame.toNat + 8 := toNat_add_ofNat (i := 8) (by omega)
  refine ⟨by simp [view]; rfl, fun a ha => ?_⟩
  simp only [Native.Activation.context, processor] at ha
  simp only [view, Machine.ram_moveTo, Machine.ram_set, enter, hfr]
  rw [Ram.storeWord_outside _ _ (by omega) (by omega),
    Ram.storeWord_outside _ _ (by omega) (by omega)]

/-- The prologue: the frame pointer and the return address are saved, and the frame is where the
stack pointer is. -/
theorem leads_prologue {todo : List Operation} {done : Machine → Prop}
    (hc : CodeAt A.code 0 (lowerAll [.prologue]))
    (k : ∀ m, m.position = (lowerAll [.prologue]).length → A.Stands m [] →
      A.context.Quiet (view A.entry []) (view m []) →
      A.Leads (A.realization.Inside (.prologue :: todo)) done m) :
    A.Leads (A.realization.Inside (.prologue :: todo)) done A.entry := by
  have hpos : A.entry.position = 0 := A.start
  have hspace : 16 * A.limit + 16 ≤ A.entry.sp.toNat := A.space
  have hf := A.toNat_frame
  have hlt := A.entry.sp.toNat_lt
  have hfr : A.entry.sp - 16 = A.frame := rfl
  have h8 : (A.frame + 8).toNat = A.frame.toNat + 8 := toNat_add_ofNat (i := 8) (by omega)
  have hc' : CodeAt A.code 1 [.movFpSp] := CodeAt.right [.stpFrame] hc
  have hplace (s : Machine) (h : s.position < 2) : A.realization.Place (.prologue :: todo) s :=
    ⟨[], .prologue, todo, rfl, Nat.zero_le _, h, fun h => absurd rfl h⟩
  refine step_inside .stpFrame [.movFpSp] (enter A.entry) (hpos ▸ hc) trivial rfl rfl
    ⟨False.elim, fun a ha => ?_⟩
    (hplace _ (by omega)) ?_
  · change a ∈ Instr.stores A.entry .stpFrame at ha
    change _ ∧ _ ≤ A.entry.sp.toNat
    simp only [Instr.stores, hfr, List.mem_cons, List.not_mem_nil, or_false] at ha
    rcases ha with rfl | rfl <;> omega
  refine step_inside .movFpSp [] _ (by simpa [hpos] using hc') trivial rfl (by simp)
    (.of_still id rfl) (hplace _ (by simp [hpos]))
      (k _ (by simp [hpos]; rfl) (stands_enter _ _) (quiet_enter _ _))

theorem leads_epilogue (before : List Operation) {m : Machine} {post : Native.View → Prop}
    (hheight : Native.height 0 before = 0) (hpos : m.position = (lowerAll before).length)
    (hc : CodeAt A.code m.position (lowerAll [.epilogue])) (hs : A.Stands m [])
    (hp : post (view m [])) :
    A.Leads (A.realization.Inside (before ++ [Operation.epilogue]))
      (A.realization.Leaving (before ++ [Operation.epilogue]) post) m := by
  have hsize : (lowerAll (before ++ [Operation.epilogue])).length = m.position + 3 := by
    rw [lowerAll_append, List.length_append, hpos]
    rfl
  have hplace (s : Machine) (hlow : m.position ≤ s.position) (hhigh : s.position < m.position + 3)
      (hbegin : s.position = m.position → A.Level 0 s) :
      A.realization.Place (before ++ [Operation.epilogue]) s :=
    ⟨before, .epilogue, [], rfl, Nat.le_trans (Nat.le_of_eq hpos.symm) hlow,
      Nat.lt_of_lt_of_eq hhigh hsize.symm, fun _ h => by
        rw [hheight]
        exact hbegin (h.trans hpos.symm)⟩
  have hc1 : CodeAt A.code (m.position + 1) [.ldpFrame, .ret] := CodeAt.right [.movSpFp] hc
  have hc2 : CodeAt A.code (m.position + 2) [.ret] := CodeAt.right [.movSpFp, .ldpFrame] hc
  have hback : A.frame + 16 = A.entry.sp := UInt64.sub_add_cancel _ _
  refine step_inside .movSpFp [.ldpFrame, .ret] (m.withSp A.frame) hc trivial
    (by rw [← hs.frame]; rfl) rfl
    (.of_still id rfl)
    (hplace m (Nat.le_refl _) (by omega) fun _ => hs.level) ?_
  refine step_inside .ldpFrame [.ret] _ hc1 trivial rfl (by simp [leave]) (.of_still id rfl)
    (hplace _ (by simp) (by simp) fun h => by simp at h) ?_
  refine return_inside (by simpa [leave] using hc2)
    (hplace _ (by simp [leave]; omega) (by simp [leave]) fun h => by simp [leave] at h; omega)
    ⟨?_, ?_, ?_, fun r hr => ?_, fun x hx => ?_⟩ ?_
  · simp [leave, hback]
  · simp +decide [leave, hs.saved]
  · simp +decide [leave, hs.savedLink]
  · simp [leave, Ne.symm (Gp.ne_framePointer hr), Ne.symm (Gp.ne_linkRegister hr),
      hs.preserved r hr]
  · simp [leave, hs.doubles x hx]
  · rw [view_congr (m := m)]
    · exact hp
    · intro r hr
      have h1 : framePointer ≠ r := by
        rintro rfl
        cases hr
      have h2 : linkRegister ≠ r := by
        rintro rfl
        cases hr
      simp [leave, h1, h2]
    · simp [leave]
    · simp [leave]
    · simp [leave]

def procedure (A : Activation) : Native.Procedure A where
  toRealization := A.realization
  prologue := leads_prologue
  epilogue := leads_epilogue

end Activation

def backend : Native.Backend processor where
  encoder := encoder
  procedure := Activation.procedure
  loads os := ⟨_, congrArg (Option.map List.toArray)
    ((congrArg words (encode_eq os)).trans (words_encodeAll _))⟩
  code_of_load A os h := by
    obtain ⟨ws, hws, hcode⟩ := Option.map_eq_some_iff.1 h
    have hwords := ((congrArg words (encode_eq os)).trans (words_encodeAll _)).symm.trans hws
    exact ⟨[], by rw [← hcode, ← Option.some.inj hwords, List.append_nil]; rfl⟩
  length_encode A os := (congrArg List.length (encode_eq os)).trans (length_encodeAll _)

end OnePass.Arm64
