import OnePass.Proofs.Compiler.Execution
import OnePass.Proofs.X86.Refinement

/-!
# Functions on x86-64

The code of a function is that of its operations between a prologue and an epilogue. It is followed
from the first instruction to the return, with the caller's registers restored at the end.
-/

set_option autoImplicit false

namespace OnePass.X86

namespace Activation

open Native (Used)

variable {A : Activation}

theorem step_inside (i : Resolved) (is : List Resolved) {all : List Operation}
    {done : Machine → Prop} {s s' : Machine} (hc : CodeAt A.code s.position (i :: is))
    (hi : i.Encodable)
    (hx : execute A.world A.base (s.advance i.encode.length) i.plain = .running s')
    (hsafe : A.Safe s i.plain) (hplace : A.realization.Place all s)
    (k : A.Leads (A.realization.Inside all) done s') :
    A.Leads (A.realization.Inside all) done s :=
  .step ⟨safe_of_fetch hc hi hsafe, hplace⟩ (next_of_execute hc hi hx) k

theorem return_inside {all : List Operation} {s : Machine} {post : Native.View → Prop}
    (hc : CodeAt A.code s.position [.ret]) (hplace : A.realization.Place all s)
    (hr : Restored A.entry s) (hp : post (view s [])) :
    A.Leads (A.realization.Inside all) (A.realization.Leaving all post) s := by
  refine .done ⟨⟨safe_of_fetch hc trivial (.of_still id rfl), hplace⟩, hr, _,
    step_at (i := .ret) hc trivial, ?_⟩
  change post (view _ [])
  rw [view_adjust]
  exact hp

theorem leads_prologue {todo : List Operation} {done : Machine → Prop}
    (hc : CodeAt A.code 0 (lowerAll [.prologue]))
    (k : ∀ m, m.position = codeSize (lowerAll [.prologue]) → A.Stands m [] →
      A.context.Quiet (view A.entry []) (view m []) →
      A.Leads (A.realization.Inside (.prologue :: todo)) done m) :
    A.Leads (A.realization.Inside (.prologue :: todo)) done A.entry := by
  have hpos : A.entry.position = 0 := A.start
  have hspace := A.frame_space
  have hf := A.toNat_frame
  have hlt := (A.entry.get .rsp).toNat_lt
  have hneg : A.entry.get .rsp + -8 = A.frame := (UInt64.sub_eq_add_neg _ _).symm
  have hfr : A.entry.get .rsp - 8 = A.frame := rfl
  have hc' : CodeAt A.code 1 [.movRbpRsp] := CodeAt.right [.pushRbp] hc
  have hsize : codeSize (lowerAll [.prologue]) = 4 := by decide
  have hplace (s : Machine) (h : s.position < 4) : A.realization.Place (.prologue :: todo) s :=
    ⟨[], .prologue, todo, rfl, Nat.zero_le _, Nat.lt_of_lt_of_eq h hsize.symm,
      fun h => absurd rfl h⟩
  have hp : (Instr.pushRbp : Resolved).encode.length = 1 := rfl
  refine step_inside .pushRbp [.movRbpRsp] (hpos ▸ hc) trivial rfl ⟨False.elim, fun a ha => ?_⟩
    (hplace _ (by omega)) ?_
  · obtain rfl := List.mem_singleton.1 ha
    change _ ∧ _ ≤ (A.entry.get .rsp).toNat
    rw [hfr]
    omega
  refine step_inside .movRbpRsp [] (by simpa [hpos, hp] using hc') trivial rfl (.of_still id rfl)
    (hplace _ (by simp [hpos, hp]))
    (k _ ?_ ⟨?_, ?_, Nat.zero_le _, trivial, ?_, fun r hr => ?_⟩ ⟨rfl, ?_⟩)
  · simp [hpos, hsize]
    rfl
  · simp +decide [hneg]
  · simp +decide [hneg]
  · simp [hfr]
  · have h1 : Gp.rbp ≠ r := by
      rintro rfl
      cases hr
    have h2 : Gp.rsp ≠ r := by
      rintro rfl
      cases hr
    simp [h1, h2]
  · intro a ha
    simp only [Native.Activation.context, processor] at ha
    simp only [view, Machine.ram_set, Machine.ram_advance, Machine.ram_storeWord,
      Machine.ram_adjust]
    exact Ram.storeWord_outside _ _ (by simp [hfr]; omega) (by simp [hfr]; omega)

theorem leads_epilogue (before : List Operation) {m : Machine} {post : Native.View → Prop}
    (hheight : Native.height 0 before = 0) (hpos : m.position = codeSize (lowerAll before))
    (hc : CodeAt A.code m.position (lowerAll [.epilogue])) (hs : A.Stands m [])
    (hp : post (view m [])) :
    A.Leads (A.realization.Inside (before ++ [Operation.epilogue]))
      (A.realization.Leaving (before ++ [Operation.epilogue]) post) m := by
  have hsize : codeSize (lowerAll (before ++ [Operation.epilogue])) = m.position + 5 := by
    have h5 : codeSize (lowerAll [Operation.epilogue]) = 5 := by decide
    rw [lowerAll_append, codeSize_append, h5, hpos]
  have hplace (s : Machine) (hlow : m.position ≤ s.position) (hhigh : s.position < m.position + 5)
      (hbegin : s.position = m.position → A.Level 0 s) :
      A.realization.Place (before ++ [Operation.epilogue]) s :=
    ⟨before, .epilogue, [], rfl, Nat.le_trans (Nat.le_of_eq hpos.symm) hlow,
      Nat.lt_of_lt_of_eq hhigh hsize.symm, fun _ h => by
        rw [hheight]
        exact hbegin (h.trans hpos.symm)⟩
  have h0 : (Instr.movRspRbp : Resolved).encode.length = 3 := rfl
  have h1 : (Instr.popRbp : Resolved).encode.length = 1 := rfl
  have hc1 : CodeAt A.code (m.position + 3) [.popRbp, .ret] := CodeAt.right [.movRspRbp] hc
  have hc2 : CodeAt A.code (m.position + 4) [.ret] := CodeAt.right [.movRspRbp, .popRbp] hc
  have hback : A.frame + 8 = A.entry.get .rsp := UInt64.sub_add_cancel _ _
  refine step_inside .movRspRbp [.popRbp, .ret] hc trivial rfl (.of_still id rfl)
    (hplace m (Nat.le_refl _) (by omega) fun _ => hs.level) ?_
  refine step_inside .popRbp [.ret] (by simpa [h0] using hc1) trivial rfl (.of_still id rfl)
    (hplace _ (by simp) (by simp [h0]) fun h => by simp [h0] at h) ?_
  refine return_inside (by simpa [h0, h1] using hc2)
    (hplace _ (by simp; omega) (by simp [h0, h1]) fun h => by simp [h0, h1] at h; omega)
    ⟨?_, ?_, fun r hr => ?_⟩ ?_
  · simp +decide [hs.frame, hback]
  · simp +decide [Machine.top, hs.frame, hs.saved]
  · have h1 : Gp.rbp ≠ r := by
      rintro rfl
      cases hr
    have h2 : Gp.rsp ≠ r := by
      rintro rfl
      cases hr
    simp [h1, h2, hs.preserved r hr]
  · rw [view_congr]
    · exact hp
    · intro r hr
      have h1 : Gp.rbp ≠ r := by
        rintro rfl
        cases hr
      have h2 : Gp.rsp ≠ r := by
        rintro rfl
        cases hr
      simp [h1, h2]
    · simp
    · rfl
    · rfl

def procedure (A : Activation) : Native.Procedure A where
  toRealization := A.realization
  prologue := leads_prologue
  epilogue := leads_epilogue

end Activation

def backend : Native.Backend processor where
  encoder := encoder
  procedure := Activation.procedure
  loads _ := ⟨_, rfl⟩
  code_of_load A os h := ⟨[], by rw [← Option.some.inj h, List.append_nil, ← encode_eq]; rfl⟩
  length_encode A os := (congrArg List.length (encode_eq os)).trans (Nat.one_mul _).symm

end OnePass.X86
