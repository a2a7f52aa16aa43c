import Mathlib.Data.List.Forall2
import OnePass.Proofs.Compiler.Operations

/-!
# Code for other routines

Where the routines are matters for the calls alone: for other addresses an expression has the same
actions, with the calls redirected.
-/

set_option autoImplicit false

namespace OnePass

def Action.isCall : Action → Bool
  | .operation (.call _) => true
  | _ => false

inductive Action.Redirected (s s' : Symbols) : Action → Action → Prop where
  | call (r : Routine) :
      Redirected s s' (.operation (.call (s.address r))) (.operation (.call (s'.address r)))
  | other {a : Action} (h : a.isCall = false) : Redirected s s' a a

abbrev Redirected (s s' : Symbols) : List Action → List Action → Prop :=
  List.Forall₂ (Action.Redirected s s')

variable {s s' : Symbols}

theorem Redirected.append {as as' bs bs' : List Action} (ha : Redirected s s' as as')
    (hb : Redirected s s' bs bs') : Redirected s s' (as ++ bs) (as' ++ bs') :=
  List.rel_append ha hb

theorem Action.isCall_of_uses {roles : Roles} {a : Action}
    (h : ∀ s : Symbols, a.Uses ⟨roles, s⟩) : a.isCall = false := by
  unfold isCall
  split
  · rename_i address
    -- Routines none of which is at this address.
    have hused := h ⟨address + 1, address + 1, address + 1⟩ 0 _ (List.mem_singleton_self _)
    generalize ho : Operation.call address = o at hused
    cases hused with
    | call r => cases r <;> simp [Symbols.address] at ho
    | _ => cases ho
  · rfl

theorem redirected_of_uses {roles : Roles} {as : List Action}
    (h : ∀ s : Symbols, ∀ a ∈ as, a.Uses ⟨roles, s⟩) : Redirected s s' as as :=
  List.forall₂_same.2 fun a ha => .other (Action.isCall_of_uses fun t => h t a ha)

variable (s s') (roles : Roles)

theorem redirected_pushCode (ty : Ty) (depth : Nat) :
    Redirected s s' ((⟨roles, s⟩ : Linkage).pushCode ty depth)
      ((⟨roles, s'⟩ : Linkage).pushCode ty depth) :=
  redirected_of_uses fun t => pushCode_uses (l := ⟨roles, t⟩) ty depth

theorem redirected_computeCode (c : Coercion) (op : Operator) :
    Redirected s s' (((⟨roles, s⟩ : Linkage).computeCode c op).map .operation)
      (((⟨roles, s'⟩ : Linkage).computeCode c op).map .operation) := by
  unfold Linkage.computeCode
  cases c.routine? op with
  | some r => exact .cons (.call r) (.cons (.other (by cases r <;> rfl)) .nil)
  | none => cases c <;> exact .cons (.other rfl) .nil

theorem redirected_binaryCode (op : Operator) (left right : Ty) (depth : Nat) :
    Redirected s s' ((⟨roles, s⟩ : Linkage).binaryCode op left right depth)
      ((⟨roles, s'⟩ : Linkage).binaryCode op left right depth) := by
  unfold Linkage.binaryCode
  cases op.promote left right with
  | error f => exact .nil
  | ok r =>
    obtain ⟨result, c⟩ := r
    have hoperands : Redirected s s' ((⟨roles, s⟩ : Linkage).operandsCode left right depth c) _ :=
      redirected_of_uses fun t => operandsCode_uses (l := ⟨roles, t⟩) left right depth c
    have hcompute := redirected_computeCode s s' roles c op
    exact .cons (.other rfl)
      ((hoperands.append hcompute).append (redirected_pushCode s s' roles result depth))

namespace Expr

theorem redirected_code (e : Expr) (depth : Nat) :
    Redirected s s' (e.code ⟨roles, s⟩ depth) (e.code ⟨roles, s'⟩ depth) := by
  induction e generalizing depth with
  | null | bool b | int n | float x | string t =>
    exact .cons (.other rfl) (redirected_pushCode s s' roles _ depth)
  | sign op e ih =>
    exact (ih depth).append
      (redirected_of_uses fun t => signCode_uses (l := ⟨roles, t⟩) op e.ty depth)
  | binary op a b iha ihb =>
    exact ((iha depth).append (ihb (depth + 1))).append
      (redirected_binaryCode s s' roles op a.ty b.ty depth)

/-- For other routines, a function has the same actions with the calls redirected. -/
theorem redirected_function (e : Expr) :
    Redirected s s' (e.function ⟨roles, s⟩) (e.function ⟨roles, s'⟩) := by
  have hresult : Redirected s s' ((⟨roles, s⟩ : Linkage).resultCode e.ty) _ :=
    redirected_of_uses fun t => resultCode_uses (l := ⟨roles, t⟩) e.ty
  have hbody : Redirected s s' (e.body ⟨roles, s⟩) (e.body ⟨roles, s'⟩) :=
    (redirected_code s s' roles e 0).append hresult
  exact .cons (.other rfl) (hbody.append (.cons (.other rfl) .nil))

end Expr

end OnePass
