import OnePass.Proofs.Compiler.Mirror
import OnePass.Proofs.Compiler.Operations
import OnePass.Proofs.Machine.Realization

/-!
# Stack discipline

Compiled code consists of steps: a push and the note of it, a pop after the note of it, and actions
that leave the stack alone. Between two steps the operations so far have used and freed slots as the
operand stack says, and they never need more slots than the expression does.
-/

set_option autoImplicit false

namespace OnePass

open Native (Context View height)

/-- The last action is neither a push, of which the note is to follow, nor the note of a pop that is
to follow. -/
def Settled (as : List Action) : Prop :=
  match as.getLast? with
  | some (.operation (.push _)) => False
  | some (.operation (.pushFloat _)) => False
  | some (.note (.popped _ _ _)) => False
  | _ => True

def Operation.Steady (l : Linkage) : Operation → Prop
  | .prologue => False
  | .epilogue => False
  | .push _ => False
  | .pushFloat _ => False
  | .pop _ => False
  | .popFloat _ => False
  | .call address => address ≠ 0 ∧ ∃ r, l.symbols.address r = address
  | _ => True

def Action.Steady (l : Linkage) : Action → Prop
  | .operation o => o.Steady l
  | .note (.pushed _ _ _) => False
  | .note (.popped _ _ _) => False
  | _ => True

inductive Steps (l : Linkage) (limit : Nat) : Nat → List Action → Nat → Prop where
  | nil (d : Nat) : Steps l limit d [] d
  | push {d n : Nat} {o : Operation} {reg : Text} {ty : Ty} {as : List Action}
      (ho : o = .push reg ∨ o = .pushFloat reg) (hd : d < limit)
      (h : Steps l limit (d + 1) as n) :
      Steps l limit d (.operation o :: .note (.pushed reg ty (d + 1)) :: as) n
  | pop {d n : Nat} {o : Operation} {reg : Text} {ty : Ty} {as : List Action}
      (ho : o = .pop reg ∨ o = .popFloat reg) (h : Steps l limit d as n) :
      Steps l limit (d + 1) (.note (.popped reg ty d) :: .operation o :: as) n
  | other {d n : Nat} {a : Action} {as : List Action} (ha : a.Steady l)
      (h : Steps l limit d as n) : Steps l limit d (a :: as) n

namespace Steps

variable {l : Linkage} {limit d m n : Nat} {as bs : List Action}

theorem append (h : Steps l limit d as m) (h' : Steps l limit m bs n) :
    Steps l limit d (as ++ bs) n := by
  induction h with
  | nil d => exact h'
  | push ho hd _ ih => exact .push ho hd (ih h')
  | pop ho _ ih => exact .pop ho (ih h')
  | other ha _ ih => exact .other ha (ih h')

theorem shift_steady {o : Operation} (h : o.Steady l) (d : Nat) : Native.shift d o = d := by
  cases o <;> first | rfl | exact h.elim

theorem height_steady {a : Action} (ha : a.Steady l) (address : UInt64) (d : Nat) :
    height d (a.operations address) = d := by
  cases a with
  | operation o => exact shift_steady ha d
  | loadFloat freg x | loadText reg s | note e => rfl

theorem height_append (d : Nat) (os os' : List Operation) :
    height d (os ++ os') = height (height d os) os' := List.foldl_append

/-- The operations of steps use and free slots as the operand stack does. -/
theorem height_eq (h : Steps l limit d as n) (base : UInt64) (offset : Nat) :
    height d (linked base offset as) = n := by
  induction h generalizing offset with
  | nil d => rfl
  | push ho _ _ ih =>
    rcases ho with rfl | rfl <;> exact ih _
  | pop ho _ ih =>
    rcases ho with rfl | rfl <;> exact ih _
  | other ha _ ih =>
    rw [linked, height_append, height_steady ha]
    exact ih _

theorem settled_tail {a : Action} (h : Settled (a :: as)) : Settled as := by
  cases as with
  | nil => trivial
  | cons b as => exact h

theorem follow_steady {a : Action} (ha : a.Steady l) (s : OperandStack) : s.follow a = s := by
  cases a with
  | note e => cases e <;> first | rfl | exact ha.elim
  | operation o | loadFloat freg x | loadText reg s => rfl

theorem depth_follow_popped {s : OperandStack} (h : s.depth = d + 1) (reg : Text) (ty : Ty)
    (k : Nat) : (s.follow (.note (.popped reg ty k))).depth = d := by
  obtain ⟨t, slots, hs⟩ := List.exists_cons_of_length_eq_add_one h
  have hlen : slots.length = d := by
    rw [OperandStack.depth, hs] at h
    exact Nat.succ.inj h
  rw [OperandStack.follow, OperandStack.pop, hs]
  exact hlen

/-- Between two steps, the slots in use are as many as the operand stack is deep. -/
theorem height_eq_depth (h : Steps l limit d as n) (base : UInt64) (offset : Nat)
    {pre post : List Action} (he : as = pre ++ post) (hs : Settled pre) {s : OperandStack}
    (hd : s.depth = d) :
    height d (linked base offset pre) = (pre.foldl OperandStack.follow s).depth := by
  induction h generalizing offset pre s with
  | nil d =>
    obtain ⟨rfl, -⟩ := List.append_eq_nil_iff.1 he.symm
    exact hd.symm
  | @push d n o reg ty as ho _ _ ih =>
    match pre, he, hs with
    | [], _, _ => exact hd.symm
    -- The slot is in use and the note is to follow: `pre` is not settled.
    | [_], he, hs =>
      obtain ⟨rfl, -⟩ := List.cons.inj he
      rcases ho with rfl | rfl <;> exact hs.elim
    | _ :: _ :: pre, he, hs =>
      simp only [List.cons_append, List.cons.injEq] at he
      obtain ⟨rfl, rfl, he⟩ := he
      have hpush : (s.push ty reg).depth = d + 1 := congrArg (· + 1) hd
      have hk := ih offset he (settled_tail (settled_tail hs)) hpush
      rcases ho with rfl | rfl <;> exact hk
  | @pop d n o reg ty as ho _ ih =>
    match pre, he, hs with
    | [], _, _ => exact hd.symm
    | [_], he, hs =>
      obtain ⟨rfl, -⟩ := List.cons.inj he
      exact hs.elim
    | _ :: _ :: pre, he, hs =>
      simp only [List.cons_append, List.cons.injEq] at he
      obtain ⟨rfl, rfl, he⟩ := he
      have hk := ih offset he (settled_tail (settled_tail hs)) (depth_follow_popped hd reg ty d)
      rcases ho with rfl | rfl <;> exact hk
  | other ha _ ih =>
    match pre, he, hs with
    | [], _, _ => exact hd.symm
    | _ :: pre, he, hs =>
      simp only [List.cons_append, List.cons.injEq] at he
      obtain ⟨rfl, he⟩ := he
      rw [linked, height_append, height_steady ha, List.foldl_cons, follow_steady ha]
      exact ih _ he (settled_tail hs) hd

theorem enabled_of_steady {c : Context} (hc : c.symbols = l.symbols) (ht : ¬c.contract.total)
    {o : Operation} (h : o.Steady l) (v : View) : c.Enabled o v := by
  cases o with
  | call address =>
    obtain ⟨ha, r, hr⟩ := h
    exact ⟨ha, r, by rw [hc, hr], fun hn => absurd hn ht⟩
  | _ => trivial

/-- Steps can be performed within their limit, where nothing is asked of routines. -/
theorem wp {c : Context} (hc : c.symbols = l.symbols) (ht : ¬c.contract.total)
    (hl : c.limit = limit) (h : Steps l limit d as n) (base : UInt64) (offset : Nat) {v : View}
    (hv : v.slots.length = d) :
    c.wp (linked base offset as) (fun v' => v'.slots.length = n) v := by
  induction h generalizing offset v with
  | nil d => exact hv
  | push ho hd _ ih =>
    subst hv
    rcases ho with rfl | rfl <;>
      exact ⟨Nat.lt_of_lt_of_eq hd hl.symm, fun v' he => ih _ (by rw [he.1, List.length_cons])⟩
  | pop ho _ ih =>
    have hne : v.slots ≠ [] := by
      intro hnil
      rw [hnil] at hv
      cases hv
    rcases ho with rfl | rfl <;>
      exact ⟨hne, fun v' he => ih _ (by rw [he.1, List.length_cons] at hv; omega)⟩
  | @other d n a as ha _ ih =>
    have hone : ∀ o, o.Steady l → c.wp (o :: linked base
        (offset + (a.constant offset).length) as) (fun v' => v'.slots.length = n) v := by
      intro o ho
      refine ⟨enabled_of_steady hc ht ho v, fun v' he => ih _ ?_⟩
      rw [Context.length_slots (enabled_of_steady hc ht ho v) he, shift_steady ho, hv]
    cases a with
    | operation o => exact hone o ha
    | loadFloat freg x => exact hone _ trivial
    | loadText reg s => exact hone _ trivial
    | note e => exact ih _ hv

end Steps

section Expressions

variable {l : Linkage} {limit d : Nat}

theorem steps_pushCode (ty : Ty) (hd : d < limit) :
    Steps l limit d (l.pushCode ty d) (d + 1) := by
  unfold Linkage.pushCode
  cases ty.isFloat with
  | true => exact .push (.inr rfl) hd (.nil _)
  | false => exact .push (.inl rfl) hd (.nil _)

theorem steps_popCode (reg : Text) (ty : Ty) : Steps l limit (d + 1) (popCode reg ty d) d :=
  .pop (.inl rfl) (.nil d)

theorem steps_popFloatCode (reg : Text) : Steps l limit (d + 1) (popFloatCode reg d) d :=
  .pop (.inr rfl) (.nil d)

theorem steps_popAsFloatCode (freg reg : Text) (ty : Ty) :
    Steps l limit (d + 1) (popAsFloatCode freg reg ty d) d := by
  unfold popAsFloatCode
  split
  · exact steps_popFloatCode freg
  · exact (steps_popCode reg ty).append (.other trivial (.nil d))

theorem steps_operandsCode (left right : Ty) (c : Coercion) :
    Steps l limit (d + 2) (l.operandsCode left right d c) d := by
  cases c with
  | int | concat => exact (steps_popCode ..).append (steps_popCode ..)
  | float => exact (steps_popAsFloatCode ..).append (steps_popAsFloatCode ..)

theorem steps_operations {os : List Operation} (h : ∀ o ∈ os, o.Steady l) :
    Steps l limit d (os.map .operation) d := by
  induction os with
  | nil => exact .nil d
  | cons o os ih =>
    exact .other (h o List.mem_cons_self) (ih fun o' ho => h o' (List.mem_cons_of_mem o ho))

theorem steady_computeCode {c : Coercion} {op : Operator} (h : l.symbols.has c op) :
    ∀ o ∈ l.computeCode c op, o.Steady l := by
  unfold Linkage.computeCode
  cases hr : c.routine? op with
  | some r =>
    refine List.forall_mem_cons.2 ⟨⟨h r hr, r, rfl⟩, List.forall_mem_cons.2 ⟨?_,
      List.forall_mem_nil _⟩⟩
    cases r <;> trivial
  | none => cases c <;> exact List.forall_mem_cons.2 ⟨trivial, List.forall_mem_nil _⟩

theorem steps_binaryCode {op : Operator} {left right t : Ty} {c : Coercion}
    (hp : op.promote left right = .ok (t, c)) (hc : l.symbols.has c op) (hd : d < limit) :
    Steps l limit (d + 2) (l.binaryCode op left right d) (d + 1) := by
  unfold Linkage.binaryCode
  rw [hp]
  exact .other trivial (((steps_operandsCode left right c).append
    (steps_operations (steady_computeCode hc))).append (steps_pushCode t hd))

theorem steps_signCode {op : Operator} {operand t : Ty} (hp : op.Signs operand t) (hd : d < limit) :
    Steps l limit (d + 1) (l.signCode op operand d) (d + 1) := by
  cases hp with
  | plusInt => exact .nil _
  | plusFloat | minusFloat =>
    exact (steps_popFloatCode _).append (.other trivial (steps_pushCode _ hd))
  | minusInt => exact (steps_popCode _ _).append (.other trivial (steps_pushCode _ hd))

/-- The code of an expression adds one value, and needs so many slots. -/
theorem Expr.steps_code {e : Expr} {t : Ty} (ht : e.compiles? l.symbols = some t)
    (hd : d + e.need ≤ limit) : Steps l limit d (e.code l d) (d + 1) := by
  induction e generalizing t d with
  | null | bool b | int n | float x | string s => exact .other trivial (steps_pushCode _ hd)
  | sign op e ih =>
    obtain ⟨u, hu, hr⟩ := compiles?_sign ht
    have hpos := e.need_pos
    rw [code, ty_of_compiles? hu]
    exact (ih hu hd).append (steps_signCode (Operator.signs_of_unaryResult hr)
      (Nat.lt_of_lt_of_le (Nat.lt_add_of_pos_right hpos) hd))
  | binary op a b iha ihb =>
    obtain ⟨u, w, c, hu, hw, hp, hc⟩ := compiles?_binary ht
    have hpos := b.need_pos
    rw [need] at hd
    rw [code, ty_of_compiles? hu, ty_of_compiles? hw]
    exact ((iha hu (by omega)).append (ihb hw (by omega))).append
      (steps_binaryCode hp hc (by omega))

theorem Expr.steps_body {e : Expr} {t : Ty} (ht : e.compiles? l.symbols = some t)
    (hn : e.need ≤ limit) : Steps l limit 0 (e.body l) 0 := by
  refine (Expr.steps_code ht (by omega)).append ?_
  unfold Linkage.resultCode
  split
  · exact steps_popFloatCode _
  · exact steps_popCode _ _

theorem Steps.height_function {e : Expr} (h : Steps l limit 0 (e.body l) 0) (base : UInt64)
    (offset : Nat) {pre post : List Action} (he : e.function l = pre ++ post) (hpre : pre ≠ [])
    (hpost : post ≠ []) (hs : Settled pre) :
    height 0 (linked base offset pre) = (OperandStack.after pre).depth := by
  obtain ⟨a, pre, rfl⟩ := List.exists_cons_of_ne_nil hpre
  obtain ⟨rfl, hrest⟩ := List.cons.inj he
  obtain ⟨last, hlast⟩ : ∃ last, e.body l = pre ++ last := by
    rcases List.append_eq_append_iff.1 hrest with ⟨more, hmore, hend⟩ | ⟨last, hlast, -⟩
    · cases more with
      | nil => exact ⟨[], by rw [hmore, List.append_nil, List.append_nil]⟩
      | cons b more =>
        obtain ⟨-, hnil⟩ := List.cons.inj hend
        exact absurd (List.append_eq_nil_iff.1 hnil.symm).2 hpost
    · exact ⟨last, hlast⟩
  exact h.height_eq_depth base offset hlast (settled_tail hs) rfl

/-- Behind the code of the first steps of a function, the native stack is as high as the operand
stack was deep. -/
theorem Native.Realization.Inside.level_depth {σ ι κ : Type} {P : Native.Processor σ ι κ}
    {A : Native.Activation P} {R : Native.Realization A} {e : Expr} {base : UInt64} {offset : Nat}
    {s : σ} (h : R.Inside (linked base offset (e.function l)) s)
    (hsteps : Steps l limit 0 (e.body l) 0) (hsolid : R.Solid (linked base offset (e.function l)))
    {pre post : List Action} (he : e.function l = pre ++ post) (hpre : pre ≠ []) (hs : Settled pre)
    (hp : P.position s = R.span (linked base offset pre)) :
    A.Level (OperandStack.after pre).depth s := by
  have hall : linked base offset (e.function l) = linked base offset pre ++
      linked base (offset + (constants offset pre).length) post := by
    rw [he, linked_append]
  have hpost : post ≠ [] := by
    rintro rfl
    have hlt := h.position_lt
    rw [hall, linked, List.append_nil] at hlt
    omega
  have hspan : 0 < R.span (linked base offset pre) := by
    obtain ⟨a, pre, rfl⟩ := List.exists_cons_of_ne_nil hpre
    obtain ⟨rfl, -⟩ := List.cons.inj he
    have hcons := R.span_append [.prologue] (linked base offset pre)
    exact Nat.lt_of_lt_of_eq (Nat.lt_of_lt_of_le R.span_prologue (Nat.le_add_right ..)) hcons.symm
  rw [← hsteps.height_function base offset he hpre hpost hs]
  exact h.level_of_position hsolid hall hspan hp

end Expressions

end OnePass
