import OnePass.Expr.Eval
import OnePass.Proofs.Compiler.Operations
import OnePass.Proofs.Expr.Texts
import OnePass.Proofs.Machine.Arena

/-!
# Code computes values

The operations of an expression push a word that represents its value, whatever the machine is that
performs them: by induction over the expression, with one argument for each kind of operator.
-/

set_option autoImplicit false

namespace OnePass

namespace Value

def extent : Value → Nat
  | .string s => s.length + 1
  | _ => 0

variable {v w : Value}

theorem exists_int (h : v.ty = .int) : ∃ n, v = .int n := by
  cases v <;> first | exact ⟨_, rfl⟩ | cases h

theorem exists_float (h : v.ty = .float) : ∃ x, v = .float x := by
  cases v <;> first | exact ⟨_, rfl⟩ | cases h

theorem exists_string (h : v.ty = .string) : ∃ s, v = .string s := by
  cases v <;> first | exact ⟨_, rfl⟩ | cases h

theorem ty_signed {op : Operator} {t : Ty} (h : op.Signs v.ty t) : (v.signed op).ty = t := by
  generalize hv : v.ty = u at h
  cases h with
  | plusInt | minusInt =>
    obtain ⟨n, rfl⟩ := exists_int hv
    rfl
  | plusFloat | minusFloat =>
    obtain ⟨x, rfl⟩ := exists_float hv
    rfl

theorem ty_combine (D : Doubles) {op : Operator} {t : Ty} {c : Coercion}
    (h : op.Promotes v.ty w.ty t c) : (Value.combine D op v w).ty = t := by
  generalize hv : v.ty = u at h
  generalize hw : w.ty = u' at h
  cases h with
  | ints =>
    obtain ⟨n, rfl⟩ := exists_int hv
    obtain ⟨m, rfl⟩ := exists_int hw
    rfl
  | intFloat =>
    obtain ⟨n, rfl⟩ := exists_int hv
    obtain ⟨y, rfl⟩ := exists_float hw
    rfl
  | floatInt =>
    obtain ⟨x, rfl⟩ := exists_float hv
    obtain ⟨m, rfl⟩ := exists_int hw
    rfl
  | floats =>
    obtain ⟨x, rfl⟩ := exists_float hv
    obtain ⟨y, rfl⟩ := exists_float hw
    rfl
  | strings =>
    obtain ⟨s, rfl⟩ := exists_string hv
    obtain ⟨t, rfl⟩ := exists_string hw
    rfl

end Value

namespace Expr

def joined (D : Doubles) : Expr → Nat
  | .sign _ e => e.joined D
  | .binary op a b =>
    a.joined D + b.joined D + (Value.combine D op (a.eval D) (b.eval D)).extent
  | _ => 0

/-- Evaluation keeps the types of what compiles. -/
theorem ty_eval (D : Doubles) {s : Symbols} {e : Expr} {t : Ty} (h : e.compiles? s = some t) :
    (e.eval D).ty = t := by
  induction e generalizing t with
  | null | bool b | int n | float x | string s =>
    cases h
    rfl
  | sign op e ih =>
    obtain ⟨u, hu, hr⟩ := compiles?_sign h
    exact Value.ty_signed (ih hu ▸ Operator.signs_of_unaryResult hr)
  | binary op a b iha ihb =>
    obtain ⟨u, w, c, hu, hw, hp, -⟩ := compiles?_binary h
    exact Value.ty_combine D (iha hu ▸ ihb hw ▸ Operator.promotes_of_promote hp)

end Expr

open Native (View Context)

/-- What the operations of expressions run in: routines that keep to the contract of an arena,
memory in use that is apart from the stack, and registers that are apart from each other. -/
structure Setting (l : Linkage) (A : Arena) (c : Context) : Prop where
  contract : c.contract = A.contract c.doubles l.roles
  symbols : c.symbols = l.symbols
  apart : ∀ free a, A.used free a → ¬c.own a
  operand : l.roles.operand ≠ l.roles.accumulator
  floatOperand : l.roles.floatOperand ≠ l.roles.floatAccumulator
  secondArgument : l.roles.secondArgument ≠ l.roles.firstArgument

def Computed (l : Linkage) (A : Arena) (v : View) (value : Value) : Prop :=
  A.Shows v.heap (v.word l.roles.accumulator) (v.double l.roles.floatAccumulator) value

def Pushed (A : Arena) (h : Heap) (slots : List UInt64) (n : Nat) (value : Value) (v : View) :
    Prop :=
  ∃ w, v.slots = w :: slots ∧ A.Holds v.heap w value ∧ A.Grows h v.heap n

section Evaluation

variable {l : Linkage} {A : Arena} {c : Context} {h : Heap} {n : Nat} {v : View}
  {slots : List UInt64} {w w' : UInt64}

theorem Setting.grows (S : Setting l A c) {v v' : View} (q : c.Quiet v v') :
    A.Grows v.heap v'.heap 0 where
  kept a ha := ⟨(congrArg (A.used · a) q.free).mpr ha, q.memory a (S.apart _ a ha)⟩
  room := Nat.le_of_eq (congrArg A.room q.free.symm)

theorem push_computes (S : Setting l A c) (value : Value) {ty : Ty} (hty : value.ty = ty)
    (hv : Computed l A v value) (hs : v.slots = slots) (hlim : slots.length < c.limit)
    (g : A.Grows h v.heap n) :
    c.wp [pushed l ty] (Pushed A h slots n value) v := by
  subst hty hs
  cases value with
  | float x =>
    refine ⟨hlim, fun v' ⟨hs, q⟩ => ⟨_, hs, ?_, (g.trans (S.grows q)).of_eq rfl⟩⟩
    exact congrArg Binary64.bits hv
  | unknown => exact hv.elim
  | _ =>
    refine ⟨hlim, fun v' ⟨hs, q⟩ => ⟨_, hs, ?_, (g.trans (S.grows q)).of_eq rfl⟩⟩
    exact Arena.Holds.mono hv (S.grows q)

theorem word_computes (S : Setting l A c) (value : Value) {ty : Ty} {word : UInt64}
    (hty : value.ty = ty) (hf : ty ≠ .float) (hv : A.Holds v.heap word value)
    (hlim : v.slots.length < c.limit) :
    c.wp [.loadImmediate l.roles.accumulator word, pushed l ty]
      (Pushed A v.heap v.slots 0 value) v := by
  refine ⟨trivial, fun v' ⟨hw, hs, q⟩ => ?_⟩
  refine push_computes S value hty ?_ hs hlim (S.grows q)
  have hv' : A.Holds v'.heap (v'.word l.roles.accumulator) value := hw ▸ hv.mono (S.grows q)
  cases value <;> first | exact hv' | exact absurd hty.symm hf

theorem float_computes (S : Setting l A c) {x : Binary64} {address : UInt64}
    (hx : v.memory.word address = x.bits) (hlim : v.slots.length < c.limit) :
    c.wp [.loadFloat l.roles.floatAccumulator address, pushed l .float]
      (Pushed A v.heap v.slots 0 (.float x)) v := by
  refine ⟨trivial, fun v' ⟨hd, hs, q⟩ => ?_⟩
  refine push_computes S _ rfl ?_ hs hlim (S.grows q)
  rw [hx] at hd
  exact hd

theorem pops_compute {r r' : Text} (hr : r' ≠ r) (hs : v.slots = w' :: w :: slots)
    {os : List Operation} {post : View → Prop}
    (k : ∀ v', v'.slots = slots → v'.word r = w → v'.word r' = w' → c.Quiet v v' →
      c.wp os post v') :
    c.wp (.pop r' :: .pop r :: os) post v := by
  refine ⟨by simp [Context.Enabled, hs], fun v₁ ⟨hs₁, hw₁, _, q₁⟩ => ?_⟩
  rw [hs] at hs₁
  obtain ⟨hw', hs₁⟩ := List.cons.inj hs₁
  refine ⟨by simp [Context.Enabled, ← hs₁], fun v₂ ⟨hs₂, hw₂, _, q₂⟩ => ?_⟩
  rw [← hs₁] at hs₂
  obtain ⟨hw, hs₂⟩ := List.cons.inj hs₂
  refine k v₂ hs₂.symm hw.symm ?_ (q₁.trans q₂)
  rw [hw₂ r' hr, hw']

theorem popAsFloat_computes {freg reg : Text} {value : Value} {x : Binary64}
    (hx : value.toFloat? c.doubles = some x) (hv : A.Holds h w value) (hs : v.slots = w :: slots)
    {os : List Operation} {post : View → Prop}
    (k : ∀ v', v'.slots = slots → v'.double freg = x →
      (∀ n, n ≠ freg → v'.double n = v.double n) → c.Quiet v v' → c.wp os post v') :
    c.wp (popAsFloat freg reg value.ty ++ os) post v := by
  cases value with
  | int n =>
    cases hx
    refine ⟨by simp [Context.Enabled, hs], fun v₁ ⟨hs₁, _, hd₁, q₁⟩ => ⟨trivial,
      fun v₂ ⟨hd₂, hk₂, _, hs₂, q₂⟩ => ?_⟩⟩
    rw [hs] at hs₁
    obtain ⟨hw, hs₁⟩ := List.cons.inj hs₁
    refine k v₂ (hs₂.trans hs₁.symm) ?_ (fun n hn => by rw [hk₂ n hn, hd₁]) (q₁.trans q₂)
    have hn : w = n.toUInt64 := hv
    rw [hd₂, ← hw, hn, Int64.toInt64_toUInt64]
  | float x' =>
    cases hx
    refine ⟨by simp [Context.Enabled, hs], fun v₁ ⟨hs₁, hk₁, _, q₁⟩ => ?_⟩
    rw [hs] at hs₁
    obtain ⟨hw, hs₁⟩ := List.cons.inj hs₁
    refine k v₁ hs₁.symm ?_ hk₁ q₁
    exact congrArg Binary64.mk (hw.symm.trans hv)
  | _ => cases hx

theorem ints_compute (S : Setting l A c) (op : Operator) {x y : Int64}
    (hs : v.slots = y.toUInt64 :: x.toUInt64 :: slots) (hlim : slots.length < c.limit)
    (g : A.Grows h v.heap n) :
    c.wp (operands l .int .int .int ++ l.computeCode .int op ++ [pushed l .int])
      (Pushed A h slots n (.int (op.onInts x y))) v := by
  refine pops_compute S.operand hs fun v₁ hs₁ hx hy q₁ => ?_
  refine ⟨trivial, fun v₂ ⟨hr, hs₂, q₂⟩ => ?_⟩
  refine push_computes S _ rfl ?_ (hs₂.trans hs₁) hlim (g.trans (S.grows (q₁.trans q₂)))
  rw [hx, hy, Int64.toInt64_toUInt64, Int64.toInt64_toUInt64] at hr
  exact hr

theorem floatRoutine_computes (S : Setting l A c) {r : Routine} (hr : l.symbols.address r ≠ 0)
    (hc : r ≠ .concat) {z : Binary64}
    (hz : ∀ v', (A.contract c.doubles l.roles).promises r v v' →
      v'.double l.roles.floatResult = z ∧ A.Grows v.heap v'.heap 0)
    (hlim : v.slots.length < c.limit) (g : A.Grows h v.heap n) :
    c.wp (l.callCode r ++ [pushed l .float]) (Pushed A h v.slots n (.float z)) v := by
  have hcall : l.callCode r = [.call (l.symbols.address r),
      .moveFloat l.roles.floatAccumulator l.roles.floatResult] := by
    cases r <;> first | rfl | exact absurd rfl hc
  have hask : c.contract.asks r v := by
    rw [S.contract]
    cases r <;> trivial
  rw [hcall]
  refine ⟨⟨hr, r, by rw [S.symbols], fun _ => hask⟩, fun v₁ ⟨hs₁, hp₁⟩ => ?_⟩
  obtain ⟨hd₁, g₁⟩ := hz v₁ (S.contract ▸ hp₁ r (by rw [S.symbols]) hask)
  refine ⟨trivial, fun v₂ ⟨hd₂, hs₂, q₂⟩ => ?_⟩
  exact push_computes S _ rfl (hd₂.trans hd₁) (hs₂.trans hs₁) hlim
    ((g.trans g₁).trans (S.grows q₂))

theorem floats_compute (S : Setting l A c) {op : Operator} (hop : l.symbols.has .float op)
    {a b : Value} {x y : Binary64} (hx : a.toFloat? c.doubles = some x)
    (hy : b.toFloat? c.doubles = some y) (ha : A.Holds v.heap w a) (hb : A.Holds v.heap w' b)
    (hs : v.slots = w' :: w :: slots)
    (hlim : slots.length < c.limit) (g : A.Grows h v.heap n) :
    c.wp (operands l a.ty b.ty .float ++ l.computeCode .float op ++ [pushed l .float])
      (Pushed A h slots n (.float (op.onFloats c.doubles x y))) v := by
  simp only [operands, List.append_assoc]
  refine popAsFloat_computes hy hb hs fun v₁ hs₁ hy₁ _ q₁ => ?_
  refine popAsFloat_computes hx ha hs₁ fun v₂ hs₂ hx₂ hk₂ q₂ => ?_
  have hy₂ := (hk₂ _ S.floatOperand).trans hy₁
  have g₂ := g.trans (S.grows (q₁.trans q₂))
  subst hs₂
  cases op with
  | mod =>
    refine floatRoutine_computes S (hop .fmod rfl) (by nofun) (fun v' hp => ?_) hlim g₂
    rwa [← hx₂, ← hy₂]
  | pow =>
    refine floatRoutine_computes S (hop .pow rfl) (by nofun) (fun v' hp => ?_) hlim g₂
    rwa [← hx₂, ← hy₂]
  | _ =>
    refine ⟨trivial, fun v₃ ⟨hd₃, hs₃, q₃⟩ => ?_⟩
    rw [hx₂, hy₂] at hd₃
    exact push_computes S _ rfl hd₃ hs₃ hlim (g₂.trans (S.grows q₃))

theorem strings_compute (S : Setting l A c) (hc : l.symbols.has .concat .add) {s t : Text}
    (hs : A.TextAt v.heap w s) (ht : A.TextAt v.heap w' t) (hv : v.slots = w' :: w :: slots)
    (hlim : slots.length < c.limit) (g : A.Grows h v.heap n)
    (hroom : s.length + t.length + 1 ≤ A.room v.free) :
    c.wp (operands l .string .string .concat ++ l.computeCode .concat .add ++ [pushed l .string])
      (Pushed A h slots (n + (s.length + t.length + 1)) (.string (s ++ t))) v := by
  refine pops_compute S.secondArgument hv fun v₁ hs₁ hw hw' q₁ => ?_
  have g₁ := S.grows q₁
  rw [← hw] at hs
  rw [← hw'] at ht
  have hroom₁ : s.length + t.length + 1 ≤ A.room v₁.free := by rwa [q₁.free]
  have hask : c.contract.asks .concat v₁ := by
    rw [S.contract]
    exact ⟨s, t, hs.mono g₁, ht.mono g₁, hroom₁⟩
  refine ⟨⟨hc .concat rfl, .concat, by rw [S.symbols], fun _ => hask⟩, fun v₂ ⟨hs₂, hp₂⟩ => ?_⟩
  have hprom := hp₂ .concat (by rw [S.symbols]) hask
  rw [S.contract] at hprom
  obtain ⟨hst, g₂⟩ := hprom s t (hs.mono g₁) (ht.mono g₁) hroom₁
  refine ⟨trivial, fun v₃ ⟨hw₃, hs₃, q₃⟩ => ?_⟩
  refine push_computes S _ rfl ?_ (hs₃.trans (hs₂.trans hs₁)) hlim
    ((((g.trans g₁).trans g₂).trans (S.grows q₃)).of_eq (by omega))
  change A.TextAt v₃.heap (v₃.word l.roles.accumulator) (s ++ t)
  rw [hw₃]
  exact hst.mono (S.grows q₃)

theorem binary_computes (S : Setting l A c) {op : Operator} {a b : Value} {t : Ty} {co : Coercion}
    (hp : op.Promotes a.ty b.ty t co) (hop : l.symbols.has co op) (ha : A.Holds v.heap w a)
    (hb : A.Holds v.heap w' b) (hs : v.slots = w' :: w :: slots) (hlim : slots.length < c.limit)
    (g : A.Grows h v.heap n) (hroom : (Value.combine c.doubles op a b).extent ≤ A.room v.free) :
    c.wp (operands l a.ty b.ty co ++ l.computeCode co op ++ [pushed l t])
      (Pushed A h slots (n + (Value.combine c.doubles op a b).extent)
        (Value.combine c.doubles op a b)) v := by
  generalize hta : a.ty = u at hp
  generalize htb : b.ty = u' at hp
  cases hp with
  | ints =>
    obtain ⟨x, rfl⟩ := Value.exists_int hta
    obtain ⟨y, rfl⟩ := Value.exists_int htb
    obtain rfl : w = x.toUInt64 := ha
    obtain rfl : w' = y.toUInt64 := hb
    exact ints_compute S op hs hlim g
  | intFloat =>
    obtain ⟨x, rfl⟩ := Value.exists_int hta
    obtain ⟨y, rfl⟩ := Value.exists_float htb
    exact floats_compute S hop rfl rfl ha hb hs hlim g
  | floatInt =>
    obtain ⟨x, rfl⟩ := Value.exists_float hta
    obtain ⟨y, rfl⟩ := Value.exists_int htb
    exact floats_compute S hop rfl rfl ha hb hs hlim g
  | floats =>
    obtain ⟨x, rfl⟩ := Value.exists_float hta
    obtain ⟨y, rfl⟩ := Value.exists_float htb
    exact floats_compute S hop rfl rfl ha hb hs hlim g
  | strings =>
    obtain ⟨s, rfl⟩ := Value.exists_string hta
    obtain ⟨t, rfl⟩ := Value.exists_string htb
    have hx : (Value.combine c.doubles .add (.string s) (.string t)).extent =
        s.length + t.length + 1 := by
      simp [Value.combine, Value.extent]
    rw [hx] at hroom ⊢
    exact strings_compute S hop ha hb hs hlim g hroom

theorem sign_computes (S : Setting l A c) {op : Operator} {a : Value} {t : Ty}
    (hp : op.Signs a.ty t) (ha : A.Holds v.heap w a) (hs : v.slots = w :: slots)
    (hlim : slots.length < c.limit) (g : A.Grows h v.heap n) :
    c.wp (signed l op a.ty) (Pushed A h slots n (a.signed op)) v := by
  generalize hta : a.ty = u at hp
  cases hp with
  | plusInt =>
    obtain ⟨x, rfl⟩ := Value.exists_int hta
    exact ⟨w, hs, ha, g⟩
  | plusFloat =>
    obtain ⟨x, rfl⟩ := Value.exists_float hta
    refine ⟨by simp [Context.Enabled, hs], fun v₁ ⟨hs₁, _, _, q₁⟩ => ⟨trivial,
      fun v₂ ⟨hw₂, hs₂, q₂⟩ => ?_⟩⟩
    rw [hs] at hs₁
    obtain ⟨hw, hs₁⟩ := List.cons.inj hs₁
    have hx : v₁.double l.roles.floatAccumulator = x := congrArg Binary64.mk (hw.symm.trans ha)
    rw [hx] at hw₂
    exact push_computes S (.int x.saturate) rfl hw₂ (hs₂.trans hs₁.symm) hlim
      (g.trans (S.grows (q₁.trans q₂)))
  | minusInt =>
    obtain ⟨x, rfl⟩ := Value.exists_int hta
    refine ⟨by simp [Context.Enabled, hs], fun v₁ ⟨hs₁, _, _, q₁⟩ => ⟨trivial,
      fun v₂ ⟨hw₂, hs₂, q₂⟩ => ?_⟩⟩
    rw [hs] at hs₁
    obtain ⟨hw, hs₁⟩ := List.cons.inj hs₁
    rw [← hw, show w = x.toUInt64 from ha, ← Int64.toUInt64_neg] at hw₂
    exact push_computes S (.int (-x)) rfl hw₂ (hs₂.trans hs₁.symm) hlim
      (g.trans (S.grows (q₁.trans q₂)))
  | minusFloat =>
    obtain ⟨x, rfl⟩ := Value.exists_float hta
    refine ⟨by simp [Context.Enabled, hs], fun v₁ ⟨hs₁, _, _, q₁⟩ => ⟨trivial,
      fun v₂ ⟨hd₂, hs₂, q₂⟩ => ?_⟩⟩
    rw [hs] at hs₁
    obtain ⟨hw, hs₁⟩ := List.cons.inj hs₁
    have hx : v₁.double l.roles.floatAccumulator = x := congrArg Binary64.mk (hw.symm.trans ha)
    rw [hx] at hd₂
    exact push_computes S (.float x.neg) rfl hd₂ (hs₂.trans hs₁.symm) hlim
      (g.trans (S.grows (q₁.trans q₂)))

theorem stored_offset {offset : Nat} {base : UInt64} {as bs : Bytes}
    (hst : A.Stored h (base + UInt64.ofNat offset) (as ++ bs)) :
    A.Stored h (base + UInt64.ofNat (offset + as.length)) bs := by
  rw [UInt64.ofNat_add, ← UInt64.add_assoc]
  exact hst.right

theorem stored_constant {offset : Nat} {base : UInt64} {bs rest : Bytes}
    (hst : A.Stored h (base + UInt64.ofNat offset)
      (List.replicate (eightPadding offset) 0 ++ bs ++ rest)) :
    A.Stored h (constantAddress base offset) bs := by
  have hb := stored_offset hst.left
  rwa [List.length_replicate] at hb

/-- The operations of an expression push its value. -/
theorem code_computes (S : Setting l A c) {e : Expr} {t : Ty}
    (ht : e.compiles? l.symbols = some t) (hz : e.ZeroFree) {v : View} (base : UInt64)
    (offset depth : Nat) (hlim : v.slots.length + e.need ≤ c.limit)
    (hst : A.Stored v.heap (base + UInt64.ofNat offset) (constants offset (e.code l depth)))
    (hroom : e.joined c.doubles ≤ A.room v.free) :
    c.wp (linked base offset (e.code l depth))
      (Pushed A v.heap v.slots (e.joined c.doubles) (e.eval c.doubles)) v := by
  induction e generalizing t v offset depth with
  | null =>
    rw [Expr.code, (plain_literal _ _).linked]
    exact word_computes S .null rfl (by decide) rfl hlim
  | bool b =>
    rw [Expr.code, (plain_literal _ _).linked]
    exact word_computes S (.bool b) rfl (by decide) rfl hlim
  | int x =>
    rw [Expr.code, (plain_literal _ _).linked]
    exact word_computes S (.int x) rfl (by decide) rfl hlim
  | float x =>
    rw [Expr.code, linked, (plain_pushCode _).linked]
    exact float_computes S (stored_constant hst).word hlim
  | string s =>
    rw [Expr.code, linked, (plain_pushCode _).linked]
    exact word_computes S (.string s) rfl (by decide) ⟨hz, stored_constant hst⟩ hlim
  | sign op e ih =>
    obtain ⟨u, hu, hr⟩ := Expr.compiles?_sign ht
    have hpos := e.need_pos
    rw [Expr.code, constants_append] at hst
    rw [Expr.code, linked_append, Context.wp_append, (plain_signCode _ _).linked,
      Expr.ty_of_compiles? hu, ← Expr.ty_eval c.doubles hu]
    refine Context.wp_mono ?_ (ih hu hz offset depth hlim hst.left hroom)
    rintro v₁ ⟨w, hs₁, hw, g₁⟩
    exact sign_computes S (Expr.ty_eval c.doubles hu ▸ Operator.signs_of_unaryResult hr) hw hs₁
      (Nat.lt_of_lt_of_le (Nat.lt_add_of_pos_right hpos) hlim) g₁
  | binary op a b iha ihb =>
    obtain ⟨u, u', co, hu, hu', hp, hco⟩ := Expr.compiles?_binary ht
    have hpos := b.need_pos
    rw [Expr.need] at hlim
    rw [Expr.joined] at hroom
    rw [Expr.code, constants_append, constants_append] at hst
    rw [Expr.code, linked_append, linked_append, Context.wp_append, Context.wp_append,
      Expr.ty_of_compiles? hu, Expr.ty_of_compiles? hu', (plain_binaryCode hp).linked]
    refine Context.wp_mono ?_ (iha hu hz.1 offset depth (by omega) hst.left.left (by omega))
    rintro v₁ ⟨w, hs₁, hw, g₁⟩
    -- The first operand may have taken memory, and its text must outlast the second one.
    have hr₁ : A.room v.free ≤ A.room v₁.free + a.joined c.doubles := g₁.room
    refine Context.wp_mono ?_ (ihb hu' hz.2 _ (depth + 1) (by rw [hs₁, List.length_cons]; omega)
      ((stored_offset hst.left).mono g₁) (by omega))
    rintro v₂ ⟨w', hs₂, hw', g₂⟩
    have hr₂ : A.room v₁.free ≤ A.room v₂.free + b.joined c.doubles := g₂.room
    rw [hs₁] at hs₂
    rw [← Expr.ty_eval c.doubles hu, ← Expr.ty_eval c.doubles hu'] at hp ⊢
    exact binary_computes S (Operator.promotes_of_promote hp) hco (hw.mono g₂) hw' hs₂
      (by omega) (g₁.trans g₂) (by omega)

def Returned (l : Linkage) (A : Arena) (v : View) (value : Value) : Prop :=
  A.Shows v.heap (v.word l.roles.result) (v.double l.roles.floatResult) value

/-- The operations of a function leave the value of its expression where functions return it. -/
theorem body_computes (S : Setting l A c) {e : Expr} {t : Ty}
    (ht : e.compiles? l.symbols = some t) (hz : e.ZeroFree) {v : View} (base : UInt64)
    (offset : Nat) (hv : v.slots = []) (hlim : e.need ≤ c.limit)
    (hst : A.Stored v.heap (base + UInt64.ofNat offset) (constants offset (e.code l 0)))
    (hroom : e.joined c.doubles ≤ A.room v.free) :
    c.wp (linked base offset (e.body l))
      (fun v' => v'.slots = [] ∧ Returned l A v' (e.eval c.doubles)) v := by
  rw [Expr.body, linked_append, Context.wp_append, (plain_resultCode _).linked,
    Expr.ty_of_compiles? ht, ← Expr.ty_eval c.doubles ht]
  refine Context.wp_mono ?_ (code_computes S ht hz base offset 0 (by simpa [hv]) hst hroom)
  rintro v₁ ⟨w, hs, hw, -⟩
  rw [hv] at hs
  cases hval : e.eval c.doubles with
  | float x =>
    rw [hval] at hw
    refine ⟨by simp [popped, Value.ty, Ty.isFloat, Context.Enabled, hs],
      fun v₂ hstep => ?_⟩
    obtain ⟨hs₂, -, -, q⟩ := hstep
    rw [hs] at hs₂
    obtain ⟨hx, hnil⟩ := List.cons.inj hs₂
    exact ⟨hnil.symm, congrArg Binary64.mk (hx.symm.trans hw)⟩
  | unknown =>
    rw [hval] at hw
    exact hw.elim
  | _ =>
    rw [hval] at hw
    refine ⟨by simp [popped, Value.ty, Ty.isFloat, Context.Enabled, hs],
      fun v₂ hstep => ?_⟩
    obtain ⟨hs₂, -, -, q⟩ := hstep
    rw [hs] at hs₂
    obtain ⟨hx, hnil⟩ := List.cons.inj hs₂
    refine ⟨hnil.symm, ?_⟩
    rw [hx] at hw
    exact hw.mono (S.grows q)

end Evaluation

end OnePass
