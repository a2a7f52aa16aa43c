import OnePass.Proofs.Compiler.Capacity
import OnePass.Proofs.Compiler.Literals
import OnePass.Proofs.Compiler.Symbols
import OnePass.Proofs.X86.Akin

/-!
# Relocated x86-64 code

The code of a source is a template into which the addresses of the constants and of the routines are
filled. For buffers that stand elsewhere and routines that are elsewhere a compilation ends in the
same way, and what it has written differs in these addresses alone.
-/

set_option autoImplicit false

namespace OnePass

open Native (Used)

theorem Action.register_loadFloat {l : Linkage} {freg : Text} {x : Binary64}
    (h : (Action.loadFloat freg x).Made l) : freg = l.roles.floatAccumulator := by
  obtain (hused | hp | he) := h 0 (.loadFloat freg 0) (List.mem_singleton_self _)
  · cases hused
    rfl
  · cases hp
  · cases he

theorem Action.register_loadText {l : Linkage} {reg t : Text}
    (h : (Action.loadText reg t).Made l) : reg = l.roles.accumulator := by
  obtain (hused | hp | he) := h 0 (.loadImmediate reg 0) (List.mem_singleton_self _)
  · cases hused
    rfl
  · cases hp
  · cases he

namespace X86

/-- A piece of code that can be linked anywhere: an instruction, the load of the address that a
constant gets, or the call of a routine. -/
inductive Piece where
  | fixed (i : Resolved)
  | constant (r : Gp) (offset : Nat) (c : Constant)
  | call (r : Gp) (f : Routine)

namespace Piece

def instructions (base : UInt64) (s : Symbols) : Piece → List Resolved
  | fixed i => [i]
  | constant r offset _ => [.movImm r (base + UInt64.ofNat offset)]
  | call r f => [.movImm r (s.address f), .call r]

def constant? : Piece → Option (Nat × Constant)
  | constant _ offset c => some (offset, c)
  | _ => none

def isFixed : Piece → Bool
  | fixed _ => true
  | _ => false

theorem instructions_of_isFixed {p : Piece} (h : p.isFixed = true) (base base' : UInt64)
    (s s' : Symbols) : p.instructions base' s' = p.instructions base s := by
  cases p with
  | fixed i => rfl
  | _ => cases h

end Piece

def link (base : UInt64) (s : Symbols) (ps : List Piece) : List Resolved :=
  ps.flatMap (·.instructions base s)

theorem link_append (base : UInt64) (s : Symbols) (ps qs : List Piece) :
    link base s (ps ++ qs) = link base s ps ++ link base s qs := List.flatMap_append

theorem link_fixed (base : UInt64) (s : Symbols) (is : List Resolved) :
    link base s (is.map .fixed) = is := by
  induction is with
  | nil => rfl
  | cons i is ih => exact congrArg (i :: ·) ih

def Piece.size (p : Piece) : Nat := codeSize (p.instructions 0 {})

/-- Where the addresses are among the bytes of a template: behind the two bytes that a move begins
with. -/
def addresses (start : Nat) : List Piece → List Nat
  | [] => []
  | p :: ps => if p.isFixed then addresses (start + p.size) ps
    else (start + 2) :: addresses (start + p.size) ps

theorem encode_movImm (r : Gp) (v : UInt64) : (Instr.movImm r v : Resolved).encode =
    [rex true 0 r.code, 0xb8 + (r.code &&& 7)] ++ littleEndian 8 v.toNat :=
  congrArg _ (List.append_nil _)

/-- The bytes of pieces that are not fixed begin with a move of an address. -/
theorem Piece.encodeAll_instructions {p : Piece} (h : p.isFixed = false) : ∃ front behind : Bytes,
    front.length = 2 ∧ ∀ base s, ∃ v : UInt64,
      encodeAll (p.instructions base s) = front ++ littleEndian 8 v.toNat ++ behind := by
  cases p with
  | fixed i => cases h
  | constant r offset c =>
    refine ⟨[rex true 0 r.code, 0xb8 + (r.code &&& 7)], [], rfl, fun base s =>
      ⟨base + UInt64.ofNat offset, ?_⟩⟩
    rw [← encode_movImm]
    rfl
  | call r f =>
    refine ⟨[rex true 0 r.code, 0xb8 + (r.code &&& 7)], (Instr.call r : Resolved).encode, rfl,
      fun base s => ⟨s.address f, ?_⟩⟩
    rw [← encode_movImm]
    exact congrArg _ (List.append_nil _)

theorem Piece.codeSize_instructions (base : UInt64) (s : Symbols) (p : Piece) :
    codeSize (p.instructions base s) = p.size := by
  cases hp : p.isFixed with
  | true => rw [size, instructions_of_isFixed hp]
  | false =>
    obtain ⟨front, behind, -, hbytes⟩ := encodeAll_instructions hp
    obtain ⟨v, hv⟩ := hbytes base s
    obtain ⟨w, hw⟩ := hbytes 0 {}
    simp [size, codeSize, hv, hw]

theorem getElem?_outside {front middle middle' behind : Bytes}
    (hl : middle'.length = middle.length) {i : Nat}
    (h : i < front.length ∨ front.length + middle.length ≤ i) :
    (front ++ middle' ++ behind)[i]? = (front ++ middle ++ behind)[i]? := by
  rcases h with h | h
  · rw [List.append_assoc, List.append_assoc, List.getElem?_append_left h,
      List.getElem?_append_left h]
  · rw [List.getElem?_append_right (by simp; omega), List.getElem?_append_right (by simp; omega),
      List.length_append, List.length_append, hl]

theorem Piece.getElem?_encodeAll {base base' : UInt64} {s s' : Symbols} {p : Piece} {i : Nat}
    (h : p.isFixed = false → i < 2 ∨ 10 ≤ i) :
    (encodeAll (p.instructions base' s'))[i]? = (encodeAll (p.instructions base s))[i]? := by
  cases hp : p.isFixed with
  | true => rw [instructions_of_isFixed hp]
  | false =>
    obtain ⟨front, behind, hfront, hbytes⟩ := encodeAll_instructions hp
    obtain ⟨v, hv⟩ := hbytes base s
    obtain ⟨w, hw⟩ := hbytes base' s'
    rw [hv, hw]
    apply getElem?_outside
    · simp
    · simpa [hfront] using h hp

theorem codeSize_link (base base' : UInt64) (s s' : Symbols) (ps : List Piece) :
    codeSize (link base' s' ps) = codeSize (link base s ps) := by
  induction ps with
  | nil => rfl
  | cons p ps ih =>
    have hcons : ∀ base s, link base s (p :: ps) = p.instructions base s ++ link base s ps :=
      fun _ _ => rfl
    rw [hcons, hcons, codeSize_append, codeSize_append, Piece.codeSize_instructions,
      Piece.codeSize_instructions, ih]

/-- Templates that are linked in different ways differ inside of addresses only. -/
theorem getElem?_link {base base' : UInt64} {s s' : Symbols} (start : Nat) {i : Nat}
    {ps : List Piece} (h : ∀ n ∈ addresses start ps, start + i < n ∨ n + 8 ≤ start + i) :
    (encodeAll (link base' s' ps))[i]? = (encodeAll (link base s ps))[i]? := by
  induction ps generalizing start i with
  | nil => rfl
  | cons p ps ih =>
    have hcons : ∀ base s, encodeAll (link base s (p :: ps)) =
        encodeAll (p.instructions base s) ++ encodeAll (link base s ps) := fun base s =>
      encodeAll_append ..
    have hlen : ∀ base s, (encodeAll (p.instructions base s)).length = p.size := fun base s =>
      Piece.codeSize_instructions base s p
    have hmem : ∀ n ∈ addresses (start + p.size) ps, n ∈ addresses start (p :: ps) := by
      intro n hn
      rw [addresses]
      split
      · exact hn
      · exact List.mem_cons_of_mem _ hn
    rw [hcons, hcons]
    by_cases hi : i < p.size
    · rw [List.getElem?_append_left (by rw [hlen]; exact hi),
        List.getElem?_append_left (by rw [hlen]; exact hi)]
      apply Piece.getElem?_encodeAll
      intro hp
      have hfirst := h (start + 2) (by rw [addresses, hp]; exact List.mem_cons_self)
      omega
    · rw [List.getElem?_append_right (by rw [hlen]; omega),
        List.getElem?_append_right (by rw [hlen]; omega), hlen, hlen]
      refine ih (start + p.size) fun n hn => ?_
      have hout := h n (hmem n hn)
      omega

def Instr.isCall : Resolved → Bool
  | .call _ => true
  | _ => false

theorem call_not_mem_lower? {s : Symbols} {o : Operation}
    (h : Used ⟨roles, s⟩ o ∨ o = .prologue ∨ o = .epilogue)
    (hc : (Action.operation o).isCall = false) (r : Gp) : .call r ∉ (lower? o).getD [] := by
  have hnone : ((lower? o).getD []).any Instr.isCall = false := by
    rcases h with h | rfl | rfl
    · cases h with
      | call f => cases hc
      | intBinary op hop => cases op <;> first | exact absurd rfl hop | rfl
      | floatBinary op hop => rcases hop with rfl | rfl | rfl | rfl <;> rfl
      | _ => rfl
    · rfl
    · rfl
  intro hr
  exact List.any_eq_false.1 hnone _ hr rfl

structure Template (s s' : Symbols) (offset : Nat) (as as' : List Action) (ps : List Piece) :
    Prop where
  left : ∀ base, lowerAll (linked base offset as) = link base s ps
  right : ∀ base, lowerAll (linked base offset as') = link base s' ps
  data : constants offset as' = constants offset as
  laid : Laid offset (ps.filterMap Piece.constant?) (constants offset as)
  stored : (ps.filterMap Piece.constant?).map Prod.snd = as.filterMap Action.constant?
  no_call : ∀ r, .fixed (.call r) ∉ ps

namespace Template

variable {s s' : Symbols} {offset : Nat}

theorem append {as as' bs bs' : List Action} {ps qs : List Piece}
    (ha : Template s s' offset as as' ps)
    (hb : Template s s' (offset + (constants offset as).length) bs bs' qs) :
    Template s s' offset (as ++ bs) (as' ++ bs') (ps ++ qs) where
  left base := by rw [linked_append, lowerAll_append, link_append, ha.left, hb.left]
  right base := by
    rw [linked_append, lowerAll_append, link_append, ha.data, ha.right, hb.right]
  data := by rw [constants_append, constants_append, ha.data, hb.data]
  laid := by
    rw [constants_append, List.filterMap_append]
    exact ha.laid.append hb.laid
  stored := by
    rw [List.filterMap_append, List.map_append, List.filterMap_append, ha.stored, hb.stored]
  no_call r hr := (List.mem_append.1 hr).elim (ha.no_call r) (hb.no_call r)

theorem constant?_fixed (is : List Resolved) :
    (is.map Piece.fixed).filterMap Piece.constant? = [] :=
  List.filterMap_eq_nil_iff.2 (List.forall_mem_map.2 fun _ _ => rfl)

theorem of_operation {o : Operation} (hm : (Action.operation o).Made ⟨roles, s⟩)
    (hc : (Action.operation o).isCall = false) (offset : Nat) :
    Template s s' offset [.operation o] [.operation o] (((lower? o).getD []).map .fixed) where
  left base := by
    rw [link_fixed]
    exact List.append_nil _
  right base := by
    rw [link_fixed]
    exact List.append_nil _
  data := rfl
  laid := by
    rw [constant?_fixed]
    exact .nil offset
  stored := by
    rw [constant?_fixed]
    rfl
  no_call r hr := by
    obtain ⟨i, hi, heq⟩ := List.mem_map.1 hr
    cases heq
    exact call_not_mem_lower? (hm 0 o (List.mem_singleton_self o)) hc r hi

theorem of_action {a a' : Action} (h : Action.Redirected s s' a a') (hm : a.Made ⟨roles, s⟩)
    (offset : Nat) : ∃ ps, Template s s' offset [a] [a'] ps := by
  cases h with
  | call r => exact ⟨[.call .r11 r], fun _ => rfl, fun _ => rfl, rfl, .nil offset, rfl, by simp⟩
  | other hc =>
    cases a with
    | operation o => exact ⟨_, of_operation hm hc offset⟩
    | loadFloat freg x =>
      cases Action.register_loadFloat hm
      exact ⟨[.constant .r11 (offset + eightPadding offset) (.float x), .fixed (.loadSd ⟨0⟩ .r11)],
        fun _ => rfl, fun _ => rfl, rfl, laid_placed ⟨roles, s⟩ offset [.float x []], rfl,
        by simp⟩
    | loadText reg t =>
      cases Action.register_loadText hm
      exact ⟨[.constant .rax (offset + eightPadding offset) (.text t)], fun _ => rfl, fun _ => rfl,
        rfl, laid_placed ⟨roles, s⟩ offset [.string t], rfl, by simp⟩
    | note e => exact ⟨[], fun _ => rfl, fun _ => rfl, rfl, .nil offset, rfl, by simp⟩

/-- Actions that differ in the routines they call have one template. -/
theorem exists_of_redirected {as as' : List Action} (h : Redirected s s' as as')
    (hm : ∀ a ∈ as, a.Made ⟨roles, s⟩) (offset : Nat) :
    ∃ ps, Template s s' offset as as' ps := by
  induction h generalizing offset with
  | nil => exact ⟨[], fun _ => rfl, fun _ => rfl, rfl, .nil offset, rfl,
      fun _ => List.not_mem_nil⟩
  | @cons a a' as as' ha _ ih =>
    obtain ⟨hone, hrest⟩ := List.forall_mem_cons.1 hm
    obtain ⟨ps, hps⟩ := of_action ha hone offset
    obtain ⟨qs, hqs⟩ := ih hrest (offset + (constants offset [a]).length)
    exact ⟨ps ++ qs, hps.append hqs⟩

end Template

end X86

structure Emission.Akin (e e' : Emission) : Prop where
  code : e.code.Akin e'.code
  data : e.data.Akin e'.data
  misuse : e'.misuse = e.misuse

namespace Emission.Akin

variable {e e' : Emission}

theorem onCode (h : e.Akin e') {f f' : Writer → Writer}
    (hf : ∀ {w w' : Writer}, w.Akin w' → (f w).Akin (f' w')) :
    (e.onCode f).Akin (e'.onCode f') := by
  have hw : (f e.codeWriter).Akin (f' e'.codeWriter) := hf ⟨h.code, h.misuse⟩
  exact ⟨hw.buffer, h.data, hw.misuse⟩

theorem onData (h : e.Akin e') {f f' : Writer → Writer}
    (hf : ∀ {w w' : Writer}, w.Akin w' → (f w).Akin (f' w')) :
    (e.onData f).Akin (e'.onData f') := by
  have hw : (f e.dataWriter).Akin (f' e'.dataWriter) := hf ⟨h.data, h.misuse⟩
  exact ⟨h.code, hw.buffer, hw.misuse⟩

theorem note (h : e.Akin e') (event : Event) :
    (e.onCode (·.note event)).Akin (e'.onCode (·.note event)) :=
  h.onCode fun hw => hw.note event event

theorem store (h : e.Akin e') (pieces : List Bytes) :
    ((e.onData (·.align 8)).onData (·.appendAll pieces)).Akin
      ((e'.onData (·.align 8)).onData (·.appendAll pieces)) := by
  have halign : (e.onData (·.align 8)).Akin (e'.onData (·.align 8)) :=
    h.onData fun hw => hw.align 8
  exact halign.onData fun hw => hw.appendAll (List.forall₂_same.2 fun _ _ => rfl)

theorem perform {s s' : Symbols} {a a' : Action} (h : e.Akin e')
    (ha : Action.Redirected s s' a a') :
    (e.perform X86.target a).Akin (e'.perform X86.target a') := by
  cases ha with
  | call r => exact h.onCode fun hw => X86.perform_alike hw (.call _ _)
  | other _ =>
    cases a with
    | operation o => exact h.onCode fun hw => X86.perform_alike hw (.same o)
    | loadFloat freg x =>
      exact (h.store [littleEndian 8 x.bits.toNat]).onCode fun hw =>
        X86.perform_alike hw (.loadFloat freg _ _)
    | loadText reg t =>
      exact (h.store [t, [0]]).onCode fun hw => X86.perform_alike hw (.loadImmediate reg _ _)
    | note event => exact h.note event

/-- Actions that differ in the routines they call are carried out alike, wherever the buffers
stand. -/
theorem foldl {s s' : Symbols} {as as' : List Action} (h : e.Akin e')
    (ha : Redirected s s' as as') :
    (as.foldl (Emission.perform X86.target) e).Akin
      (as'.foldl (Emission.perform X86.target) e') := by
  induction ha generalizing e e' with
  | nil => exact h
  | cons hone _ ih => exact ih (h.perform hone)

theorem failure? (h : e.Akin e') : e'.failure? = e.failure? := by
  rw [Emission.failure?, Emission.failure?, h.code.failure, h.data.failure]

end Emission.Akin

open Grammar (derivation_unique)

section Compilations

variable {s s' : Symbols} (hs : ∀ r, s.address r ≠ 0) (hs' : ∀ r, s'.address r ≠ 0)

include hs hs'

/-- With all routines there, it is of no account where they are. -/
theorem Linkage.like_of_ne_zero (roles : Roles) : Linkage.Like ⟨roles, s⟩ ⟨roles, s'⟩ := by
  intro r
  exact iff_of_false (hs r) (hs' r)

/-- What is generated for other routines differs in the calls alone. -/
theorem redirected_of_generated {roles : Roles} {tokens : List Token} {t : Ty} {g : Generator}
    (hg : Generate.function ⟨roles, s⟩ (.start tokens) = .ok t g) :
    ∃ g', Generate.function ⟨roles, s'⟩ (.start tokens) = .ok t g' ∧
      Redirected s s' g.actions.toList g'.actions.toList := by
  obtain ⟨d, hl, hn, ht⟩ := Generate.function_inv hg
  have ht' : d.expr.compiles? s' = some t := by
    rw [Expr.compiles?_eq_type? hs', ← Expr.compiles?_eq_type? hs]
    exact ht
  obtain ⟨g₁, hg₁, hact, -⟩ := Generate.function_does ⟨roles, s⟩ hl hn ht
  obtain ⟨g', hg', hact', -⟩ := Generate.function_does ⟨roles, s'⟩ hl hn ht'
  cases hg.symm.trans hg₁
  refine ⟨g', hg', ?_⟩
  rw [hact, hact']
  exact d.expr.redirected_function s s' roles

variable (tokens : List Token) {code code' data data' : Buffer} (hcode : code.Akin code')
  (hdata : data.Akin data') (verbose verbose' : Bool)

include hcode hdata

/-- A compilation ends in the same way wherever the buffers and the routines are. -/
theorem compileTokens_outcome_relocated :
    (compileTokens X86.target s' tokens code' data' verbose').outcome =
      (compileTokens X86.target s tokens code data verbose).outcome := by
  have hrun := Generate.function_agree (Linkage.like_of_ne_zero hs hs' X86.target.roles) _ _
    (.start _ _ tokens)
  rw [compileTokens_outcome, compileTokens_outcome]
  cases hg : Generate.function ⟨X86.target.roles, s⟩ (.start tokens) with
  | error d g =>
    rw [hg] at hrun
    generalize Generate.function ⟨X86.target.roles, s'⟩ (.start tokens) = r' at hrun ⊢
    cases hrun
    rfl
  | ok t g =>
    obtain ⟨g', hg', hred⟩ := redirected_of_generated hs hs' hg
    have he : Emission.Akin { code, data, verbose }
        { code := code', data := data', verbose := verbose' } := ⟨hcode, hdata, rfl⟩
    have hfail := (he.foldl hred).failure?
    rw [Array.foldl_toList, Array.foldl_toList] at hfail
    rw [hg', compileTokens_generator code data verbose hg,
      compileTokens_generator code' data' verbose' hg', Emission.performAll,
      Emission.performAll, hfail]

end Compilations

end OnePass
