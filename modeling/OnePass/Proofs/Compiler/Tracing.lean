import OnePass.Proofs.Compiler.Compilation

/-!
# The trace of compiled code

A compilation notes what it decides between the instructions that its target lists. As long as the
constants and the code fit, the instructions of its trace are those of its code, in order and each
at its offset.
-/

set_option autoImplicit false

namespace OnePass

open Grammar (Derivation)

def Action.silent : Action → Bool
  | .note e => !e.isInstruction
  | _ => true

section Silent

variable (l : Linkage) (depth : Nat)

theorem silent_popAsFloatCode (freg reg : Text) (ty : Ty) :
    (popAsFloatCode freg reg ty depth).all Action.silent = true := by
  unfold popAsFloatCode
  split <;> rfl

theorem silent_operandsCode (left right : Ty) (c : Coercion) :
    (l.operandsCode left right depth c).all Action.silent = true := by
  cases c with
  | int | concat => rfl
  | float => simp [Linkage.operandsCode, silent_popAsFloatCode, -List.all_eq_true]

theorem silent_operations (os : List Operation) :
    (os.map Action.operation).all Action.silent = true := by
  simp [Action.silent]

theorem silent_binaryCode (op : Operator) (left right : Ty) :
    (l.binaryCode op left right depth).all Action.silent = true := by
  unfold Linkage.binaryCode
  split
  · rfl
  · rw [List.all_cons, List.all_append, List.all_append, silent_operandsCode, silent_operations]
    rfl

theorem silent_signCode (op : Operator) (ty : Ty) :
    (l.signCode op ty depth).all Action.silent = true := by
  cases op <;> cases ty <;> rfl

theorem silent_resultCode (ty : Ty) : (l.resultCode ty).all Action.silent = true := by
  unfold Linkage.resultCode
  split <;> rfl

theorem Expr.silent_code (e : Expr) : (e.code l depth).all Action.silent = true := by
  induction e generalizing depth with
  | null | bool b | int n | float x | string s => rfl
  | sign op e ih => rw [Expr.code, List.all_append, ih, silent_signCode, Bool.and_self]
  | binary op a b iha ihb =>
    rw [Expr.code, List.all_append, List.all_append, iha, ihb, silent_binaryCode]
    rfl

theorem Expr.silent_function (e : Expr) : (e.function l).all Action.silent = true := by
  rw [Expr.function, List.all_cons, List.all_append, Expr.body, List.all_append, silent_code,
    silent_resultCode]
  rfl

end Silent

/-- What a verbose emission has emitted of actions, and has listed as long as it fits. -/
structure Listed {target : Target} {E : Encoder target} {I : Type} {encode : I → Bytes}
    {ShownAs : I → Text → Prop} (L : Lister E encode ShownAs) (code data : Buffer)
    (actions : List Action) (e : Emission) : Prop where
  emitted : Emitted E code data actions e
  verbose : e.verbose = true
  listed : data.Fits (constants data.offset actions).length →
    code.Fits (E.encode (linked data.base data.offset actions)).length →
    List.Forall₂ (Event.Shows ShownAs) e.trace.instructions
      (located encode code.offset (L.lowerAll (linked data.base data.offset actions)))

namespace Listed

variable {target : Target} {E : Encoder target} {I : Type} {encode : I → Bytes}
  {ShownAs : I → Text → Prop} {L : Lister E encode ShownAs} {code data : Buffer}
  {actions : List Action} {e : Emission}

theorem begin (hc : code.Ready) (hd : data.Ready) : Listed L code data [] { code, data } where
  emitted := .begin hc hd true
  verbose := rfl
  listed _ _ := .nil

theorem step (h : Listed L code data actions e) {e' : Emission} {a : Action} {o : Operation}
    (hemit : Emitted E code data (actions ++ [a]) (e'.onCode (target.perform · o)))
    (hcode : e'.code = e.code) (hmisuse : e'.misuse = none) (hverbose : e'.verbose = e.verbose)
    (htrace : e'.trace.instructions = e.trace.instructions) (ho : (E.bytes? o).isSome)
    (hlink : data.Fits (constants data.offset (actions ++ [a])).length →
      linked data.base (data.offset + (constants data.offset actions).length) [a] = [o]) :
    Listed L code data (actions ++ [a]) (e'.onCode (target.perform · o)) where
  emitted := hemit
  verbose := hverbose.trans h.verbose
  listed hd hc := by
    have hd' := Emitted.fits_left hd
    obtain ⟨bytes, hw, hb⟩ := h.emitted.written
    cases hb hd'
    obtain ⟨is, his⟩ : ∃ is, L.lower? o = some is := by
      rw [L.bytes?_eq, Option.isSome_map] at ho
      exact Option.isSome_iff_exists.1 ho
    have hone : L.lowerAll [o] = is := by simp [Lister.lowerAll, his]
    rw [linked_append, hlink hd] at hc ⊢
    rw [Encoder.encode_append, L.encode_eq [o], hone] at hc
    have hc' : code.Fits (E.encode (linked data.base data.offset actions)).length := by
      simp only [Buffer.Fits, List.length_append] at hc ⊢
      omega
    have hw' : Written code _ e'.codeWriter := hw.congr hcode hmisuse
    obtain ⟨es, hes, hall⟩ := (L.assembled hw' his).listed (hverbose.trans h.verbose) hc
    have hlines : (e'.onCode (target.perform · o)).trace.instructions =
        e.trace.instructions ++ es := hes.trans (congrArg (· ++ es) htrace)
    -- The new lines continue where the code so far ends, which is where the writer was.
    rw [hlines, L.lowerAll_append, hone, located_append, ← L.encode_eq]
    exact List.rel_append (h.listed hd' hc') hall

theorem step_constant (h : Listed L code data actions e) {a : Action} {o : UInt64 → Operation}
    {tail : Bytes} {f : Writer → Writer} (ha : ∀ address, a.operations address = [o address])
    (htake : E.Takes a)
    (hc : ∀ offset, a.constant offset = List.replicate (eightPadding offset) 0 ++ tail)
    (hf : ∀ {bytes : Bytes} {w : Writer}, Written data bytes w → Written data (bytes ++ tail) (f w))
    (htrace : ∀ w, (f w).trace.instructions = w.trace.instructions) :
    Listed L code data (actions ++ [a])
      (((e.onData (·.align 8)).onData f).onCode
        (target.perform · (o (e.onData (·.align 8)).data.address))) := by
  refine h.step (h.emitted.step_constant ha htake hc hf) rfl
    (h.emitted.stored_constant hc hf).misuse rfl ?_ ?_ fun hd => ?_
  · exact (htrace _).trans (Writer.instructions_align _ _)
  · exact htake _ _ (by rw [ha]; exact List.mem_singleton_self _)
  · rw [h.emitted.address_constant hc hd]
    simp [linked, ha]

theorem perform (h : Listed L code data actions e) {a : Action} (ha : E.Takes a)
    (hs : a.silent = true) : Listed L code data (actions ++ [a]) (e.perform target a) := by
  have hemit := h.emitted.perform ha
  cases a with
  | operation o =>
    exact h.step hemit rfl h.emitted.stored.misuse rfl rfl (ha 0 o (List.mem_singleton_self _))
      fun _ => rfl
  | loadFloat freg x =>
    exact h.step_constant (fun _ => rfl) ha (fun _ => rfl) (fun hw => hw.append _)
      fun w => w.instructions_append _
  | loadText reg s =>
    refine h.step_constant (fun _ => rfl) ha (fun _ => rfl) (fun hw => ?_)
      fun w => w.instructions_appendAll _
    simpa using hw.appendAll [s, [0]]
  | note event =>
    refine ⟨hemit, h.verbose, fun hd hc => ?_⟩
    have hlink : linked data.base data.offset (actions ++ [Action.note event]) =
        linked data.base data.offset actions := by
      simp [linked_append, linked, Action.operations]
    have htrace : (e.perform target (.note event)).trace.instructions = e.trace.instructions :=
      Writer.instructions_note e.codeWriter (by simpa [Action.silent] using hs)
    rw [hlink] at hc ⊢
    rw [htrace]
    exact h.listed (Emitted.fits_left hd) hc

theorem foldl {todo : List Action} (h : Listed L code data actions e)
    (ht : ∀ a ∈ todo, E.Takes a) (hs : todo.all Action.silent = true) :
    Listed L code data (actions ++ todo) (todo.foldl (Emission.perform target) e) := by
  induction todo generalizing actions e with
  | nil => rwa [List.append_nil]
  | cons a todo ih =>
    obtain ⟨hta, hts⟩ := List.forall_mem_cons.1 ht
    obtain ⟨hsa, hss⟩ := Bool.and_eq_true_iff.1 hs
    have hrest := ih (h.perform hta hsa) hts hss
    rwa [List.append_assoc] at hrest

end Listed

/-- Nothing but the actions of a compilation lists instructions. -/
theorem compileTokens_instructions (target : Target) (symbols : Symbols) (tokens : List Token)
    (code data : Buffer) (verbose : Bool) :
    let c := compileTokens target symbols tokens code data verbose
    c.emission.trace.instructions =
      (Emission.performAll target { code, data, verbose }
        c.generator.actions).trace.instructions := by
  unfold compileTokens
  cases Generate.function ⟨target.roles, symbols⟩ (.start tokens) with
  | error d g => rfl
  | ok ty g =>
    dsimp only
    cases (Emission.performAll target { code, data, verbose } g.actions).failure? with
    | some f => rfl
    | none => exact Writer.instructions_note _ rfl

/-- A verbose compilation that succeeds has listed the code that it has written. -/
theorem Compiled.listed {target : Target} {E : Encoder target} {I : Type} {encode : I → Bytes}
    {ShownAs : I → Text → Prop} (L : Lister E encode ShownAs) {symbols : Symbols}
    {tokens : List Token} {code data : Buffer} {d : Derivation .expression} {t : Ty}
    (h : Compiled E symbols code data tokens d t
      (compileTokens target symbols tokens code data true))
    (hc : code.Ready) (hd : data.Ready) :
    List.Forall₂ (Event.Shows ShownAs)
      (compileTokens target symbols tokens code data true).emission.trace.instructions
      (located encode code.offset (L.lowerAll
        (linked data.base data.offset (d.expr.function ⟨target.roles, symbols⟩)))) := by
  have hbegin : Listed L code data [] { code, data } := .begin hc hd
  have hall := hbegin.foldl (E.takes_function symbols d.known) (d.expr.silent_function _)
  rw [compileTokens_instructions, Emission.performAll, ← Array.foldl_toList, h.actions]
  exact hall.listed h.fits.1 h.fits.2

end OnePass
