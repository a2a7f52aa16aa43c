import OnePass.Proofs.Compiler.Operations

/-!
# Compilations

A compilation succeeds when the tokens are a sentence that compiles and its code and constants fit
into the buffers, and then the buffers hold them.
-/

set_option autoImplicit false

namespace OnePass

open Grammar (Derivation sentence)

structure Compiled {target : Target} (E : Encoder target) (symbols : Symbols) (code data : Buffer)
    (tokens : List Token) (d : Derivation .expression) (t : Ty) (c : Compilation) : Prop where
  lexemes : d.lexemes = sentence tokens
  nesting : d.nesting ≤ Generate.maxNesting
  type : d.expr.compiles? symbols = some t
  actions : c.generator.actions.toList = d.expr.function ⟨target.roles, symbols⟩
  maxDepth : c.generator.stack.maxDepth = d.expr.need
  code_bytes : c.emission.code.bytes = code.bytes ++
    E.encode (linked data.base data.offset (d.expr.function ⟨target.roles, symbols⟩))
  data_bytes : c.emission.data.bytes = data.bytes ++
    constants data.offset (d.expr.function ⟨target.roles, symbols⟩)
  fits : data.Fits (constants data.offset (d.expr.function ⟨target.roles, symbols⟩)).length ∧
    code.Fits (E.encode
      (linked data.base data.offset (d.expr.function ⟨target.roles, symbols⟩))).length

def Compilation.codeBehind (c : Compilation) (code : Buffer) : Bytes :=
  c.emission.code.bytes.drop code.offset

theorem Compilation.outcome_eq_ok {c : Compilation} {t : Ty}
    (h : c.outcome.toOption = some t) : c.outcome = .ok t := by
  cases ho : c.outcome with
  | error f =>
    rw [ho] at h
    cases h
  | ok t' =>
    rw [ho] at h
    cases h
    rfl

section Compilations

variable {target : Target} (E : Encoder target) {symbols : Symbols} {tokens : List Token}
  {code data : Buffer} {verbose : Bool} {t : Ty}

theorem emitted_function (hc : code.Ready) (hd : data.Ready) (verbose : Bool)
    {d : Derivation .expression}
    {actions : Array Action} (ha : actions.toList = d.expr.function ⟨target.roles, symbols⟩) :
    Emitted E code data (d.expr.function ⟨target.roles, symbols⟩)
      (Emission.performAll target { code, data, verbose } actions) := by
  rw [← ha]
  refine Emitted.performAll hc hd verbose ?_
  rw [ha]
  exact E.takes_function symbols d.known

theorem Emission.code_note (e : Emission) (event : Event) :
    (e.onCode (·.note event)).code = e.code := Writer.buffer_note ..

/-- What a compilation that succeeds has compiled. -/
theorem compiled_of_ok (hc : code.Ready) (hd : data.Ready)
    (h : (compileTokens target symbols tokens code data verbose).outcome = .ok t) :
    ∃ d, Compiled E symbols code data tokens d t
      (compileTokens target symbols tokens code data verbose) := by
  unfold compileTokens at h ⊢
  cases hg : Generate.function ⟨target.roles, symbols⟩ (.start tokens) with
  | error f g =>
    rw [hg] at h
    cases h
  | ok ty g =>
    rw [hg] at h
    obtain ⟨d, hl, hn, ht⟩ := Generate.function_inv hg
    obtain ⟨g', hg', hact, hmax⟩ := Generate.function_does ⟨target.roles, symbols⟩ hl hn ht
    cases hg.symm.trans hg'
    have he := emitted_function E hc hd verbose hact
    simp only at h ⊢
    cases hf : (Emission.performAll target { code, data, verbose } g.actions).failure? with
    | some f =>
      rw [hf] at h
      cases h
    | none =>
      rw [hf] at h
      cases h
      exact ⟨d, hl, hn, ht, hact, hmax, (congrArg Buffer.bytes (Emission.code_note ..)).trans
        (he.code_bytes hf), he.data_bytes hf, he.failure?_eq_none_iff.1 hf⟩

theorem Compiled.codeBehind_eq {E : Encoder target} {d : Derivation .expression} {c : Compilation}
    (h : Compiled E symbols code data tokens d t c) : c.codeBehind code =
      E.encode (linked data.base data.offset (d.expr.function ⟨target.roles, symbols⟩)) := by
  rw [Compilation.codeBehind, h.code_bytes, List.drop_left' (Buffer.length_bytes code)]

theorem Compiled.offset_eq {E : Encoder target} {d : Derivation .expression} {c : Compilation}
    (h : Compiled E symbols code data tokens d t c) (hc : code.Ready) (hd : data.Ready)
    {pre post : List Action} (he : c.generator.actions.toList = pre ++ post) :
    (Emission.performAll target { code, data } pre.toArray).code.offset =
      code.offset + (E.encode (linked data.base data.offset pre)).length := by
  have hall := h.actions.symm.trans he
  have htakes := E.takes_function symbols d.known
  obtain ⟨hdata, hcode⟩ := h.fits
  rw [hall] at htakes hdata hcode
  have hpre : Emitted E code data pre (Emission.performAll target { code, data } pre.toArray) :=
    Emitted.performAll hc hd true fun a ha => htakes a (List.mem_append_left post ha)
  obtain ⟨bytes, hw, hb⟩ := hpre.written
  have hfit := Emitted.fits_left hdata
  have hcfit : code.Fits (E.encode (linked data.base data.offset pre)).length := by
    rw [linked_append, Encoder.encode_append, List.length_append] at hcode
    unfold Buffer.Fits at *
    omega
  cases hb hfit
  exact hw.offset hcfit

/-- What compiles does so when it fits. -/
theorem ok_of_fits (hc : code.Ready) (hd : data.Ready)
    {d : Derivation .expression} (hl : d.lexemes = sentence tokens)
    (hn : d.nesting ≤ Generate.maxNesting) (ht : d.expr.compiles? symbols = some t)
    (hdata : data.Fits (constants data.offset (d.expr.function ⟨target.roles, symbols⟩)).length)
    (hcode : code.Fits (E.encode
      (linked data.base data.offset (d.expr.function ⟨target.roles, symbols⟩))).length) :
    (compileTokens target symbols tokens code data verbose).outcome = .ok t := by
  obtain ⟨g, hg, hact, -⟩ := Generate.function_does ⟨target.roles, symbols⟩ hl hn ht
  have he := emitted_function E hc hd verbose hact
  unfold compileTokens
  simp only [hg, he.failure?_eq_none_iff.2 ⟨hdata, hcode⟩]

end Compilations

end OnePass
