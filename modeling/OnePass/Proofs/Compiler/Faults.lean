import OnePass.Proofs.Buffer.Intact
import OnePass.Proofs.Compiler.Acceptance
import OnePass.Proofs.Compiler.Agreement

/-!
# How compilation fails

Whatever the tokens, the routines and the buffers are, a compilation fails for one of four reasons:
the grammar, the types, a routine that is not there, or a buffer that is too small. It asks nothing
of a target that the target rejects, and it never loses track of its stack.
-/

set_option autoImplicit false

namespace OnePass

theorem Action.Made.takes {target : Target} (E : Encoder target) {symbols : Symbols} {a : Action}
    (h : a.Made ⟨target.roles, symbols⟩) : E.Takes a := by
  intro address o ho
  rcases h address o ho with hu | rfl | rfl
  · exact E.used hu
  · exact E.prologue
  · exact E.epilogue

theorem Action.Paired.made {l l' : Linkage} {as as' : List Action}
    (h : List.Forall₂ (Action.Paired l l') as as') :
    (∀ a ∈ as, a.Made l) ∧ ∀ a ∈ as', a.Made l' := by
  induction h with
  | nil => exact ⟨List.forall_mem_nil _, List.forall_mem_nil _⟩
  | cons ha _ ih =>
    exact ⟨List.forall_mem_cons.2 ⟨ha.left, ih.1⟩, List.forall_mem_cons.2 ⟨ha.right, ih.2⟩⟩

theorem Written.failure_cases {start : Buffer} {added : Bytes} {w : Writer}
    (h : Written start added w) : w.buffer.failure = none ∨
      ∃ needed, w.buffer.failure = some (.overflow start.name needed start.capacity) := by
  by_cases hf : start.Fits added.length
  · exact .inl (h.fits hf).1
  · exact .inr (h.overflow hf)

/-- How a compilation ends, by how the generator did and whether the buffers sufficed. -/
theorem compileTokens_outcome (target : Target) (symbols : Symbols) (tokens : List Token)
    (code data : Buffer) (verbose : Bool) :
    (compileTokens target symbols tokens code data verbose).outcome =
      match Generate.function ⟨target.roles, symbols⟩ (.start tokens) with
      | .error d _ => .error d
      | .ok ty _ => match (Emission.performAll target { code, data, verbose }
          (compileTokens target symbols tokens code data verbose).generator.actions).failure? with
        | some f => .error (.ofCodegen (.buffer f))
        | none => .ok ty := by
  unfold compileTokens
  cases Generate.function ⟨target.roles, symbols⟩ (.start tokens) with
  | error d g => rfl
  | ok ty g =>
    dsimp only
    cases hf : (Emission.performAll target { code, data, verbose } g.actions).failure? <;> simp [hf]

/-- Once code is generated, only a buffer can be to blame. -/
theorem buffer_of_generated {target : Target} {symbols : Symbols} {tokens : List Token}
    {code data : Buffer} {verbose : Bool} {t : Ty} {g : Generator} {e : Diagnostic}
    (hg : Generate.function ⟨target.roles, symbols⟩ (.start tokens) = .ok t g)
    (h : (compileTokens target symbols tokens code data verbose).outcome = .error e) :
    ∃ f, e = .ofCodegen (.buffer f) := by
  rw [compileTokens_outcome, hg] at h
  dsimp only at h
  split at h
  · rename_i f _
    cases h
    exact ⟨f, rfl⟩
  · cases h

section Compilations

variable (target : Target) (symbols : Symbols) (tokens : List Token) (code data : Buffer)
  (verbose : Bool)

theorem compileTokens_emission :
    let c := compileTokens target symbols tokens code data verbose
    let e := Emission.performAll target { code, data, verbose } c.generator.actions
    c.emission.code = e.code ∧ c.emission.data = e.data ∧ c.emission.misuse = e.misuse := by
  unfold compileTokens
  cases Generate.function ⟨target.roles, symbols⟩ (.start tokens) with
  | error d g => exact ⟨rfl, rfl, rfl⟩
  | ok ty g =>
    dsimp only
    split
    · exact ⟨rfl, rfl, rfl⟩
    · exact ⟨Emission.code_note .., rfl, Writer.misuse_note ..⟩

theorem compileTokens_alike {target target' : Target} {symbols symbols' : Symbols}
    (h : Linkage.Like ⟨target.roles, symbols⟩ ⟨target'.roles, symbols'⟩)
    (code data code' data' : Buffer) (verbose verbose' : Bool) :
    ∃ slots, Generator.Alike ⟨target.roles, symbols⟩ ⟨target'.roles, symbols'⟩ slots
      (compileTokens target symbols tokens code data verbose).generator
      (compileTokens target' symbols' tokens code' data' verbose').generator := by
  have hrun := Generate.function_agree h _ _ (.start _ _ tokens)
  unfold compileTokens
  generalize Generate.function ⟨target.roles, symbols⟩ (.start tokens) = r at hrun ⊢
  generalize Generate.function ⟨target'.roles, symbols'⟩ (.start tokens) = r' at hrun ⊢
  cases hrun with
  | ok ty hg =>
    refine ⟨[], ?_⟩
    dsimp only
    split <;> split <;> exact hg
  | error d hd hg => exact ⟨_, hg⟩

/-- The actions of a compilation, however it ends, are carried out in full. -/
theorem compileTokens_emitted {target : Target} (E : Encoder target) {code data : Buffer}
    (hc : code.Ready) (hd : data.Ready) :
    Emitted E code data
      (compileTokens target symbols tokens code data verbose).generator.actions.toList
      (Emission.performAll target { code, data, verbose }
        (compileTokens target symbols tokens code data verbose).generator.actions) := by
  obtain ⟨slots, hg⟩ := compileTokens_alike tokens
    (fun _ => Iff.rfl : Linkage.Like ⟨target.roles, symbols⟩ ⟨target.roles, symbols⟩)
    code data code data verbose verbose
  exact Emitted.performAll hc hd verbose fun a ha =>
    ((Action.Paired.made hg.actions).1 a ha).takes E

end Compilations

section Failures

variable {target : Target} {E : Encoder target} {code data : Buffer} {actions : List Action}
  {e : Emission}

theorem Emitted.code_failure (h : Emitted E code data actions e) : e.code.failure = none ∨
    ∃ needed, e.code.failure = some (.overflow code.name needed code.capacity) := by
  obtain ⟨bytes, hw, -⟩ := h.written
  exact hw.failure_cases

/-- A failure that is reported is an overflow. -/
theorem Emitted.overflow_of_failure? (h : Emitted E code data actions e) {f : Failure}
    (hf : e.failure? = some f) :
    ∃ buffer needed capacity, f = .overflow buffer needed capacity := by
  have hdata : e.data.failure = none ∨ ∃ needed,
      e.data.failure = some (.overflow data.name needed data.capacity) := h.stored.failure_cases
  rw [Emission.failure?] at hf
  rcases h.code_failure with hc | ⟨n, hc⟩
  · rcases hdata with hd | ⟨n, hd⟩
    · simp [hc, hd] at hf
    · exact ⟨_, n, _, by simpa [hc, hd] using hf.symm⟩
  · exact ⟨_, n, _, by simpa [hc] using hf.symm⟩

theorem compileTokens_classified (E : Encoder target) (hc : code.Ready) (hd : data.Ready)
    {symbols : Symbols} {tokens : List Token} {verbose : Bool} {d : Diagnostic}
    (h : (compileTokens target symbols tokens code data verbose).outcome = .error d) :
    d.Classified := by
  have hrun := Generate.function_agree (fun _ => Iff.rfl) _ _
    (.start ⟨target.roles, symbols⟩ ⟨target.roles, symbols⟩ tokens)
  have he := compileTokens_emitted symbols tokens verbose E hc hd
  rw [compileTokens_outcome] at h
  cases hf : Generate.function ⟨target.roles, symbols⟩ (.start tokens) with
  | error d' g =>
    rw [hf] at hrun h
    cases h
    cases hrun with
    | error _ hd _ => exact hd.classified
  | ok ty g =>
    rw [hf] at h
    cases hfail : (Emission.performAll target { code, data, verbose }
        (compileTokens target symbols tokens code data verbose).generator.actions).failure? with
    | none =>
      rw [hfail] at h
      cases h
    | some f =>
      rw [hfail] at h
      cases h
      obtain ⟨buffer, needed, capacity, rfl⟩ := he.overflow_of_failure? hfail
      exact ⟨.overflow, rfl, rfl⟩

end Failures

/-- However a compilation ends, no buffer was misused, the code buffer is intact or has overflowed,
and what is reported is of exactly one of the four kinds, under the category of that kind; in
particular it is no internal fault. -/
theorem compileTokens_fails_as_classified {arch : Arch} {target : Target}
    (ha : arch.target? = some target) (symbols : Symbols) (tokens : List Token)
    {code data : Buffer} (hc : code.Ready) (hd : data.Ready) {verbose : Bool} {c : Compilation}
    (h : compileTokens target symbols tokens code data verbose = c) :
    c.emission.misuse = none ∧
      (c.emission.code.failure = none ∨
        ∃ needed, c.emission.code.failure = some (.overflow code.name needed code.capacity)) ∧
      ∀ d, c.outcome = .error d →
        (∃ s, d.cause.sentinel? = some s ∧ d.category = s.category) ∧
          (∀ i, d.cause ≠ .stack i) ∧ d.category ≠ .internal := by
  obtain ⟨E⟩ := Arch.exists_encoder ha
  have he := compileTokens_emitted symbols tokens verbose E hc hd
  obtain ⟨hcode, -, hmisuse⟩ := compileTokens_emission target symbols tokens code data verbose
  subst h
  refine ⟨hmisuse.trans he.stored.misuse, hcode ▸ he.code_failure, fun d hd' => ?_⟩
  obtain ⟨s, hs, hk⟩ := compileTokens_classified E hc hd hd'
  refine ⟨⟨s, hs, hk⟩, fun i hi => ?_, fun hi => ?_⟩
  · rw [hi] at hs
    cases hs
  · cases s <;> cases hk.symm.trans hi

/-- Operands that do not go together are reported as such, although the code did not fit either. -/
theorem compileTokens_reports_operands :
    ∃ c d needed, compileTokens X86.target ⟨1, 2, 3⟩ (tokenize (utf8 "1 - \"a\""))
        (.create (utf8 "code") 3 0) (.create (utf8 "data") 64 0x1000) = c ∧
      c.emission.code.failure = some (.overflow (utf8 "code") needed 3) ∧
      c.outcome = .error d ∧ d.cause.sentinel? = some .typing ∧ d.category = .typing := by
  generalize hcomp : compileTokens X86.target ⟨1, 2, 3⟩ (tokenize (utf8 "1 - \"a\""))
    (.create (utf8 "code") 3 0) (.create (utf8 "data") 64 0x1000) = c
  have hkind : Except.casesOn (motive := fun _ => Bool) c.outcome
      (fun d => decide (d.cause = .typing)) (fun _ => false) = true := by
    rw [← hcomp]
    decide +kernel
  have hfull : c.emission.code.failure ≠ none := by
    rw [← hcomp]
    decide +kernel
  have ha : Arch.x86.target? = some X86.target := rfl
  obtain ⟨-, hcode, herror⟩ := compileTokens_fails_as_classified ha ⟨1, 2, 3⟩ _
    ⟨rfl, rfl, by decide, by decide⟩ ⟨rfl, rfl, by decide, by decide⟩ hcomp
  obtain ⟨needed, hneeded⟩ := hcode.resolve_left hfull
  cases hd : c.outcome with
  | ok ty =>
    rw [hd] at hkind
    cases hkind
  | error d =>
    rw [hd] at hkind
    replace hkind := of_decide_eq_true hkind
    obtain ⟨⟨s, hs, hk⟩, -⟩ := herror d hd
    rw [hkind] at hs
    cases hs
    exact ⟨c, d, needed, rfl, hneeded, hd, by rw [hkind]; rfl, hk⟩

end OnePass
