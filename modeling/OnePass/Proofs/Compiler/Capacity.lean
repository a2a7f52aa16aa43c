import OnePass.Proofs.Compiler.Faults

/-!
# How large the buffers must be

The sizes of the buffers decide one thing only: whether code and constants fit. What the tokens are
to blame for is reported whatever the sizes are. Otherwise there are one code and one list of
constants for all sizes, and compilation succeeds exactly when each buffer has room for its own.
-/

set_option autoImplicit false

namespace OnePass

theorem ofTokens_of_generated {l : Linkage} {tokens : List Token} {e : Diagnostic} {g : Generator}
    (hg : Generate.function l (.start tokens) = .error e g) : e.OfTokens := by
  have hrun := Generate.function_agree (fun _ => Iff.rfl : l.Like l) _ _ (.start l l tokens)
  rw [hg] at hrun
  cases hrun with
  | error _ he _ => exact he

section Generated

variable {target : Target} {symbols : Symbols} {tokens : List Token} {t : Ty} {g : Generator}

theorem compileTokens_generator (code data : Buffer) (verbose : Bool)
    (hg : Generate.function ⟨target.roles, symbols⟩ (.start tokens) = .ok t g) :
    (compileTokens target symbols tokens code data verbose).generator = g := by
  unfold compileTokens
  rw [hg]
  dsimp only
  split <;> rfl

variable (E : Encoder target) {code data : Buffer} (hc : code.Ready) (hd : data.Ready)
  (verbose : Bool) (hg : Generate.function ⟨target.roles, symbols⟩ (.start tokens) = .ok t g)

include hc hd hg

theorem emitted_of_generated :
    Emitted E code data g.actions.toList
      (Emission.performAll target { code, data, verbose } g.actions) := by
  have he := compileTokens_emitted symbols tokens verbose E hc hd
  rwa [compileTokens_generator code data verbose hg] at he

/-- What was generated and fits is what the buffers then hold. -/
theorem succeeds_of_fits
    (hdata : data.Fits (constants data.offset g.actions.toList).length)
    (hcode : code.Fits (E.encode (linked data.base data.offset g.actions.toList)).length) :
    (compileTokens target symbols tokens code data verbose).outcome = .ok t ∧
      (compileTokens target symbols tokens code data verbose).emission.code.bytes =
        code.bytes ++ E.encode (linked data.base data.offset g.actions.toList) ∧
      (compileTokens target symbols tokens code data verbose).emission.data.bytes =
        data.bytes ++ constants data.offset g.actions.toList := by
  have he := emitted_of_generated E hc hd verbose hg
  have hnone := he.failure?_eq_none_iff.2 ⟨hdata, hcode⟩
  obtain ⟨hcb, hdb, -⟩ := compileTokens_emission target symbols tokens code data verbose
  have hgen := compileTokens_generator code data verbose hg
  rw [hgen] at hcb hdb
  constructor
  · rw [compileTokens_outcome, hgen, hg, hnone]
  · rw [hcb, hdb]
    exact ⟨he.code_bytes hnone, he.data_bytes hnone⟩

/-- What was generated and does not fit is reported as an overflow. -/
theorem overflows_of_not_fits
    (h : ¬(data.Fits (constants data.offset g.actions.toList).length ∧
      code.Fits (E.encode (linked data.base data.offset g.actions.toList)).length)) :
    ∃ e, (compileTokens target symbols tokens code data verbose).outcome = .error e ∧
      e.cause.sentinel? = some .overflow := by
  have he := emitted_of_generated E hc hd verbose hg
  rw [← he.failure?_eq_none_iff] at h
  obtain ⟨f, hf⟩ := Option.ne_none_iff_exists'.1 h
  obtain ⟨buffer, needed, capacity, rfl⟩ := he.overflow_of_failure? hf
  refine ⟨.ofCodegen (.buffer (.overflow buffer needed capacity)), ?_, rfl⟩
  rw [compileTokens_outcome, compileTokens_generator code data verbose hg, hg, hf]

end Generated

/-- The sizes of the buffers matter for an overflow alone. A fault of the tokens is reported for all
sizes if it is for any. Otherwise there are a code and constants such that compilation succeeds
exactly when the buffers are as long, always with these, and else ends in an overflow. -/
theorem compileTokens_depends_on_sizes_for_overflow {arch : Arch} {target : Target}
    (ha : arch.target? = some target) (symbols : Symbols) (tokens : List Token)
    (codeName dataName : Text) (codeBase dataBase : UInt64) (verbose : Bool) :
    let run := fun cs ds : Nat => compileTokens target symbols tokens
      (.create codeName cs codeBase) (.create dataName ds dataBase) verbose
    (∀ cs ds e, (run cs ds).outcome = .error e →
      e.cause.sentinel? ∈ [some .grammar, some .typing, some .routine] →
      ∀ cs' ds', (run cs' ds').outcome = .error e) ∧
    ((∀ cs ds e, (run cs ds).outcome = .error e →
        e.cause.sentinel? ∉ [some .grammar, some .typing, some .routine]) →
      ∃ (c d : Nat) (code data : Bytes) (t : Ty), code.length = c ∧ data.length = d ∧
        ∀ cs < 0x8000000000000000, ∀ ds < 0x8000000000000000,
          ((∃ t', (run cs ds).outcome = .ok t') ↔ c ≤ cs ∧ d ≤ ds) ∧
          (c ≤ cs ∧ d ≤ ds → (run cs ds).outcome = .ok t ∧
            (run cs ds).emission.code.bytes = code ∧ (run cs ds).emission.data.bytes = data) ∧
          (¬(c ≤ cs ∧ d ≤ ds) → ∃ e, (run cs ds).outcome = .error e ∧
            e.cause.sentinel? = some .overflow)) := by
  intro run
  obtain ⟨E⟩ := Arch.exists_encoder ha
  cases hg : Generate.function ⟨target.roles, symbols⟩ (.start tokens) with
  | error e g =>
    have hall : ∀ cs ds, (run cs ds).outcome = .error e := by
      intro cs ds
      rw [compileTokens_outcome, hg]
    constructor
    · intro cs ds e' he' _ cs' ds'
      rw [hall cs' ds', ← hall cs ds, he']
    · intro hnone
      obtain ⟨s, hs, hne, -⟩ := ofTokens_of_generated hg
      have hnot := hnone 0 0 e (hall 0 0)
      rw [hs] at hnot
      cases s <;> simp_all
  | ok t g =>
    constructor
    · intro cs ds e he hs
      obtain ⟨f, rfl⟩ := buffer_of_generated hg he
      cases f <;> simp [Diagnostic.ofCodegen, Cause.sentinel?] at hs
    · intro _
      let code := E.encode (linked dataBase 0 g.actions.toList)
      let data := constants 0 g.actions.toList
      refine ⟨_, _, code, data, t, rfl, rfl, fun cs hcs ds hds => ?_⟩
      have hc := Buffer.ready_create codeName codeBase hcs
      have hd := Buffer.ready_create dataName dataBase hds
      -- Both buffers are empty, so what fits is what is no longer than they are.
      have hfits : code.length ≤ cs ∧ data.length ≤ ds → (run cs ds).outcome = .ok t ∧
          (run cs ds).emission.code.bytes = code ∧ (run cs ds).emission.data.bytes = data :=
        fun h => succeeds_of_fits E hc hd verbose hg (Buffer.fits_create_iff.2 h.2)
          (Buffer.fits_create_iff.2 h.1)
      have hfull : ¬(code.length ≤ cs ∧ data.length ≤ ds) →
          ∃ e, (run cs ds).outcome = .error e ∧ e.cause.sentinel? = some .overflow :=
        fun h => overflows_of_not_fits E hc hd verbose hg fun hf =>
          h ⟨Buffer.fits_create_iff.1 hf.2, Buffer.fits_create_iff.1 hf.1⟩
      refine ⟨⟨?_, fun h => ⟨t, (hfits h).1⟩⟩, hfits, hfull⟩
      rintro ⟨t', ht'⟩
      by_contra hn
      obtain ⟨e, he, -⟩ := hfull hn
      cases he.symm.trans ht'

/-- The sum of an integer and a double takes 95 bytes of code and eight of data, no less. -/
theorem mixed_sum_needs_sizes :
    let run := fun cs ds : Nat => compileTokens X86.target ⟨1, 2, 3⟩ (tokenize (utf8 "1 + 2.5"))
      (.create (utf8 "code") cs 0x1000) (.create (utf8 "data") ds 0x2000)
    (run 95 8).outcome = .ok .float ∧
      (∃ e, (run 94 8).outcome = .error e ∧ e.cause.sentinel? = some .overflow) ∧
      ∃ e, (run 95 7).outcome = .error e ∧ e.cause.sentinel? = some .overflow := by
  intro run
  have hlarge : (run 512 64).outcome.toOption = some .float ∧
      (run 512 64).emission.code.bytes.length = 95 ∧
      (run 512 64).emission.data.bytes.length = 8 := by decide +kernel
  have hok : (run 512 64).outcome = .ok .float := Compilation.outcome_eq_ok hlarge.1
  have ha : Arch.x86.target? = some X86.target := rfl
  obtain ⟨hsame, hsizes⟩ := compileTokens_depends_on_sizes_for_overflow ha ⟨1, 2, 3⟩
    (tokenize (utf8 "1 + 2.5")) (utf8 "code") (utf8 "data") 0x1000 0x2000 true
  obtain ⟨c, d, code, data, t, hc, hd, hrun⟩ := hsizes fun cs ds e he hs => by
    cases (hsame cs ds e he hs 512 64).symm.trans hok
  obtain ⟨hsucceeds, hresult, -⟩ := hrun 512 (by decide) 64 (by decide)
  obtain ⟨ht, hcode, hdata⟩ := hresult (hsucceeds.1 ⟨_, hok⟩)
  have hc95 : c = 95 := by rw [← hc, ← hcode, hlarge.2.1]
  have hd8 : d = 8 := by rw [← hd, ← hdata, hlarge.2.2]
  subst hc95 hd8
  constructor
  · rw [((hrun 95 (by decide) 8 (by decide)).2.1 ⟨Nat.le_refl _, Nat.le_refl _⟩).1, ← ht, hok]
  constructor
  · exact (hrun 94 (by decide) 8 (by decide)).2.2 (by decide)
  · exact (hrun 95 (by decide) 7 (by decide)).2.2 (by decide)

end OnePass
