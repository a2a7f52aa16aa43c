import OnePass.Proofs.Arm64.Function
import OnePass.Proofs.Machine.Allocation
import OnePass.Proofs.X86.Correctness

/-!
# Compiled ARM64 code computes values

The code that is emitted for a source returns the value that the code for the other architecture
returns.
-/

set_option autoImplicit false

namespace OnePass.Arm64

open Grammar (Derivation sentence)

/-- A routine keeps to the calling convention when it sets registers that may be spoiled only, and
writes nothing above the stack pointer. -/
theorem kept_serve (D : Doubles) (r : Routine) (top : UInt64) (m : Machine)
    (h : ∀ a : UInt64, m.sp.toNat ≤ a.toNat → (serve D r m).ram a = m.ram a) :
    Kept top m (serve D r m) where
  position := by cases r <;> rfl
  sp := by cases r <;> rfl
  registers q hq _ := by
    have hne : x0 ≠ q := by
      rintro rfl
      cases hq
    cases r with
    | pow | fmod => rfl
    | concat =>
      simp only [serve, callConcat, Machine.get_set, hne, false_and, if_false]
      rfl
  doubles x hx := by
    have hne : d0 ≠ x := by
      rintro rfl
      cases hx
    cases r with
    | pow | fmod => simp [serve, callPow, callFmod, hne]
    | concat => rfl
  stack a ha _ := h a ha

theorem provides (D : Doubles) : processor.Provides D (serve D) where
  pow m := ⟨rfl, (Machine.getF_setF m d0 d0 _).trans (if_pos rfl)⟩
  fmod m := ⟨rfl, (Machine.getF_setF m d0 d0 _).trans (if_pos rfl)⟩
  concat m := ⟨rfl, (Machine.get_set _ x0 x0 _).trans (if_pos ⟨rfl, by decide⟩)⟩
  kept := kept_serve D

/-- A source that compiles denotes one expression, and its code returns the value of it. The other
architecture's code for the source has the same type and returns the same value. -/
theorem compiled_code_returns_same_value {symbols : Symbols} {source : Text} {code data : Buffer}
    {verbose : Bool} {c : Compilation} {t : Ty} (hc : code.Ready) (hd : data.Ready)
    (hcomp : compileTokens target symbols (tokenize source) code data verbose = c)
    (hok : c.outcome = .ok t) :
    ∃ d : Derivation .expression, d.lexemes = sentence (tokenize source) ∧
      (∀ d' : Derivation .expression, d'.lexemes = sentence (tokenize source) → d' = d) ∧
      (∀ D, (d.expr.eval D).ty = t) ∧ processor.Evaluates symbols code data c d.expr ∧
      ∀ (symbols' : Symbols) (code' data' : Buffer) (verbose' : Bool) (c' : Compilation) (t' : Ty),
        code'.Ready → data'.Ready →
        compileTokens X86.target symbols' (tokenize source) code' data' verbose' = c' →
        c'.outcome = .ok t' →
        t' = t ∧ X86.processor.Evaluates symbols' code' data' c' d.expr := by
  subst hcomp
  obtain ⟨d, hcd⟩ := compiled_of_ok encoder hc hd hok
  refine ⟨d, hcd.lexemes, fun d' hd' => Grammar.derivation_unique (hd'.trans hcd.lexemes.symm),
    fun D => Expr.ty_eval D hcd.type, backend.evaluates_of_compiled hcd,
    ?_⟩
  rintro symbols' code' data' verbose' _ t' hc' hd' rfl hok'
  obtain ⟨d', hcd'⟩ := compiled_of_ok X86.encoder hc' hd' hok'
  obtain rfl : d' = d := Grammar.derivation_unique (hcd'.lexemes.trans hcd.lexemes.symm)
  exact ⟨(Expr.ty_eval .standard hcd'.type).symm.trans (Expr.ty_eval .standard hcd.type),
    X86.backend.evaluates_of_compiled hcd'⟩

def Machine.above (sp : UInt64) : Machine where
  gp := Vector.replicate 31 0
  sp := sp
  fp := Vector.replicate 32 ⟨0⟩
  flags := ⟨false, false, false, false⟩
  ram _ := 0
  free := 0x1000
  position := 0

/-- A power is computed by the code that either architecture has for it. -/
theorem compiled_code_computes_power :
    ∃ c c' ws, compileTokens target ⟨1, 2, 3⟩ (tokenize (utf8 "3 ** 4 - 1"))
        (.create [] 512 0) (.create [] 64 0x1000) = c ∧
      compileTokens X86.target ⟨1, 2, 3⟩ (tokenize (utf8 "3 ** 4 - 1"))
        (.create [] 512 0) (.create [] 64 0x1000) = c' ∧
      words c.emission.code.bytes = some ws ∧
      (∃ n m', run (worldOf .standard ⟨1, 2, 3⟩) 0 ws.toArray n (.above 0x7fffffff0000) =
          .returned m' ∧
        m'.get x0 = 80) ∧
      ∃ n m', X86.run (X86.worldOf .standard ⟨1, 2, 3⟩) 0 c'.emission.code.bytes.toArray n
        (.holding 0x1000 []) = .returned m' ∧ m'.get .rax = 80 := by
  generalize hcomp : compileTokens target ⟨1, 2, 3⟩ (tokenize (utf8 "3 ** 4 - 1"))
    (.create [] 512 0) (.create [] 64 0x1000) = c
  have hok : c.outcome = .ok .int := Compilation.outcome_eq_ok (by
    rw [← hcomp]
    decide +kernel)
  have hdata : c.emission.data.bytes = [] ∧ c.generator.stack.maxDepth = 2 := by
    rw [← hcomp]
    decide +kernel
  obtain ⟨d, -, hunique, -, ⟨text, hload, heval⟩, hother⟩ := compiled_code_returns_same_value
    ⟨rfl, rfl, by decide, by decide⟩ ⟨rfl, rfl, by decide, by decide⟩ hcomp hok
  obtain ⟨ws, hws, rfl⟩ := Option.map_eq_some_iff.1 hload
  obtain rfl := hunique (.add (.term (.multiply (.factor (.atom (.literal (.int 3 (utf8 "3")))))
    .power (.atom (.literal (.int 4 (utf8 "4")))))) .minus
    (.factor (.atom (.literal (.int 1 (utf8 "1")))))) (by decide +kernel)
  have hdistinct : Symbols.Distinct ⟨1, 2, 3⟩ :=
    Symbols.distinct_of_ne (by decide) (by decide) (by decide)
  refine ⟨c, _, ws, rfl, rfl, hws, ?_, ?_⟩
  · refine heval (.upTo 0x1000 0x600000000000) (worldOf .standard ⟨1, 2, 3⟩) 0
      (.above 0x7fffffff0000) rfl ((provides .standard).runtime hdistinct (by decide) ?_) ?_
      (by decide +kernel)
    · rw [hdata.2]
      decide
    · rw [hdata.1]
      nofun
  · generalize hcomp' : compileTokens X86.target ⟨1, 2, 3⟩ (tokenize (utf8 "3 ** 4 - 1"))
      (.create [] 512 0) (.create [] 64 0x1000) = c'
    have hdata' : c'.outcome.toOption = some .int ∧ c'.emission.data.bytes = [] ∧
        c'.generator.stack.maxDepth = 2 := by
      rw [← hcomp']
      decide +kernel
    obtain ⟨-, text, hload', heval'⟩ := hother ⟨1, 2, 3⟩ (.create [] 512 0) (.create [] 64 0x1000)
      true c' .int ⟨rfl, rfl, by decide, by decide⟩ ⟨rfl, rfl, by decide, by decide⟩ hcomp'
      (Compilation.outcome_eq_ok hdata'.1)
    cases Option.some.inj hload'
    refine heval' (.upTo 0x1000 0x600000000000) (X86.worldOf .standard ⟨1, 2, 3⟩) 0
      (.holding 0x1000 []) rfl ((X86.provides .standard).runtime hdistinct (by decide) ?_) ?_
      (by decide +kernel)
    · rw [hdata'.2.2]
      decide
    · rw [hdata'.2.1]
      nofun

end OnePass.Arm64
