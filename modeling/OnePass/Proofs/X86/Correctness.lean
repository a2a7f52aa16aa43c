import OnePass.Proofs.X86.Function
import OnePass.Proofs.Machine.Allocation

/-!
# Compiled x86-64 code computes values
-/

set_option autoImplicit false

namespace OnePass.X86

open Grammar (Derivation sentence)

/-- A routine keeps to the calling convention when it sets registers that may be spoiled only, and
writes nothing above the stack pointer. -/
theorem kept_serve (D : Doubles) (r : Routine) (top : UInt64) (m : Machine)
    (h : ∀ a : UInt64, (m.get .rsp).toNat ≤ a.toNat → (serve D r m).ram a = m.ram a) :
    Kept top m (serve D r m) where
  position := by cases r <;> rfl
  registers q hq := by
    have hne : .rax ≠ q := by
      rintro rfl
      cases hq
    cases r with
    | pow | fmod => rfl
    | concat =>
      simp only [serve, callConcat, Machine.get_set, if_neg hne]
      rfl
  stack a ha _ := h a (by omega)

theorem provides (D : Doubles) : processor.Provides D (serve D) where
  pow m := ⟨rfl, (Machine.getX_setX m .xmm0 .xmm0 _).trans (if_pos rfl)⟩
  fmod m := ⟨rfl, (Machine.getX_setX m .xmm0 .xmm0 _).trans (if_pos rfl)⟩
  concat _ := ⟨rfl, (Machine.get_set _ .rax .rax _).trans (if_pos rfl)⟩
  kept := kept_serve D

/-- A source that compiles denotes one expression, and its code returns the value of it. -/
theorem compiled_code_returns_value {symbols : Symbols} {source : Text} {code data : Buffer}
    {verbose : Bool} {c : Compilation} {t : Ty} (hc : code.Ready) (hd : data.Ready)
    (hcomp : compileTokens target symbols (tokenize source) code data verbose = c)
    (hok : c.outcome = .ok t) :
    ∃ d : Derivation .expression, d.lexemes = sentence (tokenize source) ∧
      (∀ d' : Derivation .expression, d'.lexemes = sentence (tokenize source) → d' = d) ∧
      (∀ D, (d.expr.eval D).ty = t) ∧ processor.Evaluates symbols code data c d.expr := by
  subst hcomp
  obtain ⟨d, hcd⟩ := compiled_of_ok encoder hc hd hok
  exact ⟨d, hcd.lexemes, fun d' hd' => Grammar.derivation_unique (hd'.trans hcd.lexemes.symm),
    fun D => Expr.ty_eval D hcd.type, backend.evaluates_of_compiled hcd⟩

def Machine.holding (a : UInt64) (bs : Bytes) : Machine where
  gp := (Vector.replicate 16 0).set 4 0x7ffffffefff8
  xmm := Vector.replicate 16 ⟨0⟩
  flags := none
  ram := Ram.store (fun _ => 0) a bs
  free := a + UInt64.ofNat bs.length
  position := 0

/-- Two texts are joined by the code that is compiled for their sum. -/
theorem compiled_code_joins_texts :
    ∃ c, compileTokens target ⟨1, 2, 3⟩ (tokenize (utf8 "\"ab\" + \"c\"")) (.create [] 512 0)
        (.create [] 64 0x1000) = c ∧ c.outcome = .ok .string ∧
      ∃ n m', run (worldOf .standard ⟨1, 2, 3⟩) 0 c.emission.code.bytes.toArray n
        (.holding 0x1000 c.emission.data.bytes) = .returned m' ∧
        processor.Returns (.upTo 0x1000 0x600000000000) m' (.string (utf8 "abc")) := by
  refine ⟨_, rfl, ?_⟩
  generalize hcomp : compileTokens target ⟨1, 2, 3⟩ (tokenize (utf8 "\"ab\" + \"c\""))
    (.create [] 512 0) (.create [] 64 0x1000) = c
  have hok : c.outcome = .ok .string := Compilation.outcome_eq_ok (by
    rw [← hcomp]
    decide +kernel)
  have hdata : c.emission.data.bytes = [97, 98, 0, 0, 0, 0, 0, 0, 99, 0] := by
    rw [← hcomp]
    decide +kernel
  have hdepth : c.generator.stack.maxDepth = 2 := by
    rw [← hcomp]
    decide +kernel
  obtain ⟨d, -, hunique, -, text, hload, heval⟩ := compiled_code_returns_value
    ⟨rfl, rfl, by decide, by decide⟩ ⟨rfl, rfl, by decide, by decide⟩ hcomp hok
  obtain rfl := hunique (.add (.term (.factor (.atom (.literal (.string (utf8 "ab")))))) .plus
    (.factor (.atom (.literal (.string (utf8 "c")))))) (by decide +kernel)
  cases Option.some.inj hload
  have hdistinct : Symbols.Distinct ⟨1, 2, 3⟩ :=
    Symbols.distinct_of_ne (by decide) (by decide) (by decide)
  have htop : 0x600000000000 + 16 * c.generator.stack.maxDepth + 16 ≤
      ((Machine.holding 0x1000 c.emission.data.bytes).get .rsp).toNat := by
    rw [hdepth, hdata]
    decide
  have hrun := heval (.upTo 0x1000 0x600000000000) (worldOf .standard ⟨1, 2, 3⟩) 0
    (.holding 0x1000 c.emission.data.bytes) rfl
    ((provides .standard).runtime hdistinct (by decide) htop)
  rw [hdata] at hrun ⊢
  exact ⟨hok, hrun (Arena.stored_store (by decide) (by decide) (by decide)) (by decide +kernel)⟩

end OnePass.X86
