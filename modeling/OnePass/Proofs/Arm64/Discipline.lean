import OnePass.Proofs.Arm64.Correctness

/-!
# The stack of compiled code
-/

set_option autoImplicit false

namespace OnePass.Arm64

open Grammar (Derivation)

/-- Compiled code keeps to its stack and to the calling convention, on both architectures; the
operand stack that it mirrors is the one that its actions note. -/
theorem compiled_code_keeps_stack_discipline (symbols : Symbols) {code data : Buffer}
    (hc : code.Ready) (hd : data.Ready) (tokens : List Token) (verbose : Bool) :
    (∀ c t, compileTokens X86.target symbols tokens code data verbose = c → c.outcome = .ok t →
      OperandStack.after c.generator.actions.toList = c.generator.stack ∧
        X86.processor.Disciplined symbols code data c) ∧
    ∀ c t, compileTokens target symbols tokens code data verbose = c → c.outcome = .ok t →
      OperandStack.after c.generator.actions.toList = c.generator.stack ∧
        processor.Disciplined symbols code data c := by
  constructor
  · rintro c t rfl hok
    obtain ⟨d, hcd⟩ := compiled_of_ok X86.encoder hc hd hok
    exact ⟨compileTokens_mirrored .., X86.backend.disciplined_of_compiled hcd hc hd⟩
  · rintro c t rfl hok
    obtain ⟨d, hcd⟩ := compiled_of_ok encoder hc hd hok
    exact ⟨compileTokens_mirrored .., backend.disciplined_of_compiled hcd hc hd⟩

/-- The code of a sum returns on both architectures, with the registers as they were. -/
theorem code_of_sum_restores_registers :
    ∃ c c' ws, compileTokens X86.target ⟨1, 2, 0⟩ (tokenize (utf8 "1 + 2")) (.create [] 512 0)
        (.create [] 64 0x1000) = c ∧
      compileTokens target ⟨1, 2, 0⟩ (tokenize (utf8 "1 + 2")) (.create [] 512 0)
        (.create [] 64 0x1000) = c' ∧ words c'.emission.code.bytes = some ws ∧
      (∃ n m m', X86.run (X86.worldOf .standard ⟨1, 2, 0⟩) 0 c.emission.code.bytes.toArray n
          (.holding 0x1000 []) = .running m ∧
        X86.step (X86.worldOf .standard ⟨1, 2, 0⟩) 0 c.emission.code.bytes.toArray m =
          .returned m' ∧
        X86.Restored (.holding 0x1000 []) m) ∧
      ∃ n m m', run (worldOf .standard ⟨1, 2, 0⟩) 0 ws.toArray n (.above 0x7fffffff0000) =
          .running m ∧
        step (worldOf .standard ⟨1, 2, 0⟩) 0 ws.toArray m = .returned m' ∧
        Restored (.above 0x7fffffff0000) m := by
  have hdistinct : Symbols.Distinct ⟨1, 2, 0⟩ :=
    Symbols.distinct_of_ne (by decide) (by decide) (by decide)
  have hc : (Buffer.create [] 512 0).Ready := ⟨rfl, rfl, by decide, by decide⟩
  have hd : (Buffer.create [] 64 0x1000).Ready := ⟨rfl, rfl, by decide, by decide⟩
  have hsum : (Derivation.add (.term (.factor (.atom (.literal (.int 1 (utf8 "1")))))) .plus
      (.factor (.atom (.literal (.int 2 (utf8 "2")))))).lexemes =
      Grammar.sentence (tokenize (utf8 "1 + 2")) := by
    decide +kernel
  obtain ⟨hx86, harm64⟩ := compiled_code_keeps_stack_discipline ⟨1, 2, 0⟩ hc hd
    (tokenize (utf8 "1 + 2")) true
  generalize hcomp : compileTokens X86.target ⟨1, 2, 0⟩ (tokenize (utf8 "1 + 2"))
    (.create [] 512 0) (.create [] 64 0x1000) = c
  generalize hcomp' : compileTokens target ⟨1, 2, 0⟩ (tokenize (utf8 "1 + 2"))
    (.create [] 512 0) (.create [] 64 0x1000) = c'
  have hok : c.outcome = .ok .int := Compilation.outcome_eq_ok (by
    rw [← hcomp]
    decide +kernel)
  have hok' : c'.outcome = .ok .int := Compilation.outcome_eq_ok (by
    rw [← hcomp']
    decide +kernel)
  obtain ⟨d, hcd⟩ := compiled_of_ok X86.encoder hc hd (hcomp.symm ▸ hok)
  obtain ⟨d', hcd'⟩ := compiled_of_ok encoder hc hd (hcomp'.symm ▸ hok')
  rw [hcomp] at hcd
  rw [hcomp'] at hcd'
  obtain rfl := Grammar.derivation_unique (hcd.lexemes.trans hsum.symm)
  obtain rfl := Grammar.derivation_unique (hcd'.lexemes.trans hsum.symm)
  have hdepth := hcd.maxDepth
  have hdepth' := hcd'.maxDepth
  have hdata := hcd.data_bytes
  have hdata' := hcd'.data_bytes
  obtain ⟨text, n, m, m', hload, hrun, hret, hr, -⟩ := (hx86 c .int hcomp hok).2.returns
    (X86.backend.evaluates_of_compiled hcd) 0 (m := .holding 0x1000 []) rfl (by decide)
    ((X86.provides .standard).runtime hdistinct (show 0 < 0x1000 by decide)
      (show 0x600000000000 + 16 * _ + 16 ≤ _ by rw [hdepth]; decide))
    ((X86.provides .standard).conventional hdistinct rfl _ _) (by rw [hdata]; nofun) (by decide)
  cases Option.some.inj hload
  obtain ⟨text, n', s, s', hload', hrun', hret', hr', -⟩ := (harm64 c' .int hcomp' hok').2.returns
    (backend.evaluates_of_compiled hcd') 0 (m := .above 0x7fffffff0000) rfl (by decide)
    ((provides .standard).runtime hdistinct (show 0 < 0x1000 by decide)
      (show 0x600000000000 + 16 * _ + 16 ≤ _ by rw [hdepth']; decide))
    ((provides .standard).conventional hdistinct rfl _ _) (by rw [hdata']; nofun) (by decide)
  obtain ⟨ws, hws, rfl⟩ := Option.map_eq_some_iff.1 hload'
  exact ⟨_, _, ws, rfl, rfl, hws, ⟨n, m, m', hrun, hret, hr⟩, n', s, s', hrun', hret', hr'⟩

end OnePass.Arm64
