import OnePass.Proofs.Arm64.Disassembly
import OnePass.Proofs.Artifact.Layout
import OnePass.Proofs.Compiler.Tracing
import OnePass.Proofs.Compiler.Verbosity
import OnePass.Proofs.X86.Disassembly

/-!
# Traces of artifacts

Tracing has no influence on what is compiled, and the trace of an artifact shows its code: the
instruction lines are those of the instructions that the code is read back as, in order, each with
the offset of the first byte of its instruction.
-/

set_option autoImplicit false

namespace OnePass

def Trace.instructionLines (t : Trace) : List Text := t.instructions.map Event.line

def Arch.Lists : Arch → Bytes → List Text → Prop
  | .x86, code, lines => ∃ listing, X86.listing? code = some listing ∧
      List.Forall₂ (fun line p => ∃ t, line = Event.instructionLine p.1 t ∧ p.2.ShownAs t)
        lines listing
  | .arm64, code, lines => ∃ is, Arm64.decodeAll code = some is ∧
      List.Forall₂ (fun line p => ∃ t, line = Event.instructionLine (4 * p.2) t ∧ p.1.ShownAs t)
        lines is.zipIdx
  | _, _, _ => False

namespace X86

theorem placed_eq (n : Nat) (is : List Resolved) :
    placed n is = (located Instr.encode n is).map fun p => (p.1, p.2.plain) := by
  induction is generalizing n with
  | nil => rfl
  | cons i is ih => rw [placed, located, List.map_cons, ih]

theorem lists_of_listed {os : List Operation} {t : Trace}
    (h : List.Forall₂ (Event.Shows Instr.ShownAs) t.instructions
      (located Instr.encode 0 (lister.lowerAll os))) :
    Arch.x86.Lists (encoder.encode os) t.instructionLines := by
  refine ⟨placed 0 (lowerAll os), ?_, ?_⟩
  · rw [encode_eq]
    exact listing?_encodeAll (lowerAll_closed os).encodable
  · rw [placed_eq, Trace.instructionLines, List.forall₂_map_left_iff, List.forall₂_map_right_iff]
    refine List.Forall₂.imp (R := Event.Shows Instr.ShownAs) ?_ h
    -- A decoder reports the two moves of the frame as plain moves; they are shown alike.
    rintro e p ⟨s, hline, hs⟩
    exact ⟨s, hline, Instr.shownAs_plain hs⟩

end X86

namespace Arm64

theorem located_words (k : Nat) (is : List Resolved) :
    located (fun i : Resolved => littleEndian 4 i.word.toNat) (4 * k) is =
      (is.zipIdx k).map fun p => (4 * p.2, p.1) := by
  induction is generalizing k with
  | nil => rfl
  | cons i is ih =>
    rw [located, length_littleEndian, List.zipIdx_cons, List.map_cons, ← Nat.mul_succ, ih]

/-- Compiled code does not name the zero register. -/
theorem xzr_not_mem_names {symbols : Symbols} {e : Expr} (he : e.Known) (base : UInt64)
    (offset : Nat) : ∀ o ∈ linked base offset (e.function ⟨roles, symbols⟩), xzr ∉ o.names := by
  have hused : ∀ {o : Operation}, Native.Used ⟨roles, symbols⟩ o → xzr ∉ o.names := by
    intro o ho
    cases ho <;> simp only [Operation.names, List.mem_cons, List.not_mem_nil, or_false] <;> decide
  rw [linked_function]
  refine List.forall_mem_cons.2 ⟨List.not_mem_nil, List.forall_mem_append.2 ⟨fun o ho => ?_,
    List.forall_mem_cons.2 ⟨List.not_mem_nil, List.forall_mem_nil _⟩⟩⟩
  exact hused (linked_used (e.body_uses he) base offset o ho)

theorem lists_of_listed {os : List Operation} (hx : ∀ o ∈ os, xzr ∉ o.names) {t : Trace}
    (h : List.Forall₂ (Event.Shows Instr.ShownAs) t.instructions
      (located (fun i : Resolved => littleEndian 4 i.word.toNat) 0 (lister.lowerAll os))) :
    Arch.arm64.Lists (encoder.encode os) t.instructionLines := by
  refine ⟨lowerAll os, ?_, ?_⟩
  · rw [encode_eq]
    exact decodeAll_encodeAll (lowerAll_closed hx).encodable
  · rw [Trace.instructionLines, List.forall₂_map_left_iff]
    have hwords := located_words 0 (lowerAll os)
    rw [Nat.mul_zero] at hwords
    rw [show lister.lowerAll os = lowerAll os from rfl, hwords, List.forall₂_map_right_iff] at h
    exact h

end Arm64

namespace Artifact

theorem ofEmission_hushed {e e' : Emission} (h : e.Hushed e') (target : Target)
    (symbols : Symbols) (source : Text) (ty : Ty) :
    ofEmission target symbols source ty e' = ofEmission target symbols source ty e := by
  rw [ofEmission, ofEmission, h.code, h.data]

/-- In silence the same artifact is compiled, or the same error is met, without a trace. -/
theorem compile_hushed (arch : Arch) (symbols : Symbols) (sizes : RegionSizes) (source : Text) :
    (compile arch symbols sizes source false).outcome =
        (compile arch symbols sizes source true).outcome ∧
      (compile arch symbols sizes source false).trace = #[] := by
  unfold compile
  cases ha : arch.target? with
  | none => exact ⟨rfl, rfl⟩
  | some target =>
    obtain ⟨hout, hhushed⟩ := compileTokens_hushed (Arch.inLockstep ha) symbols
      (tokenize source) (.create (utf8 "code") sizes.code codeAddress)
      (.create (utf8 "data") sizes.data (dataAddress sizes))
    dsimp only
    rw [hout]
    cases (compileTokens target symbols (tokenize source)
      (.create (utf8 "code") sizes.code codeAddress)
      (.create (utf8 "data") sizes.data (dataAddress sizes)) true).outcome with
    | error d => exact ⟨rfl, hhushed.trace⟩
    | ok ty =>
      exact ⟨congrArg Except.ok (ofEmission_hushed hhushed.commit ..), hhushed.commit.trace⟩

variable {arch : Arch} {target : Target} {symbols : Symbols} {sizes : RegionSizes} {source : Text}
  {verbose : Bool} {a : Artifact}

theorem instructions_compile (ha : arch.target? = some target) :
    (compile arch symbols sizes source verbose).trace.instructions =
      (compileTokens target symbols (tokenize source)
        (.create (utf8 "code") sizes.code codeAddress)
        (.create (utf8 "data") sizes.data (dataAddress sizes))
        verbose).emission.trace.instructions := by
  unfold compile
  rw [ha]
  dsimp only
  split
  · rfl
  · exact (Writer.instructions_commit _).trans (Writer.instructions_commit _)

theorem listed (E : Encoder target) {I : Type} {encode : I → Bytes} {ShownAs : I → Text → Prop}
    (L : Lister E encode ShownAs) (ha : arch.target? = some target)
    (h : (compile arch symbols sizes source true).outcome = .ok a)
    (hc : sizes.code < 0x8000000000000000) (hd : sizes.data < 0x8000000000000000) :
    ∃ e : Expr, e.Known ∧ a.code = some (E.encode
        (linked (dataAddress sizes) 0 (e.function ⟨target.roles, symbols⟩))) ∧
      List.Forall₂ (Event.Shows ShownAs) (compile arch symbols sizes source true).trace.instructions
        (located encode 0 (L.lowerAll
          (linked (dataAddress sizes) 0 (e.function ⟨target.roles, symbols⟩)))) := by
  obtain ⟨d, t, hcd, rfl⟩ := compiled_by E ha h hc hd
  refine ⟨d.expr, d.known, rfl, ?_⟩
  rw [instructions_compile ha]
  exact hcd.listed L (Buffer.ready_create _ _ hc) (Buffer.ready_create _ _ hd)

theorem lists_compile (h : (compile arch symbols sizes source true).outcome = .ok a)
    (hc : sizes.code < 0x8000000000000000) (hd : sizes.data < 0x8000000000000000) :
    ∃ code, a.code = some code ∧
      arch.Lists code (compile arch symbols sizes source true).trace.instructionLines := by
  cases arch with
  | x86 =>
    obtain ⟨e, -, hcode, hl⟩ := listed X86.encoder X86.lister rfl h hc hd
    exact ⟨_, hcode, X86.lists_of_listed hl⟩
  | arm64 =>
    obtain ⟨e, he, hcode, hl⟩ := listed Arm64.encoder Arm64.lister rfl h hc hd
    exact ⟨_, hcode, Arm64.lists_of_listed (Arm64.xzr_not_mem_names he _ _) hl⟩
  | unknown | other => cases h

end Artifact

/-- Tracing has no influence: with a trace and without one, every source compiles to the same
artifact or fails with the same error. And a trace shows the code: the instruction lines of an
artifact that was compiled are those of the instructions that its code is read back as, in order and
one by one, each with the offset of the first byte of its instruction. -/
theorem Artifact.trace_inert_and_faithful (arch : Arch) (symbols : Symbols) (sizes : RegionSizes)
    (source : Text) :
    let verbose := Artifact.compile arch symbols sizes source true
    let silent := Artifact.compile arch symbols sizes source false
    silent.outcome = verbose.outcome ∧ silent.trace = #[] ∧
      (sizes.code < 0x8000000000000000 → sizes.data < 0x8000000000000000 →
        ∀ a, verbose.outcome = .ok a →
          ∃ code, a.code = some code ∧ arch.Lists code verbose.trace.instructionLines) := by
  obtain ⟨houtcome, htrace⟩ := Artifact.compile_hushed arch symbols sizes source
  exact ⟨houtcome, htrace, fun hc hd _ h => Artifact.lists_compile h hc hd⟩

/-- A power has jumps forward and one back; they and the other instructions of the artifact are
shown by the trace, and without a trace the artifact is the same. -/
theorem Artifact.trace_of_power :
    ∃ a code, (Artifact.compile .x86 Artifact.placeholders { code := 256, data := 64 }
        (utf8 "2 ** 3") false).outcome = .ok a ∧ a.code = some code ∧ code.length = 0x77 ∧
      ∃ lines, (Artifact.compile .x86 Artifact.placeholders { code := 256, data := 64 }
          (utf8 "2 ** 3") true).trace.instructionLines = lines ∧
        Arch.x86.Lists code lines ∧ lines.length = 32 ∧
        lines[14]? = some (utf8 "000040: js neg <fixup>") ∧
        lines[15]? = some (utf8 "000042: test rcx, rcx") ∧
        lines[22]? = some (utf8 "00005b: jmp loop -27") := by
  obtain ⟨houtcome, -, hlists⟩ := Artifact.trace_inert_and_faithful .x86 Artifact.placeholders
    { code := 256, data := 64 } (utf8 "2 ** 3")
  generalize hb : Artifact.compile .x86 Artifact.placeholders { code := 256, data := 64 }
    (utf8 "2 ** 3") true = b at houtcome hlists ⊢
  have hok : (b.outcome.toOption.bind Artifact.code).map List.length = some 0x77 ∧
      b.trace.instructionLines.length = 32 ∧
      b.trace.instructionLines[14]? = some (utf8 "000040: js neg <fixup>") ∧
      b.trace.instructionLines[15]? = some (utf8 "000042: test rcx, rcx") ∧
      b.trace.instructionLines[22]? = some (utf8 "00005b: jmp loop -27") := by
    rw [← hb]
    decide +kernel
  obtain ⟨hlength, hlines⟩ := hok
  cases ho : b.outcome with
  | error e =>
    rw [ho] at hlength
    cases hlength
  | ok a =>
    obtain ⟨code, hcode, hl⟩ := hlists (by decide) (by decide) a ho
    rw [ho] at hlength
    have hsize : code.length = 0x77 := by simpa [Except.toOption, hcode] using hlength
    exact ⟨a, code, houtcome.trans ho, hcode, hsize, _, rfl, hl, hlines⟩

end OnePass
