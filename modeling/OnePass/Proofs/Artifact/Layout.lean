import OnePass.Artifact.Basic
import OnePass.Proofs.Compiler.Capacity
import OnePass.Proofs.Compiler.Literals
import OnePass.Proofs.Expr.Texts

/-!
# The layout of artifacts

An artifact holds the code and the constants of its source. Its data begins at a multiple of the
region size behind the code. There the constants stand in the order of the source, each at a
multiple of eight, and the code loads them from there.
-/

set_option autoImplicit false

namespace OnePass

open Grammar (Derivation sentence)

theorem Writer.commit_keeps (w : Writer) :
    w.commit.buffer.bytes = w.buffer.bytes ∧ w.commit.buffer.base = w.buffer.base := by
  unfold Writer.commit Writer.use
  cases hm : (w.note (.committed w.buffer.name w.offset)).misuse with
  | some m =>
    rw [Writer.buffer_note]
    exact ⟨rfl, rfl⟩
  | none =>
    dsimp only
    rw [Writer.buffer_note]
    exact ⟨rfl, rfl⟩

/-- Closing the buffers changes neither what they hold nor where they are. -/
theorem Emission.commit_keeps (e : Emission) :
    (e.commit.code.bytes = e.code.bytes ∧ e.commit.code.base = e.code.base) ∧
      e.commit.data.bytes = e.data.bytes ∧ e.commit.data.base = e.data.base :=
  ⟨Writer.commit_keeps e.codeWriter, Writer.commit_keeps _⟩

theorem mem_linked {base : UInt64} {offset : Nat} {as : List Action} {o : Operation}
    (h : o ∈ linked base offset as) : ∃ a ∈ as, ∃ address, o ∈ a.operations address := by
  induction as generalizing offset with
  | nil => cases h
  | cons a as ih =>
    rcases List.mem_append.1 h with ha | has
    · exact ⟨a, List.mem_cons_self, _, ha⟩
    · obtain ⟨b, hb, hmem⟩ := ih has
      exact ⟨b, List.mem_cons_of_mem a hb, hmem⟩

theorem Encoder.written_foldl {target : Target} {E : Encoder target} {start : Buffer}
    {os : List Operation} (ho : ∀ o ∈ os, (E.bytes? o).isSome) {added : Bytes} {w : Writer}
    (h : Written start added w) :
    Written start (added ++ E.encode os) (os.foldl target.perform w) := by
  induction os generalizing added w with
  | nil => exact h.of_eq (List.append_nil _).symm
  | cons o os ih =>
    obtain ⟨hone, hrest⟩ := List.forall_mem_cons.1 ho
    have hw := ih hrest (written_all h hone)
    rw [List.append_assoc, ← Encoder.encode_append] at hw
    exact hw

theorem Encoder.bytes_foldl {target : Target} {E : Encoder target} {start : Buffer}
    (hs : start.Ready) {os : List Operation} (ho : ∀ o ∈ os, (E.bytes? o).isSome)
    (hf : start.Fits (E.encode os).length) (verbose : Bool) :
    (os.foldl target.perform { buffer := start, verbose }).buffer.bytes =
      start.bytes ++ E.encode os :=
  ((written_foldl ho (.begin start hs #[] verbose)).fits hf).2

namespace Artifact

def ofExpr {target : Target} (E : Encoder target) (symbols : Symbols) (sizes : RegionSizes)
    (source : Text) (t : Ty) (e : Expr) : Artifact where
  arch := target.arch.name
  resultType := t.name
  source := source
  code := some (E.encode (linked (dataAddress sizes) 0 (e.function ⟨target.roles, symbols⟩)))
  data := some (constants 0 (e.function ⟨target.roles, symbols⟩))
  codeBase := codeAddress
  dataBase := dataAddress sizes
  symbols := some (symbolTable symbols)

section Compile

variable {arch : Arch} {target : Target} {symbols : Symbols} {sizes : RegionSizes} {source : Text}
  {verbose : Bool} {a : Artifact}

theorem compile_outcome (ha : arch.target? = some target) {c : Compilation}
    (hc : compileTokens target symbols (tokenize source)
      (.create (utf8 "code") sizes.code codeAddress)
      (.create (utf8 "data") sizes.data (dataAddress sizes)) verbose = c) :
    (compile arch symbols sizes source verbose).outcome =
      match c.outcome with
      | .error d => .error (.diagnostic (d.withSource source))
      | .ok t => .ok (ofEmission target symbols source t c.emission.commit) := by
  unfold compile
  rw [ha]
  dsimp only
  rw [hc]
  cases c.outcome <;> rfl

theorem compiled_by (E : Encoder target) (ha : arch.target? = some target)
    (h : (compile arch symbols sizes source verbose).outcome = .ok a)
    (hc : sizes.code < 0x8000000000000000) (hd : sizes.data < 0x8000000000000000) :
    ∃ d t, Compiled E symbols (.create (utf8 "code") sizes.code codeAddress)
        (.create (utf8 "data") sizes.data (dataAddress sizes)) (tokenize source) d t
        (compileTokens target symbols (tokenize source)
          (.create (utf8 "code") sizes.code codeAddress)
          (.create (utf8 "data") sizes.data (dataAddress sizes)) verbose) ∧
      a = ofExpr E symbols sizes source t d.expr := by
  have hcr := Buffer.ready_create (utf8 "code") codeAddress hc
  have hdr := Buffer.ready_create (utf8 "data") (dataAddress sizes) hd
  have he := compileTokens_emitted symbols (tokenize source) verbose E hcr hdr
  obtain ⟨hcode, hdata, -⟩ := compileTokens_emission target symbols (tokenize source)
    (.create (utf8 "code") sizes.code codeAddress)
    (.create (utf8 "data") sizes.data (dataAddress sizes)) verbose
  rw [compile_outcome ha rfl] at h
  generalize hcomp : compileTokens target symbols (tokenize source)
    (.create (utf8 "code") sizes.code codeAddress)
    (.create (utf8 "data") sizes.data (dataAddress sizes)) verbose = c at h he hcode hdata ⊢
  cases ho : c.outcome with
  | error e =>
    rw [ho] at h
    cases h
  | ok t =>
    rw [ho] at h
    cases h
    subst hcomp
    obtain ⟨d, hcd⟩ := compiled_of_ok E hcr hdr ho
    refine ⟨d, t, hcd, ?_⟩
    obtain ⟨bytes, hw, -⟩ := he.written
    obtain ⟨⟨hcb, hca⟩, hdb, hda⟩ := Emission.commit_keeps _
    have hcodeBase : _ = codeAddress := (congrArg Buffer.base hcode).trans hw.base
    have hdataBase : _ = dataAddress sizes := (congrArg Buffer.base hdata).trans he.stored.base
    rw [ofEmission, ofExpr, hcb, hdb, hca, hda, hcodeBase, hdataBase, hcd.code_bytes,
      hcd.data_bytes]
    rfl

theorem compiled (h : (compile arch symbols sizes source verbose).outcome = .ok a)
    (hc : sizes.code < 0x8000000000000000) (hd : sizes.data < 0x8000000000000000) :
    ∃ target, ∃ E : Encoder target, ∃ d t, arch.target? = some target ∧
      Compiled E symbols (.create (utf8 "code") sizes.code codeAddress)
        (.create (utf8 "data") sizes.data (dataAddress sizes)) (tokenize source) d t
        (compileTokens target symbols (tokenize source)
          (.create (utf8 "code") sizes.code codeAddress)
          (.create (utf8 "data") sizes.data (dataAddress sizes)) verbose) ∧
      a = ofExpr E symbols sizes source t d.expr := by
  cases ha : arch.target? with
  | none =>
    rw [compile, ha] at h
    cases h
  | some target =>
    obtain ⟨E⟩ := Arch.exists_encoder ha
    obtain ⟨d, t, hcd, heq⟩ := compiled_by E ha h hc hd
    exact ⟨target, E, d, t, rfl, hcd, heq⟩

end Compile

/-- Data begins behind the code, at a multiple of the region size. -/
theorem dataAddress_aligned {sizes : RegionSizes} (h : sizes.code ≤ 0x40000000) :
    4096 ∣ (dataAddress sizes).toNat ∧
      codeAddress.toNat + sizes.code ≤ (dataAddress sizes).toNat := by
  have hsize : sizes.code ≤ alignedSize sizes.code ∧ 4096 ∣ alignedSize sizes.code ∧
      alignedSize sizes.code < sizes.code + 4096 := by
    unfold alignedSize regionAlignment
    omega
  have hcode : codeAddress.toNat = 0x400000 := rfl
  have hnat : (dataAddress sizes).toNat = 0x400000 + alignedSize sizes.code :=
    toNat_add_ofNat (by rw [hcode]; omega)
  rw [hnat, hcode]
  omega

end Artifact

theorem literals_tokenize {source : Text} {d : Derivation .expression}
    (h : d.lexemes = sentence (tokenize source)) :
    literals d.lexemes = literals ((tokenize source).map Token.lexeme) := by
  rw [Grammar.sentence_tokenize, literals_append, h]
  exact (List.append_nil _).symm

theorem constants_of_literals (ls : List Lexeme) :
    (literals ls).filterMap (fun x => x.lexeme.constant?) = ls.filterMap Lexeme.constant? := by
  unfold literals
  rw [List.filterMap_filterMap]
  apply List.filterMap_congr
  intro l _
  cases l <;> rfl

theorem zeroFree_constant (source : Text) {s : Text}
    (h : .text s ∈ ((tokenize source).map Token.lexeme).filterMap Lexeme.constant?) : 0 ∉ s := by
  obtain ⟨l, hl, hc⟩ := List.mem_filterMap.1 h
  obtain ⟨token, ht, rfl⟩ := List.mem_map.1 hl
  have hz := zeroFree_tokenize source token ht
  cases hlex : token.lexeme with
  | string s' =>
    rw [hlex] at hc hz
    cases hc
    exact hz
  | _ =>
    rw [hlex] at hc
    cases hc

/-- The data of an artifact are the constants of its source, in the order of the source and nothing
else, each at a multiple of eight with less than eight zero bytes before it. The code is that of
operations whose loads are those of the literals of the source; constants are loaded by their
addresses in the data, from where they can be read. The data are behind the code, at a multiple of
4096. -/
theorem Artifact.lays_out_constants {arch : Arch} {symbols : Symbols} {sizes : RegionSizes}
    {source : Text} {verbose : Bool} {a : Artifact}
    (h : (Artifact.compile arch symbols sizes source verbose).outcome = .ok a)
    (hc : sizes.code ≤ 0x40000000) (hd : sizes.data < 0x8000000000000000) :
    ∃ target code data, ∃ ps : List (Nat × Constant), ∃ os : List Operation,
      arch.target? = some target ∧ a.code = some code ∧ a.data = some data ∧
      ps.map Prod.snd = ((tokenize source).map Token.lexeme).filterMap Lexeme.constant? ∧
      (ps.map Prod.fst).Pairwise (· < ·) ∧ (∀ p ∈ ps, 8 ∣ p.1) ∧ Laid 0 ps data ∧
      (os.foldl target.perform
        { buffer := .create (utf8 "code") sizes.code a.codeBase, verbose }).buffer.bytes = code ∧
      Loaded target.roles a.dataBase (literals ((tokenize source).map Token.lexeme)) ps
        (os.filter Operation.isLoad) ∧
      (∀ r : Ram, r.load a.dataBase data.length = data →
        ∀ p ∈ ps, p.2.ReadAt r (a.dataBase + UInt64.ofNat p.1)) ∧
      4096 ∣ a.dataBase.toNat ∧ a.codeBase.toNat + sizes.code ≤ a.dataBase.toNat := by
  obtain ⟨target, E, d, t, ha, hcd, rfl⟩ := Artifact.compiled h (by omega) hd
  have hloads := d.loads_function ⟨target.roles, symbols⟩
  rw [literals_tokenize hcd.lexemes] at hloads
  have hsnd := map_snd_placed 0 (literals ((tokenize source).map Token.lexeme))
  rw [constants_of_literals] at hsnd
  have hlaid := laid_placed ⟨target.roles, symbols⟩ 0
    (literals ((tokenize source).map Token.lexeme))
  rw [← hloads.constants] at hlaid
  have hloaded := loaded_placed ⟨target.roles, symbols⟩ (Artifact.dataAddress sizes) 0
    (literals ((tokenize source).map Token.lexeme))
  rw [← hloads.linked] at hloaded
  refine ⟨target, _, _, _, _, ha, rfl, rfl, hsnd, hlaid.pairwise, dvd_placed 0 _, hlaid, ?_,
    hloaded, ?_, Artifact.dataAddress_aligned hc⟩
  · refine Encoder.bytes_foldl (Buffer.ready_create _ _ (by omega)) ?_ hcd.fits.2 verbose
    intro o ho
    obtain ⟨b, hb, address, hmem⟩ := mem_linked ho
    exact E.takes_function symbols d.known b hb address o hmem
  · intro r hr p hp
    apply Constant.readAt_of_load
    · intro s hs
      apply zeroFree_constant source
      rw [← hsnd, ← hs]
      exact List.mem_map_of_mem hp
    · refine hlaid.load ?_ p hp
      rw [show UInt64.ofNat 0 = 0 from rfl, UInt64.add_zero]
      exact hr

/-- Three texts are laid out for ARM64, the second of them without a gap behind it. -/
theorem Artifact.lays_out_texts :
    ∃ a target code data, ∃ ps : List (Nat × Constant), ∃ os : List Operation,
      (Artifact.compile .arm64 Artifact.placeholders { code := 512, data := 64 }
        (utf8 "\"ab\" + \"cdefghi\" + \"x\"")).outcome = .ok a ∧
      Arch.arm64.target? = some target ∧ a.code = some code ∧ a.data = some data ∧
      ps.map Prod.snd = [.text (utf8 "ab"), .text (utf8 "cdefghi"), .text (utf8 "x")] ∧
      Laid 0 ps data ∧
      data = utf8 "ab" ++ [0, 0, 0, 0, 0, 0] ++ utf8 "cdefghi" ++ [0] ++ utf8 "x" ++ [0] ∧
      Loaded target.roles 0x401000 [.string (utf8 "ab"), .string (utf8 "cdefghi"),
        .string (utf8 "x")] ps (os.filter Operation.isLoad) := by
  generalize hout : (Artifact.compile .arm64 Artifact.placeholders { code := 512, data := 64 }
    (utf8 "\"ab\" + \"cdefghi\" + \"x\"")).outcome = outcome
  have hok : (outcome.toOption.bind Artifact.data) = some (utf8 "ab" ++ [0, 0, 0, 0, 0, 0] ++
      utf8 "cdefghi" ++ [0] ++ utf8 "x" ++ [0]) ∧
      outcome.toOption.map Artifact.dataBase = some 0x401000 := by
    rw [← hout]
    decide +kernel
  cases outcome with
  | error e => cases hok.2
  | ok a =>
    obtain ⟨hdata, hbase⟩ := hok
    replace hbase : a.dataBase = 0x401000 := Option.some.inj hbase
    obtain ⟨target, code, data, ps, os, ht, hcode, hdata', hsnd, -, -, hlaid, -, hloaded, -⟩ :=
      Artifact.lays_out_constants hout (by decide) (by decide)
    cases hdata'.symm.trans hdata
    rw [hbase] at hloaded
    exact ⟨a, target, code, _, ps, os, rfl, ht, hcode, hdata', hsnd, hlaid, rfl, hloaded⟩

end OnePass
