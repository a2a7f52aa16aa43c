import OnePass.Command.Dump
import OnePass.Proofs.Artifact.Exchange
import OnePass.Proofs.Artifact.Layout

/-!
# Dumps read back

A dump for exchange carries its source as a text. A string literal may have any bytes in it, but
readers take a text only when it is valid UTF-8. So a dump is read back exactly when its source is
valid.
-/

set_option autoImplicit false

namespace OnePass

namespace Artifact

theorem readText_invalid {s : Text} (h : s.isValidUtf8 = false) : readText (textItem s) = none := by
  simp [readText, textItem, untagged, h]

theorem foldlM_setField_eq_none {fields : List (Field × Cbor.Item)} {p : Field × Cbor.Item}
    (hp : p ∈ fields) (h : ∀ a : Artifact, a.setField p.2 p.1 = none) (a : Artifact) :
    fields.foldlM (fun a p => a.setField p.2 p.1) a = none := by
  induction fields generalizing a with
  | nil => cases hp
  | cons q fields ih =>
    rw [List.foldlM_cons]
    rcases List.mem_cons.1 hp with rfl | hrest
    · rw [h a]
      rfl
    · cases hq : a.setField q.2 q.1 with
      | none => rfl
      | some b => exact ih hrest b

theorem ofItem?_toItem_eq_none {a : Artifact} (h : a.source.isValidUtf8 = false) :
    ofItem? a.toItem = none := by
  have hdistinct : ([] ++ a.fieldItems.map Prod.fst).Nodup := by
    change [Field.arch, .code, .data, .source, .symbols, .codeBase, .dataBase, .resultType].Nodup
    decide
  have hmem : (Field.source, textItem a.source) ∈ a.fieldItems := by simp [fieldItems]
  have hread : readFields {} [] (fieldPairs a.fieldItems) = none := by
    rw [readFields_fieldPairs hdistinct]
    refine foldlM_setField_eq_none hmem (fun b => ?_) {}
    simp [setField, readText_invalid h]
  rw [toItem_eq, ofItem?]
  exact hread

theorem valid_archName (arch : Arch) : Valid arch.name := by
  have hnames : ∀ name ∈ [utf8 "x86_64", utf8 "aarch64", utf8 "unknown"],
      name.isValidUtf8 ∧ name.length < UInt64.size := by decide +kernel
  apply hnames
  cases arch <;> simp [Arch.name]

theorem valid_typeName (t : Ty) : Valid t.name := by
  cases t <;> exact ⟨by decide +kernel, by decide +kernel⟩

theorem symbolTable_exchangeable (symbols : Symbols) :
    (symbolTable symbols).length ≤ 131072 ∧ DistinctNames (symbolTable symbols) ∧
      ∀ s ∈ symbolTable symbols, Valid s.1 := by
  have hnames : ∀ name ∈ [utf8 "pow", utf8 "fmod", utf8 "jitexpr_concat"],
      name.isValidUtf8 ∧ name.length < UInt64.size := by decide +kernel
  refine ⟨(by decide : 3 ≤ 131072), ?_, fun s hs => hnames s.1 (List.mem_map_of_mem hs)⟩
  change [utf8 "pow", utf8 "fmod", utf8 "jitexpr_concat"].Nodup
  decide +kernel

section Compiled

variable {arch : Arch} {symbols : Symbols} {sizes : RegionSizes} {source : Text}
  {verbose : Bool} {a : Artifact}
  (h : (compile arch symbols sizes source verbose).outcome = .ok a)
  (hc : sizes.code < 0x8000000000000000) (hd : sizes.data < 0x8000000000000000)
  (hs : source.length < UInt64.size)

include h hc hd

theorem source_of_compiled : a.source = source := by
  obtain ⟨target, E, d, t, -, -, rfl⟩ := compiled h hc hd
  rfl

include hs

/-- What was compiled fits its regions, so it can be written. -/
theorem measured_of_compiled : a.Measured := by
  obtain ⟨target, E, d, t, -, hcd, rfl⟩ := compiled h hc hd
  have hcode := Buffer.fits_create_iff.1 hcd.fits.2
  have hdata := Buffer.fits_create_iff.1 hcd.fits.1
  have hregion : 0x8000000000000000 < UInt64.size := by decide
  obtain ⟨hlength, -, hnames⟩ := symbolTable_exchangeable symbols
  constructor
  · exact (valid_archName _).2
  · exact (valid_typeName t).2
  · exact hs
  · rintro b ⟨⟩
    exact Nat.lt_of_le_of_lt hcode (Nat.lt_trans hc hregion)
  · rintro b ⟨⟩
    exact Nat.lt_of_le_of_lt hdata (Nat.lt_trans hd hregion)
  · rintro l ⟨⟩
    exact ⟨hlength, fun s hs => (hnames s hs).2⟩

/-- What was compiled can be exchanged if its source is a valid text. -/
theorem exchangeable_of_compiled (hv : source.isValidUtf8) : a.Exchangeable := by
  have hm := measured_of_compiled h hc hd hs
  obtain ⟨target, E, d, t, -, -, rfl⟩ := compiled h hc hd
  refine ⟨valid_archName _, valid_typeName t, ⟨hv, hs⟩, hm.code, hm.data, ?_⟩
  rintro l ⟨⟩
  exact symbolTable_exchangeable symbols

end Compiled

end Artifact

namespace Dump

def written : Output × Ending → Bytes
  | (_, .save _ content _) => content
  | (output, _) => output.on (· = .result)

theorem written_compile {c : Context} {s : Settings} {format out source : Text} {a : Artifact}
    (h : (Artifact.compile s.arch (c.host.artifactSymbols s.arch) s.sizes source
      s.verbose).outcome = .ok a)
    (hf : Format.ofName? format (out ≠ []) = some .exchange) :
    written (compile c s format out source) = a.encode := by
  unfold compile
  simp only [h, hf, Format.write, deliver]
  by_cases hout : out = []
  · rw [if_pos hout]
    simp [written, Output.on, Output.traces, Output.results]
  · rw [if_neg hout]
    rfl

end Dump

/-- A dump for exchange is read back, with all fields the same, exactly when its source is valid
UTF-8. Sources that are not valid can be compiled too, since string literals may have any bytes in
them; readers refuse their dumps. -/
theorem Dump.reads_back_valid_sources {c : Context} {s : Settings} {format out source : Text}
    {a : Artifact}
    (h : (Artifact.compile s.arch (c.host.artifactSymbols s.arch) s.sizes source
      s.verbose).outcome = .ok a)
    (hf : Dump.Format.ofName? format (out ≠ []) = some .exchange)
    (hc : s.sizes.code < 0x8000000000000000) (hd : s.sizes.data < 0x8000000000000000)
    (hs : source.length < UInt64.size) :
    let bytes := Dump.written (Dump.compile c s format out source)
    (source.isValidUtf8 → ∃ b, Artifact.decode bytes = some b ∧ b.Same a) ∧
      (¬source.isValidUtf8 → Artifact.decode bytes = none) := by
  intro bytes
  have hbytes : bytes = a.encode := Dump.written_compile h hf
  have hread := (Artifact.measured_of_compiled h hc hd hs).decode_encode
  rw [hbytes, hread]
  constructor
  · intro hv
    exact ⟨a.ordered, Artifact.ofItem?_toItem (Artifact.exchangeable_of_compiled h hc hd hs hv),
      a.same_ordered⟩
  · intro hv
    apply Artifact.ofItem?_toItem_eq_none
    rw [Artifact.source_of_compiled h hc hd]
    exact Bool.eq_false_iff.2 hv

/-- A dump of a literal with an umlaut is read back from a file. -/
theorem Dump.umlaut_is_read_back :
    ∃ a b, (Artifact.compile .arm64 Artifact.placeholders { code := 512, data := 64 }
        (utf8 "'ä' + 'b'") false).outcome = .ok a ∧
      Artifact.decode (Dump.written (Dump.compile
        { host := { linked := false }, settings := {} }
        { arch := .arm64, sizes := { code := 512, data := 64 } } [] (utf8 "out")
        (utf8 "'ä' + 'b'"))) = some b ∧ b.Same a := by
  generalize hout : (Artifact.compile .arm64 Artifact.placeholders { code := 512, data := 64 }
    (utf8 "'ä' + 'b'") false).outcome = outcome
  have hok : outcome.toOption.isSome := by
    rw [← hout]
    decide +kernel
  cases outcome with
  | error e => cases hok
  | ok a =>
    have hformat : Dump.Format.ofName? [] (utf8 "out" ≠ []) = some .exchange := by decide +kernel
    have hread := (Dump.reads_back_valid_sources
      (c := { host := { linked := false }, settings := {} })
      (s := { arch := .arm64, sizes := { code := 512, data := 64 } }) hout hformat (by decide)
      (by decide) (by decide +kernel)).1 (by decide +kernel)
    obtain ⟨b, hb, hsame⟩ := hread
    exact ⟨a, b, rfl, hb, hsame⟩

/-- A literal with a byte that is no UTF-8 can be compiled, but its dump cannot be read back. -/
theorem Dump.stray_byte_is_not_read_back :
    ∃ a, (Artifact.compile .x86 Artifact.placeholders {} [0x27, 0xff, 0x27] false).outcome = .ok a ∧
      Artifact.decode (Dump.written (Dump.compile
        { host := { linked := false }, settings := {} } {} (utf8 "cbor") []
        [0x27, 0xff, 0x27])) = none := by
  generalize hout : (Artifact.compile .x86 Artifact.placeholders {}
    [0x27, 0xff, 0x27] false).outcome = outcome
  have hok : outcome.toOption.isSome := by
    rw [← hout]
    decide +kernel
  cases outcome with
  | error e => cases hok
  | ok a =>
    refine ⟨a, rfl, ?_⟩
    rw [Dump.written_compile (c := { host := { linked := false }, settings := {} }) (s := {}) hout
        rfl,
      (Artifact.measured_of_compiled hout (by decide) (by decide) (by decide)).decode_encode]
    apply Artifact.ofItem?_toItem_eq_none
    rw [Artifact.source_of_compiled hout (by decide) (by decide)]
    decide

end OnePass
