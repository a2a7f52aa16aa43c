import OnePass.Proofs.Artifact.Layout
import OnePass.Proofs.Function.Pages
import OnePass.Proofs.X86.Relocation
import OnePass.Size

/-!
# Functions and artifacts

What is compiled to be run is what is compiled to be written out. Both attempts fail with the same
error, or both succeed with the same type and the same constants; then the code of one is that of
the other with the addresses replaced.
-/

set_option autoImplicit false

namespace OnePass

open Grammar (Derivation derivation_unique sentence)

structure RegionSizes.Moderate (sizes : RegionSizes) : Prop where
  code : Size.least ≤ sizes.code ∧ sizes.code ≤ Size.greatest
  data : Size.least ≤ sizes.data ∧ sizes.data ≤ Size.greatest

def RegionSizes.rooms (sizes : RegionSizes) (unit : Nat) : RegionSizes :=
  { code := Page.room unit sizes.code, data := Page.room unit sizes.data }

namespace RegionSizes.Moderate

variable {sizes : RegionSizes}

theorem pos (h : sizes.Moderate) : 0 < sizes.code ∧ 0 < sizes.data :=
  ⟨Nat.lt_of_lt_of_le (by decide) h.code.1, Nat.lt_of_lt_of_le (by decide) h.data.1⟩

theorem lt (h : sizes.Moderate) :
    sizes.code < 0x8000000000000000 ∧ sizes.data < 0x8000000000000000 :=
  ⟨Nat.lt_of_le_of_lt h.code.2 (by decide), Nat.lt_of_le_of_lt h.data.2 (by decide)⟩

theorem rooms (hm : sizes.Moderate) (h : Host) : sizes.rooms h.pageSize = sizes := by
  rw [RegionSizes.rooms, Page.room_eq hm.pos.1 (h.le_roundedSize hm.pos.1 hm.code.2),
    Page.room_eq hm.pos.2 (h.le_roundedSize hm.pos.2 hm.data.2)]

end RegionSizes.Moderate

namespace Function

section Compile

variable {h : Host} {arch : Arch} {target : Target} {sizes : RegionSizes} {source : Text}
  {code data : Nat} {s : AddressSpace} {verbose : Bool}

def compilation (h : Host) (target : Target) (sizes : RegionSizes) (source : Text)
    (code data : Nat) (verbose : Bool) : Compilation :=
  compileTokens target h.symbols (tokenize source)
    (.create (utf8 "code") sizes.code (h.address code))
    (.create (utf8 "data") sizes.data (h.address data)) verbose

def closePages (s : AddressSpace) (code data : Nat) (e : Emission) : AddressSpace :=
  (s.set data ((s.page data).closed e.data .readOnly)).set code
    ((s.page code).closed e.code .executable)

theorem compileInto_outcome (ha : arch.target? = some target)
    (hcode : AddressSpace.Fresh h s code (Int64.ofNat sizes.code))
    (hdata : AddressSpace.Fresh h s data (Int64.ofNat sizes.data)) :
    (compileInto h arch sizes source code data s verbose).outcome =
      match (compilation h target (sizes.rooms h.pageSize) source code data verbose).outcome with
      | .error d => .error (.diagnostic (d.withSource source))
      | .ok ty =>
        let e :=
          (compilation h target (sizes.rooms h.pageSize) source code data verbose).emission.commit
        .ok ({ pages := some (code, data), codeLength := e.code.offset,
               dataLength := e.data.offset, result := ty, arch, source },
          closePages s code data e) := by
  unfold compileInto closePages compilation
  rw [hcode.page, hdata.page, Page.buffer_fresh, Page.buffer_fresh, ha]
  dsimp only [RegionSizes.rooms]
  generalize compileTokens target h.symbols (tokenize source)
    (.create (utf8 "code") (Page.room h.pageSize sizes.code) (h.address code))
    (.create (utf8 "data") (Page.room h.pageSize sizes.data) (h.address data)) verbose = c
  cases hout : c.outcome <;> rfl

theorem offset_le_of_ok (E : Encoder target) {t : Ty} (hc : sizes.code < 0x8000000000000000)
    (hd : sizes.data < 0x8000000000000000)
    (ho : (compilation h target sizes source code data verbose).outcome = .ok t) :
    let e := (compilation h target sizes source code data verbose).emission.commit
    e.code.offset ≤ sizes.code ∧ e.data.offset ≤ sizes.data := by
  intro e
  obtain ⟨d, hcd⟩ : ∃ d, Compiled E h.symbols
      (.create (utf8 "code") sizes.code (h.address code))
      (.create (utf8 "data") sizes.data (h.address data)) (tokenize source) d t
      (compilation h target sizes source code data verbose) :=
    compiled_of_ok E (Buffer.ready_create _ _ hc) (Buffer.ready_create _ _ hd) ho
  obtain ⟨⟨hcb, -⟩, hdb, -⟩ :=
    (compilation h target sizes source code data verbose).emission.commit_keeps
  rw [← Buffer.length_bytes, ← Buffer.length_bytes, hcb, hdb, hcd.code_bytes, hcd.data_bytes]
  exact ⟨Buffer.fits_create_iff.1 hcd.fits.2, Buffer.fits_create_iff.1 hcd.fits.1⟩

theorem snapshots_closePages {e : Emission} {f : Function}
    (hf : f.pages = some (code, data) ∧ f.codeLength = e.code.offset ∧ f.dataLength = e.data.offset)
    (hne : code ≠ data) (hcode : code < s.pages.size) (hdata : data < s.pages.size)
    (hc : e.code.offset ≤ (s.page code).memory.size)
    (hd : e.data.offset ≤ (s.page data).memory.size) :
    f.code (closePages s code data e) = .ok e.code.bytes ∧
      f.data (closePages s code data e) = .ok e.data.bytes := by
  obtain ⟨hpages, hcl, hdl⟩ := hf
  have hcodePage : (closePages s code data e).page code =
      (s.page code).closed e.code .executable := by
    refine AddressSpace.page_set_self ?_ _
    simpa [AddressSpace.set] using hcode
  have hdataPage : (closePages s code data e).page data =
      (s.page data).closed e.data .readOnly := by
    rw [closePages, AddressSpace.page_set_ne hne.symm, AddressSpace.page_set_self hdata]
  constructor
  · rw [Function.code, snapshot, hpages, hcl]
    dsimp only
    rw [hcodePage, Page.snapshot_closed (by decide) hc]
  · rw [Function.data, snapshot, hpages, hdl]
    dsimp only
    rw [hdataPage, Page.snapshot_closed (by decide) hd]

variable {s₁ s₂ : AddressSpace} (hx : h.platform.canExecute arch = true)
  (hcode : s.allocate h (Int64.ofNat sizes.code) = (.ok code, s₁))
  (hdata : s₁.allocate h (Int64.ofNat sizes.data) = (.ok data, s₂))

include hx hcode hdata

/-- With both pages there, compilation goes on in them. -/
theorem compile_eq : compile h arch sizes source s verbose =
    match (compileInto h arch sizes source code data s₂ verbose).outcome with
    | .error e => (⟨.error e, (compileInto h arch sizes source code data s₂ verbose).trace⟩,
        (s₂.release code).release data)
    | .ok (f, s) => (⟨.ok f, (compileInto h arch sizes source code data s₂ verbose).trace⟩, s) := by
  unfold compile
  rw [hx, hcode]
  dsimp only
  rw [hdata]
  rfl

variable (ha : arch.target? = some target) (hm : sizes.Moderate)

include ha hm

theorem compile_of_error {d : Diagnostic}
    (ho : (compilation h target sizes source code data verbose).outcome = .error d) :
    (compile h arch sizes source s verbose).1.outcome =
      .error (.diagnostic (d.withSource source)) := by
  have hc := (AddressSpace.fresh_of_allocate hcode).allocate hdata
  have hd := AddressSpace.fresh_of_allocate hdata
  rw [compile_eq hx hcode hdata, compileInto_outcome ha hc.1 hd, hm.rooms h, ho]

theorem compile_of_ok (E : Encoder target) {t : Ty}
    (ho : (compilation h target sizes source code data verbose).outcome = .ok t) :
    ∃ f, ∃ d : Derivation .expression, (compile h arch sizes source s verbose).1.outcome = .ok f ∧
      f.result = t ∧ f.pages = some (code, data) ∧ d.lexemes = sentence (tokenize source) ∧
      d.expr.compiles? h.symbols = some t ∧
      f.code (compile h arch sizes source s verbose).2 = .ok (E.encode
        (linked (h.address data) 0 (d.expr.function ⟨target.roles, h.symbols⟩))) ∧
      f.data (compile h arch sizes source s verbose).2 =
        .ok (constants 0 (d.expr.function ⟨target.roles, h.symbols⟩)) := by
  obtain ⟨hc, hne⟩ := (AddressSpace.fresh_of_allocate hcode).allocate hdata
  have hd := AddressSpace.fresh_of_allocate hdata
  obtain ⟨d, hcd⟩ : ∃ d, Compiled E h.symbols
      (.create (utf8 "code") sizes.code (h.address code))
      (.create (utf8 "data") sizes.data (h.address data)) (tokenize source) d t
      (compilation h target sizes source code data verbose) :=
    compiled_of_ok E (Buffer.ready_create _ _ hm.lt.1) (Buffer.ready_create _ _ hm.lt.2) ho
  have hoff := offset_le_of_ok E hm.lt.1 hm.lt.2 ho
  rw [compile_eq hx hcode hdata, compileInto_outcome ha hc hd, hm.rooms h]
  generalize compilation h target sizes source code data verbose = c at ho hcd hoff ⊢
  rw [ho]
  obtain ⟨⟨hcb, -⟩, hdb, -⟩ := c.emission.commit_keeps
  have hcode' : c.emission.commit.code.bytes = E.encode _ := hcb.trans hcd.code_bytes
  have hdata' : c.emission.commit.data.bytes = constants 0 _ := hdb.trans hcd.data_bytes
  have hcfits := Nat.le_trans hoff.1 (h.le_roundedSize hm.pos.1 hm.code.2)
  have hdfits := Nat.le_trans hoff.2 (h.le_roundedSize hm.pos.2 hm.data.2)
  let f : Function :=
    { pages := some (code, data), codeLength := c.emission.commit.code.offset,
      dataLength := c.emission.commit.data.offset, result := t, arch, source }
  have hsnap := snapshots_closePages (s := s₂) (f := f) ⟨rfl, rfl, rfl⟩ hne hc.lt hd.lt
    (by rw [hc.page]; exact hcfits) (by rw [hd.page]; exact hdfits)
  rw [hcode', hdata'] at hsnap
  exact ⟨f, d, rfl, rfl, rfl, hcd.lexemes, hcd.type, hsnap⟩

end Compile

end Function

/-- The code of a source has one template for all routines, which loads the constants of the
source. -/
theorem X86.exists_template {source : Text} {d : Derivation .expression}
    (hl : d.lexemes = sentence (tokenize source)) (s s' : Symbols) :
    ∃ ps, Template s s' 0 (d.expr.function ⟨roles, s⟩) (d.expr.function ⟨roles, s'⟩) ps ∧
      (ps.filterMap Piece.constant?).map Prod.snd =
        ((tokenize source).map Token.lexeme).filterMap Lexeme.constant? := by
  obtain ⟨ps, hps⟩ := Template.exists_of_redirected (d.expr.redirected_function s s' roles)
    (Expr.function_made d.known) 0
  have hstored := hps.stored.trans (d.loads_function _).stored
  rw [literals_tokenize hl, constants_of_literals] at hstored
  exact ⟨ps, hps, hstored⟩

/-- A function is compiled as an artifact is. Either both end with the same error; or the types are
the same and the data are the same bytes, the constants of the source, and there is one template for
both codes. The codes are of one length, and are the same outside of the eight bytes that an address
takes in a move. Such a move loads what a constant's offset is from the data of its own side, or the
address of a routine of its own side, which is then called; every constant of the source is loaded
and every call is made in this way. -/
theorem Function.compile_agrees_with_artifact {h : Host} {symbols : Symbols} {sizes : RegionSizes}
    (source : Text) {s s₁ s₂ : AddressSpace} {codePage dataPage : Nat}
    (hx : h.platform.canExecute .x86 = true) (hm : sizes.Moderate)
    (hh : ∀ r, h.symbols.address r ≠ 0) (hs : ∀ r, symbols.address r ≠ 0)
    (hcode : s.allocate h (Int64.ofNat sizes.code) = (.ok codePage, s₁))
    (hdata : s₁.allocate h (Int64.ofNat sizes.data) = (.ok dataPage, s₂))
    (verbose verbose' : Bool) :
    let run := Function.compile h .x86 sizes source s verbose
    let dump := Artifact.compile .x86 symbols sizes source verbose'
    (∃ e, run.1.outcome = .error e ∧ dump.outcome = .error e) ∨
    ∃ f a code code' data, ∃ ps : List X86.Piece,
      run.1.outcome = .ok f ∧ dump.outcome = .ok a ∧ a.resultType = f.result.name ∧
      f.data run.2 = .ok data ∧ a.data = some data ∧
      f.code run.2 = .ok code ∧ a.code = some code' ∧ code'.length = code.length ∧
      (∀ i, (∀ n ∈ X86.addresses 0 ps, i < n ∨ n + 8 ≤ i) → code'[i]? = code[i]?) ∧
      f.pages = some (codePage, dataPage) ∧
      code = X86.encodeAll (X86.link (h.address dataPage) h.symbols ps) ∧
      code' = X86.encodeAll (X86.link a.dataBase symbols ps) ∧
      Laid 0 (ps.filterMap X86.Piece.constant?) data ∧
      (ps.filterMap X86.Piece.constant?).map Prod.snd =
        ((tokenize source).map Token.lexeme).filterMap Lexeme.constant? ∧
      ∀ r, .fixed (.call r) ∉ ps := by
  intro run dump
  have ha : Arch.x86.target? = some X86.target := rfl
  have hsame : _ = (compilation h X86.target sizes source codePage dataPage verbose).outcome :=
    compileTokens_outcome_relocated hh hs (tokenize source)
      (.create (utf8 "code") sizes.code _ Artifact.codeAddress)
      (.create (utf8 "data") sizes.data _ (Artifact.dataAddress sizes)) verbose verbose'
  have hdump : dump.outcome = _ := Artifact.compile_outcome ha rfl
  rw [hsame] at hdump
  cases ho : (compilation h X86.target sizes source codePage dataPage verbose).outcome with
  | error d =>
    left
    rw [ho] at hdump
    exact ⟨_, compile_of_error hx hcode hdata ha hm ho, hdump⟩
  | ok t =>
    right
    rw [ho] at hdump
    obtain ⟨f, d, hrun, rfl, hpages, hl, ht, hfcode, hfdata⟩ :=
      compile_of_ok hx hcode hdata ha hm X86.encoder ho
    obtain ⟨a, hdump⟩ : ∃ a, dump.outcome = .ok a := ⟨_, hdump⟩
    obtain ⟨d', t, hcd, rfl⟩ := Artifact.compiled_by X86.encoder ha hdump hm.lt.1 hm.lt.2
    -- Both sides have compiled the one expression that the source denotes.
    obtain rfl := derivation_unique (hcd.lexemes.trans hl.symm)
    have htypes : t = f.result :=
      Option.some.inj ((Expr.type?_of_compiles? hcd.type).symm.trans (Expr.type?_of_compiles? ht))
    obtain ⟨ps, hps, hstored⟩ := X86.exists_template hl h.symbols symbols
    have hleft := (X86.encode_eq _).trans
      (congrArg X86.encodeAll (hps.left (h.address dataPage)))
    have hright := (X86.encode_eq _).trans
      (congrArg X86.encodeAll (hps.right (Artifact.dataAddress sizes)))
    refine ⟨f, _, _, _, _, ps, hrun, hdump, congrArg Ty.name htypes, hfdata,
      congrArg some hps.data, hfcode.trans (congrArg Except.ok hleft), congrArg some hright, ?_, ?_,
      hpages, rfl, rfl, hps.laid, hstored, hps.no_call⟩
    · exact X86.codeSize_link ..
    · intro i hi
      apply X86.getElem?_link 0
      rwa [Nat.zero_add]

/-- A remainder of doubles has two constants and a call: on the pages of a host with large pages and
addresses of its own, and to be written out with others. -/
theorem Function.remainder_agrees_with_artifact :
    ∃ h : Host, ∃ run dump f a code code' data, ∃ ps : List X86.Piece,
      h.address 1 = 0x7f55c0de8000 ∧
      h.symbols = { pow := 0x7f55aa001100, fmod := 0x7f55aa002200, concat := 0x401230 } ∧
      Function.compile h .x86 { code := 512, data := 64 } (utf8 "7.5 % 2.0") {} false = run ∧
      Artifact.compile .x86 Artifact.placeholders { code := 512, data := 64 }
        (utf8 "7.5 % 2.0") = dump ∧
      run.1.outcome = .ok f ∧ dump.outcome = .ok a ∧ f.result = .float ∧
      a.resultType = f.result.name ∧ f.data run.2 = .ok data ∧ a.data = some data ∧
      f.code run.2 = .ok code ∧ a.code = some code' ∧ code'.length = code.length ∧
      code = X86.encodeAll (X86.link (h.address 1) h.symbols ps) ∧
      code' = X86.encodeAll (X86.link 0x401000 Artifact.placeholders ps) ∧
      (ps.filterMap X86.Piece.constant?).map Prod.snd =
        [.float ⟨0x401e000000000000⟩, .float ⟨0x4000000000000000⟩] := by
  let h : Host :=
    { linked := true,
      routines := { pow := 0x7f55aa001100, fmod := 0x7f55aa002200, concat := 0x401230 },
      address := fun n => 0x7f55c0dec000 - UInt64.ofNat n * 0x4000,
      pageSize := 16384, pageSize_isPowerOfTwo := ⟨14, rfl⟩, pageSize_le := by decide }
  have hcode : ({} : AddressSpace).allocate h (Int64.ofNat 512) =
      (.ok 0, { pages := #[.fresh 16384 512], requests := 1 }) := by
    decide +kernel
  have hdata : ({ pages := #[.fresh 16384 512], requests := 1 } : AddressSpace).allocate
      h (Int64.ofNat 64) =
      (.ok 1, { pages := #[.fresh 16384 512, .fresh 16384 64], requests := 2 }) := by
    decide +kernel
  have hh : ∀ r, h.symbols.address r ≠ 0 := by
    intro r
    cases r <;> decide
  have hs : ∀ r, Artifact.placeholders.address r ≠ 0 := by
    intro r
    cases r <;> decide
  have hm : RegionSizes.Moderate { code := 512, data := 64 } := ⟨by decide, by decide⟩
  have hmain := Function.compile_agrees_with_artifact (utf8 "7.5 % 2.0") rfl hm hh hs hcode hdata
    false true
  have hresult : (Function.compile h .x86 { code := 512, data := 64 }
        (utf8 "7.5 % 2.0") {} false).1.outcome.toOption.map Function.result = some .float ∧
      (Artifact.compile .x86 Artifact.placeholders { code := 512, data := 64 }
        (utf8 "7.5 % 2.0")).outcome.toOption.map Artifact.dataBase = some 0x401000 := by
    decide +kernel
  have hconstants : ((tokenize (utf8 "7.5 % 2.0")).map Token.lexeme).filterMap Lexeme.constant? =
      [.float ⟨0x401e000000000000⟩, .float ⟨0x4000000000000000⟩] := by
    decide +kernel
  have hpage : h.address 1 = 0x7f55c0de8000 := by decide
  have hsymbols : h.symbols =
      { pow := 0x7f55aa001100, fmod := 0x7f55aa002200, concat := 0x401230 } := rfl
  refine ⟨h, ?_⟩
  generalize hrun : Function.compile h .x86 { code := 512, data := 64 }
    (utf8 "7.5 % 2.0") {} false = run at hmain hresult ⊢
  generalize hdump : Artifact.compile .x86 Artifact.placeholders { code := 512, data := 64 }
    (utf8 "7.5 % 2.0") = dump at hmain hresult ⊢
  obtain ⟨e, he, -⟩ | ⟨f, a, code, code', data, ps, hf, ha, ht, hfd, had, hfc, hac, hlen, -, -,
    hleft, hright, -, hstored, -⟩ := hmain
  · rw [he] at hresult
    cases hresult.1
  · rw [hf, ha] at hresult
    have hbase : a.dataBase = 0x401000 := Option.some.inj hresult.2
    rw [hbase] at hright
    exact ⟨run, dump, f, a, code, code', data, ps, hpage, hsymbols, rfl, rfl, hf, ha,
      Option.some.inj hresult.1, ht, hfd, had, hfc, hac, hlen, hleft, hright,
      hstored.trans hconstants⟩

end OnePass
