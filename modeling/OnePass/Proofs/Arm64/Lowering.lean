import OnePass.Arm64.Target
import OnePass.Proofs.Arm64.Encoding
import OnePass.Proofs.Arm64.Rendering

/-!
# The instructions of ARM64 operations

Every operation over names that name registers is a list of instructions, and performing the
operation writes their words and lists them in the trace. Branches are written before their distance
is known and aimed later, so the list that was written changes in one place when a branch lands.
-/

set_option autoImplicit false

namespace OnePass.Arm64

def encodeAll (is : List Resolved) : Bytes := is.flatMap fun i => littleEndian 4 i.word.toNat

@[simp] theorem encodeAll_nil : encodeAll [] = [] := rfl

@[simp] theorem encodeAll_cons (i : Resolved) (is : List Resolved) :
    encodeAll (i :: is) = littleEndian 4 i.word.toNat ++ encodeAll is := rfl

@[simp] theorem encodeAll_append (is js : List Resolved) :
    encodeAll (is ++ js) = encodeAll is ++ encodeAll js := List.flatMap_append

@[simp] theorem length_encodeAll (is : List Resolved) : (encodeAll is).length = 4 * is.length := by
  induction is with
  | nil => rfl
  | cons i is ih => simp [ih]; omega

theorem words_encodeAll (is : List Resolved) : words (encodeAll is) = some (is.map Instr.word) := by
  induction is with
  | nil => rfl
  | cons i is ih =>
    have hread := halfWord_of_bytes i.word
    simp only [littleEndian] at hread
    simp only [encodeAll_cons, littleEndian, List.cons_append, List.nil_append, words, ih,
      Option.map_some, hread, List.map_cons]

def wideCode (r : Gp) (v : UInt64) : List Resolved :=
  .movz r (halfword v 0) 0 ::
    ([1, 2, 3].filter fun half => halfword v half ≠ 0).map fun half =>
      .movk r (halfword v half) half

def moduloCode (d s : Gp) : List Resolved :=
  [.int .sdiv ⟨16⟩ d s, .msub d ⟨16⟩ s d, .cmpZero s, .csel d ⟨31⟩ d equal]

def roundCode (d s : Gp) : List Resolved :=
  [.cbz s 7, .tbzBit0 s 2, .int .mul ⟨17⟩ ⟨17⟩ d, .int .mul d d d, .asrOne s s, .b (-5)]

def powerCode (d s : Gp) : List Resolved :=
  [.movz ⟨17⟩ 1 0, .cmpZero s, .bCond less 7] ++ roundCode d s ++ [.movz ⟨17⟩ 0 0, .mov d ⟨17⟩]

def single (i : Named) : Option (List Resolved) := i.resolve?.map fun r => [r]

def lower? : Operation → Option (List Resolved)
  | .prologue => some [.stpFrame, .movFpSp]
  | .epilogue => some [.movSpFp, .ldpFrame, .ret]
  | .loadImmediate reg value => (Gp.ofName? reg).map (wideCode · value)
  | .loadFloat freg address =>
    (Fp.ofName? freg).map fun x => wideCode ⟨16⟩ address ++ [.ldrD x ⟨16⟩]
  | .push reg => single (.strPre reg)
  | .pop reg => single (.ldrPost reg)
  | .pushFloat freg => single (.strPreD freg)
  | .popFloat freg => single (.ldrPostD freg)
  | .move dst src => if dst = src then some [] else single (.mov dst src)
  | .moveFloat dst src => if dst = src then some [] else single (.fmov dst src)
  | .call address => some (wideCode ⟨16⟩ address ++ [.blr ⟨16⟩])
  | .intToFloat freg reg => single (.scvtf freg reg)
  | .floatToInt reg freg => single (.fcvtzs reg freg)
  | .intBinary op dst src =>
    match op with
    | .add => single (.int .add dst dst src)
    | .sub => single (.int .sub dst dst src)
    | .mul => single (.int .mul dst dst src)
    | .div => single (.int .sdiv dst dst src)
    | .mod => do return moduloCode (← Gp.ofName? dst) (← Gp.ofName? src)
    | .pow =>
      if dst = x17 ∨ src = x17 ∨ dst = src then none
      else do return powerCode (← Gp.ofName? dst) (← Gp.ofName? src)
    | .unknown => none
  | .floatBinary op dst src =>
    match op with
    | .add => single (.float .fadd dst dst src)
    | .sub => single (.float .fsub dst dst src)
    | .mul => single (.float .fmul dst dst src)
    | .div => single (.float .fdiv dst dst src)
    | _ => none
  | .intNegate reg => single (.neg reg reg)
  | .floatNegate freg => single (.fneg freg freg)

def lowerAll (os : List Operation) : List Resolved := os.flatMap fun o => (lower? o).getD []

@[simp] theorem lowerAll_append (as bs : List Operation) :
    lowerAll (as ++ bs) = lowerAll as ++ lowerAll bs := List.flatMap_append

variable {start : Buffer} {added : Bytes} {w : Writer}

theorem rejections_eq_nil {i : Named} {r : Resolved} (h : i.resolve? = some r) :
    i.operands.filterMap Operand.rejection? = [] := by
  cases i <;>
    simp_all [Instr.resolve?, Instr.operands, Operand.rejection?, List.filterMap_cons,
      Option.bind_eq_some_iff] <;>
    grind

theorem emit_written (h : Written start added w) {i : Named} {r : Resolved}
    (hr : i.resolve? = some r) :
    Written start (added ++ encodeAll [r]) (emit w i) := by
  unfold emit
  rw [rejections_eq_nil hr]
  simp only [hr, Option.map_some, Option.getD_some]
  exact ((h.note _).append _).of_eq (by simp)

abbrev Assembled :=
  OnePass.Assembled (fun i : Resolved => littleEndian 4 i.word.toNat) Instr.ShownAs

variable {origin : Writer} {is : List Resolved}

theorem emit_code (h : Assembled start added origin is w) {i : Named} (r : Resolved)
    (hr : i.resolve? = some r) : Assembled start added origin (is ++ [r]) (emit w i) := by
  have hw := emit_written h.written hr
  refine h.snoc (e := .arm64 w.offset i) (hw.of_eq (by simp)) ?_ fun hv _ =>
    ⟨?_, i.text, rfl, Instr.shownAs_text hr⟩
  · rw [emit, rejections_eq_nil hr]
    exact (Writer.verbose_append _ _).trans (w.verbose_note _)
  · rw [emit, rejections_eq_nil hr]
    exact (Writer.instructions_append _ _).trans
      (Writer.instructions_note_instruction hv h.written.misuse rfl)

theorem emitAll_code (h : Assembled start added origin is w) (ns : List Named)
    (rs : List Resolved) (hr : ns.map Instr.resolve? = rs.map some) :
    Assembled start added origin (is ++ rs) (emitAll w ns) := by
  induction ns generalizing is w rs with
  | nil =>
    obtain rfl : rs = [] := by simpa using hr.symm
    exact h.of_eq (List.append_nil _).symm
  | cons i ns ih =>
    cases rs with
    | nil => simp at hr
    | cons r rs =>
      obtain ⟨hi, his⟩ := List.cons.inj hr
      exact (ih (emit_code h r hi) rs his).of_eq (by simp)

theorem resolve_wideMoves {reg : Text} {r : Gp} (hr : Gp.ofName? reg = some r) (v : UInt64) :
    (wideMoves reg v).map Instr.resolve? = (wideCode r v).map some := by
  simp [wideMoves, wideCode, Instr.resolve?, hr, Function.comp_def]

structure PlaceAt (start : Buffer) (n : Nat) (place : Int64) : Prop where
  bounded : ∃ k ≤ start.capacity, place = Int64.ofNat k - 4
  fits : start.Fits (n + 4) → place = Int64.ofNat (start.offset + n)

theorem branchForward_written (h : Written start added w) {i : Named} {r : Resolved}
    (hr : i.resolve? = some r) :
    Written start (added ++ encodeAll [r]) (branchForward w i).2 ∧
      PlaceAt start added.length (branchForward w i).1 := by
  have hw : Written start (added ++ encodeAll [r]) (branchForward w i).2 := emit_written h hr
  refine ⟨hw, ⟨_, hw.offset_le, rfl⟩, fun hf => ?_⟩
  have hoff := hw.offset (by simpa [Buffer.Fits] using hf)
  change Int64.ofNat (branchForward w i).2.offset - 4 = _
  rw [hoff]
  simp only [List.length_append, length_encodeAll, List.length_singleton, Int64.ofNat_add]
  grind

theorem readWord_bounded (h : Written start added w) {n : Nat} {place : Int64}
    (hp : PlaceAt start n place) : ∃ word, w.buffer.readWord place = .ok word := by
  obtain ⟨k, hk, rfl⟩ := hp.bounded
  have hlt := h.capacity_lt
  have hint : (Int64.ofNat k - 4).toInt = (k : Int) - 4 := by
    have h4 : (4 : Int64).toInt = 4 := rfl
    rw [Int64.toInt_sub, Int64.toInt_ofNat_of_lt (by omega), h4,
      Int.bmod_eq_of_le (by omega) (by omega)]
  by_cases ho : w.buffer.wordOutside (Int64.ofNat k - 4)
  · exact ⟨0, by simp [Buffer.readWord, ho]⟩
  · have hpos : (0 : Int) ≤ (k : Int) - 4 := by
      simp only [Buffer.wordOutside, Bool.or_eq_true, decide_eq_true_eq, not_or,
        Int64.lt_iff_toInt_lt, hint] at ho
      exact Int.not_lt.mp ho.1
    have hcap : ¬w.buffer.capacity < (Int64.ofNat k - 4).toNatClampNeg + 4 := by
      rw [Int64.toNatClampNeg, hint, h.capacity]
      omega
    exact ⟨_, by rw [Buffer.readWord, if_neg ho, if_neg hcap]⟩

theorem instructionDistance_ofNat {n : Nat} (h : n ≤ 1000) :
    instructionDistance (Int64.ofNat (4 * n)) = Int32.ofNat n := by
  have h4 : (4 : Int32).toInt = 4 := rfl
  apply Int32.toInt_inj.1
  rw [instructionDistance, Int64.toInt32_ofNat', Int32.toInt_div,
    Int32.toInt_ofNat_of_lt (by omega),
    Int32.toInt_ofNat_of_lt (by omega), h4, Int.tdiv_eq_ediv_of_nonneg (by omega),
    Int.bmod_eq_of_le (by omega) (by omega)]
  omega

theorem instructionDistance_neg {n : Nat} (h : n ≤ 1000) :
    (instructionDistance (-Int64.ofNat (4 * n))).toInt = -(n : Int) := by
  have h4 : (4 : Int32).toInt = 4 := rfl
  have hneg : (-Int32.ofNat (4 * n)).toInt = -(4 * n : Nat) := by
    rw [Int32.toInt_neg, Int32.toInt_ofNat_of_lt (by omega),
      Int.bmod_eq_of_le (by omega) (by omega)]
  have h32 : (-Int64.ofNat (4 * n)).toInt32 = -Int32.ofNat (4 * n) := by simp
  rw [instructionDistance, h32, Int32.toInt_div, hneg, h4, Int.neg_tdiv,
    Int.tdiv_eq_ediv_of_nonneg (by omega), Int.bmod_eq_of_le (by omega) (by omega)]
  omega

/-- The bits of a distance that a field takes. -/
theorem and_mask_eq (d : Int32) {mask : UInt32} {width : Nat} (hw : width = 14 ∨ width = 19)
    (hm : mask.toNat = Nat.pow 2 width - 1) :
    d.toUInt32 &&& mask = distanceField d.toInt width := by
  have hd : d.toInt = if d.toUInt32.toNat < 2147483648 then (d.toUInt32.toNat : Int)
      else d.toUInt32.toNat - 4294967296 := toInt_toInt32 d.toUInt32
  apply UInt32.toNat_inj.1
  rw [UInt32.toNat_and, hm, toNat_distanceField (by omega), Nat.pow_eq,
    Nat.and_two_pow_sub_one_eq_mod, hd]
  rcases hw with rfl | rfl <;> split <;> omega

namespace Instr

def Unaimed : Resolved → Prop
  | .bCond condition distance => condition < 16 ∧ distance = 0
  | .cbz _ distance => distance = 0
  | .tbzBit0 _ distance => distance = 0
  | _ => False

def aimed (n : Nat) : Resolved → Resolved
  | .bCond condition _ => .bCond condition n
  | .cbz t _ => .cbz t n
  | .tbzBit0 t _ => .tbzBit0 t n
  | i => i

def withDistance (d : Int) : Resolved → Resolved
  | .b _ => .b d
  | .bCond condition _ => .bCond condition d
  | .cbz t _ => .cbz t d
  | .tbzBit0 t _ => .tbzBit0 t d
  | i => i

theorem withDistance_natCast {i : Resolved} (h : i.Unaimed) (n : Nat) :
    i.withDistance n = i.aimed n := by
  cases i with
  | bCond | cbz | tbzBit0 => rfl
  | _ => exact h.elim

/-- Setting the distance of a branch gives the word of the branch over this distance. -/
theorem setDistance_withDistance {i : Resolved} (h : i.Unaimed) (d : Int32) :
    setDistance? i.word d = some (i.withDistance d.toInt).word := by
  have h19 : d.toUInt32 &&& 0x7ffff = distanceField d.toInt 19 := and_mask_eq d (.inr rfl) rfl
  have h14 : d.toUInt32 &&& 0x3fff = distanceField d.toInt 14 := and_mask_eq d (.inl rfl) rfl
  have hz : ∀ v : UInt32, v ||| field 0 5 = v := fun v => UInt32.or_zero
  have h0 : ∀ k, distanceField 0 k = 0 := fun k => by simp [distanceField]
  cases i with
  | bCond c d =>
    obtain ⟨hc, rfl⟩ := h
    have hw := word_format (i := .bCond c 0) ⟨hc, by decide⟩
    simp only [format] at hw
    rw [setDistance?, if_neg (ne_of_mask hw (by decide)), if_pos (.inl hw), h19]
    simp only [word, withDistance, h0, hz]
  | cbz t d =>
    cases h
    have hw := word_format (i := .cbz t 0) (show Reachable 0 19 by decide)
    simp only [format] at hw
    have hk : word (.cbz t 0) &&& 0x7f000000 = 0x34000000 := by
      rw [show (0x7f000000 : UInt32) = 0xff000000 &&& 0x7f000000 by decide, ← UInt32.and_assoc, hw]
      decide
    rw [setDistance?, if_neg (ne_of_mask hw (by decide)), if_pos (.inr hk), h19]
    simp only [word, withDistance, h0, hz]
  | tbzBit0 t d =>
    cases h
    have hw := word_format (i := .tbzBit0 t 0) (show Reachable 0 14 by decide)
    simp only [format] at hw
    have hk : word (.tbzBit0 t 0) &&& 0x7f000000 = 0x36000000 := by
      rw [show (0x7f000000 : UInt32) = 0xfff80000 &&& 0x7f000000 by decide, ← UInt32.and_assoc, hw]
      decide
    have hno : ¬(word (.tbzBit0 t 0) &&& 0xff000010 = 0x54000000 ∨
        word (.tbzBit0 t 0) &&& 0x7f000000 = 0x34000000) := by
      rintro (h | h)
      · exact ne_of_mask hw (by decide) h
      · exact ne_of_mask hw (by decide) h
    rw [setDistance?, if_neg (ne_of_mask hw (by decide)), if_neg hno, if_pos hk, h14]
    simp only [word, withDistance, h0, hz]
  | _ => exact absurd h id

theorem setDistance_aimed {i : Resolved} (h : i.Unaimed) {n : Nat} (hn : n ≤ 1000) :
    setDistance? i.word (Int32.ofNat n) = some (i.aimed n).word := by
  rw [setDistance_withDistance h, Int32.toInt_ofNat_of_lt (by omega), withDistance_natCast h]

end Instr

theorem branchForward_code (h : Assembled start added origin is w) {i : Named} (r : Resolved)
    (hr : i.resolve? = some r) :
    Assembled start added origin (is ++ [r]) (branchForward w i).2 ∧
      PlaceAt start (added.length + 4 * is.length) (branchForward w i).1 := by
  have hw : Written start (added ++ encodeAll is) w := h.written
  exact ⟨emit_code h r hr, by simpa using (branchForward_written hw hr).2⟩

theorem trace_land (w : Writer) (place : Int64) : (land w place).trace = w.trace := by
  unfold land
  cases w.buffer.readWord place with
  | error m => exact w.trace_use _
  | ok word =>
    dsimp only
    split <;> exact Writer.trace_use _ _

theorem verbose_land (w : Writer) (place : Int64) : (land w place).verbose = w.verbose := by
  unfold land
  cases w.buffer.readWord place with
  | error m => exact w.verbose_use _
  | ok word =>
    dsimp only
    split <;> exact Writer.verbose_use _ _

/-- A branch is listed without its distance. -/
theorem shownAs_aimed {i : Resolved} (hi : i.Unaimed) (n : Nat) {t : Text} (h : i.ShownAs t) :
    (i.aimed n).ShownAs t := by
  cases i with
  | bCond | cbz | tbzBit0 => exact h
  | _ => exact hi.elim

theorem land_written (h : Written start (added ++ encodeAll is) w) (k : Nat) {i : Resolved}
    (hk : is[k]? = some i) (hi : i.Unaimed) {n : Nat} {place : Int64}
    (hp : PlaceAt start (added.length + 4 * n) place) (hn : n = k) (hs : is.length ≤ 100) :
    Written start (added ++ encodeAll (is.set k (i.aimed (is.length - k)))) (land w place) := by
  subst hn
  obtain ⟨hlt, he⟩ := List.getElem?_eq_some_iff.1 hk
  have hsplit : is = is.take n ++ i :: is.drop (n + 1) := by
    rw [← he, ← List.drop_eq_getElem_cons hlt, List.take_append_drop]
  have h' : Written start ((added ++ encodeAll (is.take n)) ++ littleEndian 4 i.word.toNat ++
      encodeAll (is.drop (n + 1))) w := by
    rw [hsplit] at h
    simpa using h
  rw [List.set_eq_take_append_cons_drop, if_pos hlt]
  suffices Written start ((added ++ encodeAll (is.take n)) ++
      littleEndian 4 (i.aimed (is.length - n)).word.toNat ++ encodeAll (is.drop (n + 1)))
      (land w place) by simpa using this
  by_cases hf : start.Fits (added ++ encodeAll is).length
  · have hf' := hf
    rw [show (added ++ encodeAll is).length = ((added ++ encodeAll (is.take n)) ++
      littleEndian 4 i.word.toNat ++ encodeAll (is.drop (n + 1))).length by
        simp; omega] at hf'
    have hplace : place = Int64.ofNat (start.offset + (added ++ encodeAll (is.take n)).length) := by
      rw [hp.fits (by simp only [Buffer.Fits, List.length_append, length_encodeAll] at hf ⊢; omega)]
      simp [Nat.min_eq_left (Nat.le_of_lt hlt)]
    have hread := h'.readWord (by simp) hf' hplace
    rw [halfWord_of_bytes] at hread
    have hdist : Int64.ofNat w.offset - place = Int64.ofNat (4 * (is.length - n)) := by
      have hlen : start.offset + (added ++ encodeAll is).length =
          start.offset + (added ++ encodeAll (is.take n)).length + 4 * (is.length - n) := by
        simp
        omega
      rw [h.offset hf, hplace, hlen, Int64.ofNat_add]
      grind
    have hset := Instr.setDistance_aimed hi (n := is.length - n) (by omega)
    rw [land, hread]
    simp only [hdist, instructionDistance_ofNat (show is.length - n ≤ 1000 by omega), hset]
    exact h'.patchWord (by simp) _ fun _ => hplace
  · obtain ⟨needed, hfail⟩ := h.overflow hf
    obtain ⟨word, hword⟩ := readWord_bounded h hp
    rw [land, hword]
    have hlen : (added ++ encodeAll is).length ≤ ((added ++ encodeAll (is.take n)) ++
        littleEndian 4 (i.aimed (is.length - n)).word.toNat ++
          encodeAll (is.drop (n + 1))).length := by
      simp
      omega
    simp only
    split
    · exact h.use_of_overflow hf _ hlen _ (by simp [Buffer.patchWord, h.committed, hfail])
    · exact h.use_of_overflow hf _ hlen _ (by simp [Buffer.fail, hfail])

theorem land_code (h : Assembled start added origin is w) (k : Nat) {i : Resolved}
    (hk : is[k]? = some i) (hi : i.Unaimed) {n : Nat} {place : Int64}
    (hp : PlaceAt start (added.length + 4 * n) place) (hn : n = k) (hs : is.length ≤ 100) :
    Assembled start added origin (is.set k (i.aimed (is.length - k))) (land w place) :=
  h.set hk (land_written h.written k hk hi hp hn hs) (verbose_land w place) (trace_land w place)
    (by simp) fun _ => shownAs_aimed hi _

theorem branchBack_eq (before after : List Resolved)
    (h : Written start (added ++ encodeAll (before ++ after)) w) {target : Int64}
    (ht : start.Fits (added ++ encodeAll before).length →
      target = Int64.ofNat (start.offset + (added ++ encodeAll before).length))
    (ha : after.length ≤ 1000) (hf : start.Fits (added ++ encodeAll (before ++ after)).length) :
    branchBack w target = emit w (.b (-(after.length : Int))) := by
  have hdist : target - Int64.ofNat w.offset = -Int64.ofNat (4 * after.length) := by
    rw [ht (by simp only [Buffer.Fits, List.length_append, length_encodeAll] at hf ⊢; omega),
      h.offset hf]
    have hlen : start.offset + (added ++ encodeAll (before ++ after)).length =
        start.offset + (added ++ encodeAll before).length + 4 * after.length := by
      simp
      omega
    simp only [hlen, Int64.ofNat_add]
    grind
  rw [branchBack, hdist, instructionDistance_neg ha]

theorem branchBack_code (before after : List Resolved)
    (h : Assembled start added origin (before ++ after) w) {target : Int64}
    (ht : start.Fits (added ++ encodeAll before).length →
      target = Int64.ofNat (start.offset + (added ++ encodeAll before).length))
    (ha : after.length ≤ 1000) :
    Assembled start added origin (before ++ after ++ [Instr.b (-(after.length : Int))])
      (branchBack w target) := by
  have hw : Written start (added ++ encodeAll (before ++ after)) w := h.written
  by_cases hf : start.Fits (added ++ encodeAll (before ++ after)).length
  · rw [branchBack_eq before after hw ht ha hf]
    exact emit_code h _ rfl
  · have hb := emit_written hw
      (i := .b (instructionDistance (target - Int64.ofNat w.offset)).toInt) rfl
    have hlong : ∀ i, ¬start.Fits (added ++ encodeAll (before ++ after ++ [i])).length := by
      intro i
      simp only [Buffer.Fits, List.length_append, length_encodeAll] at hf ⊢
      omega
    refine .of_overflow (hb.of_not_fits ?_ (hlong _)) (emit_code h _ rfl).verbose (hlong _)
    simpa using hlong (.b (instructionDistance (target - Int64.ofNat w.offset)).toInt)

theorem power_assembled (h : Written start added w) {dst src : Text} {d s : Gp} (h1 : dst ≠ x17)
    (h2 : src ≠ x17) (h3 : dst ≠ src) (hd : Gp.ofName? dst = some d)
    (hs : Gp.ofName? src = some s) :
    Assembled start added w (powerCode d s) (power w dst src) := by
  have hx : Gp.ofName? x17 = some ⟨17⟩ := by decide
  rw [power, if_neg (by simp [*])]
  have h0 : Assembled start added w [] w := .begin h
  have h1 := emitAll_code h0 [.movz x17 1 0, .cmpZero src] [.movz ⟨17⟩ 1 0, .cmpZero s]
    (by simp [Instr.resolve?, hx, hs])
  obtain ⟨h2, toNegative⟩ := branchForward_code h1 (i := .bCond less 0) (.bCond less 0) rfl
  obtain ⟨h3, toDone⟩ := branchForward_code h2 (i := .cbz src 0) (.cbz s 0)
    (by simp [Instr.resolve?, hs])
  obtain ⟨h4, toSkip⟩ := branchForward_code h3 (i := .tbzBit0 src 0) (.tbzBit0 s 0)
    (by simp [Instr.resolve?, hs])
  have h5 := emit_code h4 (i := .int .mul x17 x17 dst) (.int .mul ⟨17⟩ ⟨17⟩ d)
    (by simp [Instr.resolve?, hx, hd])
  have h6 := land_code h5 4 rfl rfl toSkip rfl (by simp)
  have h7 := emitAll_code h6 [.int .mul dst dst dst, .asrOne src src]
    [.int .mul d d d, .asrOne s s] (by simp [Instr.resolve?, hd, hs])
  have h8 := branchBack_code [.movz ⟨17⟩ 1 0, .cmpZero s, .bCond less 0]
    [.cbz s 0, .tbzBit0 s 2, .int .mul ⟨17⟩ ⟨17⟩ d, .int .mul d d d, .asrOne s s] h7
    (fun hf => congrArg _ (h2.written.offset hf)) (by simp)
  have h9 := emit_code (land_code h8 2 rfl ⟨by decide, rfl⟩ toNegative rfl (by simp))
    (i := .movz x17 0 0) (.movz ⟨17⟩ 0 0) (by simp [Instr.resolve?, hx])
  have h10 := emit_code (land_code h9 3 rfl rfl toDone rfl (by simp)) (i := .mov dst x17)
    (.mov d ⟨17⟩) (by simp [Instr.resolve?, hx, hd])
  exact h10

theorem emit_single (h : Written start added w) {i : Named} (hr : single i = some is) :
    Assembled start added w is (emit w i) := by
  obtain ⟨r, hi, rfl⟩ := Option.map_eq_some_iff.1 hr
  exact emit_code (.begin h) r hi

theorem emitAll_assembled (h : Written start added w) {ns : List Named}
    (hr : ns.map Instr.resolve? = is.map some) :
    Assembled start added w is (emitAll w ns) :=
  emitAll_code (.begin h) ns is hr

theorem intBinary_assembled (h : Written start added w) {op : Operator} {dst src : Text}
    (ho : lower? (.intBinary op dst src) = some is) :
    Assembled start added w is (intBinary w op dst src) := by
  cases op with
  | add | sub | mul | div => exact emit_single h ho
  | mod =>
    simp only [lower?, Option.bind_eq_bind, Option.pure_def, Option.bind_eq_some_iff,
      Option.some.injEq] at ho
    obtain ⟨d, hd, s, hs, rfl⟩ := ho
    have h16 : Gp.ofName? roles.scratch = some ⟨16⟩ := by decide
    have hz : Gp.ofName? (utf8 "xzr") = some ⟨31⟩ := by decide
    exact emitAll_assembled h (by simp [Instr.resolve?, moduloCode, hd, hs, h16, hz])
  | pow =>
    simp only [lower?] at ho
    split at ho
    case isTrue => cases ho
    case isFalse hn =>
      simp only [not_or] at hn
      simp only [Option.bind_eq_bind, Option.pure_def, Option.bind_eq_some_iff,
        Option.some.injEq] at ho
      obtain ⟨d, hd, s, hs, rfl⟩ := ho
      exact power_assembled h hn.1 hn.2.1 hn.2.2 hd hs
  | unknown => cases ho

theorem perform_assembled (h : Written start added w) {o : Operation} (ho : lower? o = some is) :
    Assembled start added w is (perform w o) := by
  have h16 : Gp.ofName? roles.scratch = some ⟨16⟩ := by decide
  cases o with
  | prologue | epilogue =>
    cases ho
    exact emitAll_assembled h (by simp [Instr.resolve?])
  | loadImmediate reg v =>
    obtain ⟨r, hr, rfl⟩ := Option.map_eq_some_iff.1 ho
    exact emitAll_assembled h (resolve_wideMoves hr v)
  | loadFloat freg a =>
    obtain ⟨r, hr, rfl⟩ := Option.map_eq_some_iff.1 ho
    exact emitAll_assembled h (by simp [resolve_wideMoves h16, Instr.resolve?, hr, h16])
  | call a =>
    cases ho
    exact emitAll_assembled h (by simp [resolve_wideMoves h16, Instr.resolve?, h16])
  | push reg | pop reg | pushFloat reg | popFloat reg | intNegate reg | floatNegate reg =>
    exact emit_single h ho
  | intToFloat dst src | floatToInt dst src => exact emit_single h ho
  | move dst src | moveFloat dst src =>
    simp only [lower?] at ho
    rw [perform]
    split at ho
    case isTrue he =>
      cases ho
      rw [if_pos he]
      exact .begin h
    case isFalse he =>
      rw [if_neg he]
      exact emit_single h ho
  | intBinary op dst src => exact intBinary_assembled h ho
  | floatBinary op dst src =>
    cases op with
    | add | sub | mul | div => exact emit_single h ho
    | mod | pow | unknown => cases ho

theorem perform_written (h : Written start added w) {o : Operation} (ho : lower? o = some is) :
    Written start (added ++ encodeAll is) (perform w o) :=
  (perform_assembled h ho).written

end OnePass.Arm64
