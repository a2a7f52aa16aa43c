import OnePass.Proofs.X86.Rendering
import OnePass.X86.Target

/-!
# The instructions of x86-64 operations

Every operation over names that name registers is a fixed list of instructions; where it branches,
the distances are the lengths of the code they pass over. Performing an operation writes the bytes
of that list and lists its instructions in the trace.
-/

set_option autoImplicit false

namespace OnePass.X86

theorem Gp.ofName?_inj {a b : Text} {r : Gp} (ha : Gp.ofName? a = some r)
    (hb : Gp.ofName? b = some r) : a = b :=
  (name_of_ofName? ha).symm.trans (name_of_ofName? hb)

theorem Xmm.ofName?_inj {a b : Text} {x : Xmm} (ha : Xmm.ofName? a = some x)
    (hb : Xmm.ofName? b = some x) : a = b :=
  (name_of_ofName? ha).symm.trans (name_of_ofName? hb)

def encodeAll (is : List Resolved) : Bytes := is.flatMap Instr.encode

@[simp] theorem encodeAll_nil : encodeAll [] = [] := rfl

@[simp] theorem encodeAll_cons (i : Resolved) (is : List Resolved) :
    encodeAll (i :: is) = i.encode ++ encodeAll is := rfl

@[simp] theorem encodeAll_append (is js : List Resolved) :
    encodeAll (is ++ js) = encodeAll is ++ encodeAll js := List.flatMap_append

def codeSize (is : List Resolved) : Nat := (encodeAll is).length

@[simp] theorem codeSize_nil : codeSize [] = 0 := rfl

@[simp] theorem codeSize_cons (i : Resolved) (is : List Resolved) :
    codeSize (i :: is) = i.encode.length + codeSize is := by
  simp [codeSize]

@[simp] theorem codeSize_append (is js : List Resolved) :
    codeSize (is ++ js) = codeSize is + codeSize js := by
  simp [codeSize]

theorem encode_jump (opcode : UInt8) (d : Int8) :
    (Instr.jump opcode d : Resolved).encode = [opcode, d.toUInt8] := rfl

theorem toUInt8_zero : (0 : Int8).toUInt8 = 0 := rfl

theorem length_encode_jump (opcode : UInt8) (d : Int8) :
    (Instr.jump opcode d : Resolved).encode.length = 2 := rfl

def forward (opcode : UInt8) (block : List Resolved) : Resolved :=
  .jump opcode (Int8.ofNat (codeSize block))

def backward (opcode : UInt8) (block : List Resolved) : Resolved :=
  .jump opcode (-Int8.ofNat (codeSize block + 2))

def saturationCode (r : Gp) (x : Xmm) : List Resolved :=
  let scratch : Xmm := ⟨15⟩
  let nan := [Instr.xor32 r]
  let greatest := [.not r, forward jmp nan]
  let compare := [.xorpd scratch scratch, .ucomisd x scratch, forward jbe (greatest ++ nan)]
  let again := .ucomisd x x :: forward jp (compare ++ greatest) :: (compare ++ greatest ++ nan)
  .cvttsd2si r x :: .cmpImm r 1 :: forward jno again :: again

def divisionCode (op : Operator) (src : Gp) : List Resolved :=
  let zero := [Instr.xor32 .rax]
  let minusOne := [if op = .div then .neg .rax else .xor32 .rax, forward jmp zero]
  let divide := [.cqo, .idiv src] ++ (if op = .mod then [.mov .rax .rdx] else []) ++
    [forward jmp (minusOne ++ zero)]
  let nonzero := .cmpImm src (-1) :: forward jz divide :: (divide ++ minusOne)
  .test src src :: forward jz nonzero :: (nonzero ++ zero)

def bitCode (dst src : Gp) : List Resolved :=
  [.testImm src 1, forward jz [.imul .rdx dst], .imul .rdx dst, .imul dst dst, .sarOne src]

def roundCode (dst src : Gp) : List Resolved :=
  .test src src ::
    .jump jz (Int8.ofNat (codeSize (bitCode dst src) + (2 + codeSize [.xor32 .rdx]))) ::
    bitCode dst src

def powerCode (dst src : Gp) : List Resolved :=
  let loop := roundCode dst src ++ [backward jmp (roundCode dst src)]
  .movEdx 1 :: .test src src :: forward js loop :: (loop ++ [.xor32 .rdx, .mov dst .rdx])

def single (i : Named) : Option (List Resolved) := i.resolve?.map fun r => [r]

def lower? : Operation → Option (List Resolved)
  | .prologue => some [.pushRbp, .movRbpRsp]
  | .epilogue => some [.movRspRbp, .popRbp, .ret]
  | .loadImmediate reg value => single (.movImm reg value)
  | .loadFloat freg address =>
    (Xmm.ofName? freg).map fun x => [.movImm .r11 address, .loadSd x .r11]
  | .push reg => (Gp.ofName? reg).map fun r => [.subRsp stackSlotSize, .storeRsp r]
  | .pop reg => (Gp.ofName? reg).map fun r => [.loadRsp r, .addRsp stackSlotSize]
  | .pushFloat freg => (Xmm.ofName? freg).map fun x => [.subRsp stackSlotSize, .storeRspSd x]
  | .popFloat freg => (Xmm.ofName? freg).map fun x => [.loadRspSd x, .addRsp stackSlotSize]
  | .move dst src =>
    if dst = src then some []
    else single (.mov dst src)
  | .moveFloat dst src =>
    if dst = src then some []
    else single (.sse .movsd dst src)
  | .call address => some [.movImm .r11 address, .call .r11]
  | .intToFloat freg reg => single (.cvtsi2sd freg reg)
  | .floatToInt reg freg => do return saturationCode (← Gp.ofName? reg) (← Xmm.ofName? freg)
  | .intBinary op dst src =>
    match op with
    | .add => single (.add dst src)
    | .sub => single (.sub dst src)
    | .mul => single (.imul dst src)
    | .div =>
      if dst ≠ rax ∨ src = rax ∨ src = rdx then none else (Gp.ofName? src).map (divisionCode .div)
    | .mod =>
      if dst ≠ rax ∨ src = rax ∨ src = rdx then none else (Gp.ofName? src).map (divisionCode .mod)
    | .pow =>
      if dst = rdx ∨ src = rdx ∨ dst = src then none
      else do return powerCode (← Gp.ofName? dst) (← Gp.ofName? src)
    | .unknown => none
  | .floatBinary op dst src =>
    match op with
    | .add => single (.sse .addsd dst src)
    | .sub => single (.sse .subsd dst src)
    | .mul => single (.sse .mulsd dst src)
    | .div => single (.sse .divsd dst src)
    | _ => none
  | .intNegate reg => single (.neg reg)
  | .floatNegate freg => (Xmm.ofName? freg).map fun x =>
    [.movImm .r11 0x8000000000000000, .movq ⟨15⟩ .r11, .xorpd x ⟨15⟩]

def lowerAll (os : List Operation) : List Resolved := os.flatMap fun o => (lower? o).getD []

@[simp] theorem lowerAll_append (as bs : List Operation) :
    lowerAll (as ++ bs) = lowerAll as ++ lowerAll bs := List.flatMap_append

theorem length_rexPiece_le (wide : Bool) (reg rm : UInt8) :
    (rexPiece wide reg rm).flatten.length ≤ 1 := by
  unfold rexPiece
  split <;> simp

theorem Instr.length_encode_le (i : Resolved) : i.encode.length ≤ 10 := by
  have hrex := length_rexPiece_le
  simp only [List.length_flatten] at hrex
  cases i <;>
    simp [Instr.encode, Instr.pieces, regReg, length_littleEndian] <;>
    grind

theorem codeSize_le (is : List Resolved) : codeSize is ≤ 10 * is.length := by
  induction is with
  | nil => simp
  | cons i is ih =>
    have := i.length_encode_le
    simp only [codeSize_cons, List.length_cons]
    omega

variable {start : Buffer} {added : Bytes} {w : Writer}

theorem rejections_eq_nil {i : Named} {r : Resolved} (h : i.resolve? = some r) :
    i.operands.filterMap Operand.rejection? = [] := by
  cases i <;>
    simp_all [Instr.resolve?, Instr.operands, Operand.rejection?, List.filterMap_cons,
      Option.bind_eq_some_iff] <;>
    grind

theorem emit_written (h : Written start added w) {i : Named} {r : Resolved}
    (hr : i.resolve? = some r) (hb : longBase? i = none) :
    Written start (added ++ r.encode) (emit w i) := by
  unfold emit
  rw [rejections_eq_nil hr, hb]
  simp only [hr, Option.map_some, Option.getD_some]
  exact (h.note _).appendAll r.pieces

def ordinary (i : Named) : Bool := (longBase? i).isNone && !i.isJump

abbrev Assembled := OnePass.Assembled Instr.encode Instr.ShownAs

variable {origin : Writer} {is : List Resolved}

theorem instructions_noteLine (hv : w.verbose = true) (hm : w.misuse = none) (l : Line) :
    (noteLine w l).trace.instructions = w.trace.instructions ++ [Event.x86 w.offset l] :=
  Writer.instructions_note_instruction hv hm rfl

theorem emit_code (h : Assembled start added origin is w) {i : Named} {r : Resolved}
    (hr : i.resolve? = some r) (ho : ordinary i = true) :
    Assembled start added origin (is ++ [r]) (emit w i) := by
  obtain ⟨hb, hj⟩ : longBase? i = none ∧ i.isJump = false := by simpa [ordinary] using ho
  have hw := emit_written h.written hr hb
  refine h.snoc (e := .x86 w.offset (.plain i)) (by simpa using hw) ?_ fun hv _ =>
    ⟨?_, i.text, rfl, Instr.shownAs_text hr hj⟩
  · rw [emit, rejections_eq_nil hr, hb]
    exact (Writer.verbose_appendAll _ _).trans (w.verbose_note _)
  · rw [emit, rejections_eq_nil hr, hb]
    exact (Writer.instructions_appendAll _ _).trans
      (instructions_noteLine hv h.written.misuse (.plain i))

theorem emitAll_code (h : Assembled start added origin is w) (ns : List Named)
    (rs : List Resolved) (hr : ns.map Instr.resolve? = rs.map some)
    (ho : ns.all ordinary = true) :
    Assembled start added origin (is ++ rs) (emitAll w ns) := by
  induction ns generalizing is w rs with
  | nil =>
    obtain rfl : rs = [] := by simpa using hr.symm
    exact h.of_eq (List.append_nil _).symm
  | cons i ns ih =>
    cases rs with
    | nil => simp at hr
    | cons r rs =>
      obtain ⟨hi, his⟩ := List.cons.inj hr
      obtain ⟨ho, hos⟩ := Bool.and_eq_true_iff.1 ho
      have hrest := ih (emit_code h hi ho) rs his hos
      exact hrest.of_eq (by simp)

def PlaceAt (start : Buffer) (n : Nat) (place : Int64) : Prop :=
  start.Fits (n + 1) → place = Int64.ofNat (start.offset + n)

theorem jumpForward_written (h : Written start added w) (opcode : UInt8) (label : Text) :
    Written start (added ++ [opcode, 0]) (jumpForward w opcode label).2 ∧
      PlaceAt start (added.length + 1) (jumpForward w opcode label).1 := by
  have hw : Written start (added ++ [opcode, 0]) (jumpForward w opcode label).2 :=
    (h.note _).append [opcode, 0]
  refine ⟨hw, fun hf => ?_⟩
  have hoff := hw.offset (by simpa [Buffer.Fits] using hf)
  change Int64.ofNat (jumpForward w opcode label).2.offset - 1 = _
  rw [hoff]
  simp only [List.length_append, List.length_cons, List.length_nil, Int64.ofNat_add]
  grind

theorem fitsByte_iff (d : Int64) : fitsByte d = true ↔ -128 ≤ d.toInt ∧ d.toInt ≤ 127 := by
  have h1 : (-128 : Int64).toInt = -128 := rfl
  have h2 : (127 : Int64).toInt = 127 := rfl
  simp only [fitsByte, Int64.le_iff_toInt_le, h1, h2, Bool.and_eq_true, decide_eq_true_eq]

theorem fitsByte_ofNat {n : Nat} (h : n ≤ 127) : fitsByte (Int64.ofNat n) = true := by
  rw [fitsByte_iff, Int64.toInt_ofNat_of_lt (by omega)]
  omega

/-- Pointing a jump to the current offset writes how much stands behind it. -/
theorem land_written {A B : Bytes} {opcode d : UInt8}
    (h : Written start (A ++ opcode :: d :: B) w) {place : Int64}
    (hp : PlaceAt start (A.length + 1) place) (hB : B.length ≤ 127) :
    Written start (A ++ opcode :: UInt8.ofNat B.length :: B) (land w place) := by
  have h' : Written start ((A ++ [opcode]) ++ d :: B) w := by simpa using h
  by_cases hf : start.Fits (A ++ opcode :: d :: B).length
  · have hplace : place = Int64.ofNat (start.offset + (A ++ [opcode]).length) := by
      rw [hp (by simp only [Buffer.Fits, List.length_append, List.length_cons] at hf ⊢; omega)]
      simp
    have hdist : Int64.ofNat w.offset - (place + 1) = Int64.ofNat B.length := by
      rw [h.offset hf, hplace]
      simp only [List.length_append, List.length_cons, List.length_nil, Int64.ofNat_add]
      grind
    have hpatch := h'.patchByte (UInt8.ofNat B.length) fun _ => hplace
    rw [land, hdist, if_pos (fitsByte_ofNat hB)]
    simpa using hpatch
  · have hlen : (A ++ opcode :: UInt8.ofNat B.length :: B).length =
        (A ++ opcode :: d :: B).length := by simp
    obtain ⟨needed, hs⟩ := h.overflow hf
    rw [land]
    split
    · exact h.use_of_overflow hf _ (Nat.le_of_eq hlen.symm) _
        (by simp [Buffer.patchByte, h.committed, hs])
    · exact h.use_of_overflow hf _ (Nat.le_of_eq hlen.symm) _ (by simp [Buffer.fail, hs])

theorem jumpBack_eq {A B : Bytes} (h : Written start (A ++ B) w) (opcode : UInt8) (label : Text)
    {target : Int64} (ht : start.Fits A.length → target = Int64.ofNat (start.offset + A.length))
    (hB : B.length + 2 ≤ 128) (hf : start.Fits (A ++ B).length) :
    jumpBack w opcode label target = (noteLine w (.backward label (-(B.length + 2 : Nat)))).append
      [opcode, (-Int8.ofNat (B.length + 2)).toUInt8] := by
  have hdist : target - (Int64.ofNat w.offset + 2) = -Int64.ofNat (B.length + 2) := by
    rw [ht (by simp only [Buffer.Fits, List.length_append] at hf ⊢; omega), h.offset hf]
    simp only [List.length_append, Int64.ofNat_add]
    grind
  have hint : (-Int64.ofNat (B.length + 2)).toInt = -(B.length + 2 : Nat) := by
    rw [Int64.toInt_neg, Int64.toInt_ofNat_of_lt (by omega),
      Int.bmod_eq_of_le (by omega) (by omega)]
  have hfit : fitsByte (-Int64.ofNat (B.length + 2)) = true := by
    rw [fitsByte_iff, hint]
    omega
  have hbyte : (-Int64.ofNat (B.length + 2)).toInt8 = -Int8.ofNat (B.length + 2) := by simp
  rw [jumpBack, hdist, if_pos hfit, hbyte, hint]

theorem jumpBack_written {A B : Bytes} (h : Written start (A ++ B) w) (opcode : UInt8)
    (label : Text) {target : Int64}
    (ht : start.Fits A.length → target = Int64.ofNat (start.offset + A.length))
    (hB : B.length + 2 ≤ 128) :
    Written start (A ++ B ++ [opcode, (-Int8.ofNat (B.length + 2)).toUInt8])
      (jumpBack w opcode label target) := by
  by_cases hf : start.Fits (A ++ B).length
  · rw [jumpBack_eq h opcode label ht hB hf]
    exact (h.note _).append _
  · have hmore : (A ++ B).length ≤
        (A ++ B ++ [opcode, (-Int8.ofNat (B.length + 2)).toUInt8]).length := by simp
    obtain ⟨needed, hs⟩ := h.overflow hf
    rw [jumpBack]
    split
    · exact ((h.note _).append _).of_overflow
        (by simp only [Buffer.Fits, List.length_append] at hf ⊢; omega) _ (by simp)
    · exact h.use_of_overflow hf _ hmore _ (by simp [Buffer.fail, hs])

theorem jumpForward_code (h : Assembled start added origin is w) (opcode : UInt8) (label : Text)
    (hl : Labels opcode label) :
    Assembled start added origin (is ++ [Instr.jump opcode 0]) (jumpForward w opcode label).2 ∧
      PlaceAt start (added.length + codeSize is + 1) (jumpForward w opcode label).1 := by
  have hw : Written start (added ++ encodeAll is) w := h.written
  obtain ⟨hw', hp⟩ := jumpForward_written hw opcode label
  refine ⟨h.snoc (e := .x86 w.offset (.forward label)) ?_ ?_ fun hv _ =>
    ⟨?_, _, rfl, label, hl, ?_⟩, ?_⟩
  · exact hw'.of_eq (by simp [encodeAll, encode_jump, toUInt8_zero])
  · exact (Writer.verbose_append _ _).trans (w.verbose_note _)
  · exact (Writer.instructions_append _ _).trans (instructions_noteLine hv hw.misuse _)
  · exact (List.append_assoc label (utf8 " ") (utf8 "<fixup>")).symm
  · simpa [codeSize, Nat.add_assoc] using hp

theorem trace_land (w : Writer) (place : Int64) : (land w place).trace = w.trace := by
  unfold land
  dsimp only
  split <;> exact Writer.trace_use _ _

theorem verbose_land (w : Writer) (place : Int64) : (land w place).verbose = w.verbose := by
  unfold land
  dsimp only
  split <;> exact Writer.verbose_use _ _

theorem verbose_jumpBack (w : Writer) (opcode : UInt8) (label : Text) (target : Int64) :
    (jumpBack w opcode label target).verbose = w.verbose := by
  unfold jumpBack
  dsimp only
  split
  · exact (Writer.verbose_append _ _).trans (w.verbose_note _)
  · exact w.verbose_use _

theorem toInt_ofNat_nonneg {n : Nat} (h : n ≤ 127) : 0 ≤ (Int8.ofNat n).toInt := by
  rw [Int8.toInt_ofNat_of_lt (by omega)]
  exact Int.natCast_nonneg n

/-- Pointing the jump that is instruction `k` to the end of the code so far. -/
theorem land_code (h : Assembled start added origin is w) (k : Nat) {opcode : UInt8}
    (hk : is[k]? = some (.jump opcode 0)) {n : Nat} {place : Int64}
    (hp : PlaceAt start (added.length + n + 1) place) (hn : codeSize (is.take k) = n)
    (ha : (is.drop (k + 1)).length ≤ 12) :
    Assembled start added origin
      (is.set k (.jump opcode (Int8.ofNat (codeSize (is.drop (k + 1)))))) (land w place) := by
  obtain ⟨hlt, hi⟩ := List.getElem?_eq_some_iff.1 hk
  have hsplit : is = is.take k ++ .jump opcode 0 :: is.drop (k + 1) := by
    rw [← hi, ← List.drop_eq_getElem_cons hlt, List.take_append_drop]
  have hw : Written start
      ((added ++ encodeAll (is.take k)) ++ opcode :: 0 :: encodeAll (is.drop (k + 1))) w := by
    have hw := h.written
    rw [hsplit] at hw
    exact hw.of_eq (by simp [encodeAll, encode_jump, toUInt8_zero])
  have hsize := codeSize_le (is.drop (k + 1))
  have hl := land_written hw (by simpa [codeSize, ← hn, Nat.add_assoc] using hp)
    (by simp only [codeSize] at hsize; omega)
  -- The line of the jump was noted without a distance, so it still shows the jump that landed.
  refine h.set hk ?_ (verbose_land w place) (trace_land w place) rfl fun t =>
    Instr.shownAs_forward (by decide) (toInt_ofNat_nonneg (by omega))
  rw [List.set_eq_take_append_cons_drop, if_pos hlt]
  exact hl.of_eq (by simp [encodeAll, encode_jump, codeSize])

theorem toInt_neg_ofNat {n : Nat} (h : n ≤ 127) : (-Int8.ofNat n).toInt = -(n : Int) := by
  rw [Int8.toInt_neg, Int8.toInt_ofNat_of_lt (by omega), Int.bmod_eq_of_le (by omega) (by omega)]

theorem jumpBack_code (before after : List Resolved)
    (h : Assembled start added origin (before ++ after) w) (opcode : UInt8) (label : Text)
    (hl : Labels opcode label) {target : Int64}
    (ht : start.Fits (added ++ encodeAll before).length →
      target = Int64.ofNat (start.offset + (added ++ encodeAll before).length))
    (ha : after.length ≤ 12) :
    Assembled start added origin (before ++ after ++ [backward opcode after])
      (jumpBack w opcode label target) := by
  have hw : Written start ((added ++ encodeAll before) ++ encodeAll after) w :=
    h.written.of_eq (by simp [encodeAll])
  have hsize : codeSize after ≤ 120 := Nat.le_trans (codeSize_le after) (by omega)
  have hback := toInt_neg_ofNat (n := codeSize after + 2) (by omega)
  have hlen : (encodeAll after).length + 2 ≤ 128 := by
    unfold codeSize at hsize
    omega
  refine h.snoc (e := .x86 w.offset (.backward label (-(codeSize after + 2 : Nat)))) ?_
    (verbose_jumpBack ..) fun hv hf => ⟨?_, _, rfl, label, hl, ?_⟩
  · exact (jumpBack_written hw opcode label ht hlen).of_eq
      (by simp [encodeAll, backward, encode_jump, codeSize])
  · rw [jumpBack_eq hw opcode label ht hlen (by
      simp only [Buffer.Fits, encodeAll, List.flatMap_append, List.length_append] at hf ⊢
      omega)]
    exact (Writer.instructions_append _ _).trans (instructions_noteLine hv hw.misuse _)
  · rw [hback, if_neg (by omega)]
    rfl

theorem floatToInt_assembled (h : Written start added w) {reg freg : Text} {r : Gp} {x : Xmm}
    (hr : Gp.ofName? reg = some r) (hx : Xmm.ofName? freg = some x) :
    Assembled start added w (saturationCode r x) (floatToInt w reg freg) := by
  have hs : Xmm.ofName? xmm15 = some ⟨15⟩ := by decide
  have h0 : Assembled start added w [] w := .begin h
  have h1 := emitAll_code h0 [.cvttsd2si reg freg, .cmpImm reg 1]
    [.cvttsd2si r x, .cmpImm r 1] (by simp [Instr.resolve?, hr, hx]) rfl
  obtain ⟨h2, toDone⟩ := jumpForward_code h1 jno (utf8 "jno done") (by decide)
  have h3 := emit_code h2 (i := .ucomisd freg freg) (r := .ucomisd x x)
    (by simp [Instr.resolve?, hx]) rfl
  obtain ⟨h4, toNaN⟩ := jumpForward_code h3 jp (utf8 "jp nan") (by decide)
  have h5 := emitAll_code h4 [.xorpd xmm15 xmm15, .ucomisd freg xmm15]
    [.xorpd ⟨15⟩ ⟨15⟩, .ucomisd x ⟨15⟩] (by simp [Instr.resolve?, hs, hx])
    rfl
  obtain ⟨h6, toDone'⟩ := jumpForward_code h5 jbe (utf8 "jbe done") (by decide)
  have h7 := emit_code h6 (i := .not reg) (r := .not r) (by simp [Instr.resolve?, hr]) rfl
  obtain ⟨h8, toDone''⟩ := jumpForward_code h7 jmp (utf8 "jmp done") (by decide)
  have h9 := land_code h8 4 rfl toNaN rfl (by simp)
  have h10 := emit_code h9 (i := .xor32 reg) (r := .xor32 r) (by simp [Instr.resolve?, hr]) rfl
  have h11 := land_code h10 2 rfl toDone rfl (by simp)
  have h12 := land_code h11 7 rfl toDone' (by simp [length_encode_jump]) (by simp)
  have h13 := land_code h12 9 rfl toDone'' (by simp [length_encode_jump]) (by simp)
  exact h13.of_eq (by simp [saturationCode, forward, length_encode_jump])

theorem floatToInt_written (h : Written start added w) {reg freg : Text} {r : Gp} {x : Xmm}
    (hr : Gp.ofName? reg = some r) (hx : Xmm.ofName? freg = some x) :
    Written start (added ++ encodeAll (saturationCode r x)) (floatToInt w reg freg) :=
  (floatToInt_assembled h hr hx).written

theorem divide_assembled (h : Written start added w) {op : Operator} (hop : op = .div ∨ op = .mod)
    {dst src : Text} {r : Gp} (hd : dst = rax) (h1 : src ≠ rax) (h2 : src ≠ rdx)
    (hr : Gp.ofName? src = some r) :
    Assembled start added w (divisionCode op r) (divide w op dst src) := by
  have ha : Gp.ofName? rax = some .rax := by decide
  have hx : Gp.ofName? rdx = some .rdx := by decide
  have h0 : Assembled start added w [] w := .begin h
  have h1 := emit_code h0 (i := .test src src) (r := .test r r) (by simp [Instr.resolve?, hr]) rfl
  obtain ⟨h2, toZero⟩ := jumpForward_code h1 jz (utf8 "jz zero") (by decide)
  have h3 := emit_code h2 (i := .cmpImm src (-1)) (r := .cmpImm r (-1))
    (by simp [Instr.resolve?, hr]) rfl
  obtain ⟨h4, toMinusOne⟩ := jumpForward_code h3 jz (utf8 "jz negone") (by decide)
  have h5 := emitAll_code h4 [.cqo, .idiv src] [.cqo, .idiv r]
    (by simp [Instr.resolve?, hr]) rfl
  have hzero : (Instr.xor32 rax : Named).resolve? = some (.xor32 .rax) := by
    simp [Instr.resolve?, ha]
  rw [divide, if_neg (by simp [*])]
  rcases hop with rfl | rfl
  · obtain ⟨h7, toDone⟩ := jumpForward_code h5 jmp (utf8 "jmp done") (by decide)
    have h8 := land_code h7 3 rfl toMinusOne rfl (by simp)
    have h9 := emit_code h8 (i := .neg rax) (r := .neg .rax) (by simp [Instr.resolve?, ha]) rfl
    obtain ⟨h10, toDone'⟩ := jumpForward_code h9 jmp (utf8 "jmp done") (by decide)
    have h11 := emit_code (land_code h10 1 rfl toZero rfl (by simp)) hzero rfl
    have h12 := land_code h11 6 rfl toDone (by simp [length_encode_jump]) (by simp)
    have h13 := land_code h12 8 rfl toDone' (by simp [length_encode_jump]) (by simp)
    exact h13.of_eq (by simp [divisionCode, forward, length_encode_jump])
  · have h6 := emit_code h5 (i := .mov rax rdx) (r := .mov .rax .rdx)
      (by simp [Instr.resolve?, ha, hx]) rfl
    obtain ⟨h7, toDone⟩ := jumpForward_code h6 jmp (utf8 "jmp done") (by decide)
    have h8 := emit_code (land_code h7 3 rfl toMinusOne rfl (by simp)) hzero rfl
    obtain ⟨h10, toDone'⟩ := jumpForward_code h8 jmp (utf8 "jmp done") (by decide)
    have h11 := emit_code (land_code h10 1 rfl toZero rfl (by simp)) hzero rfl
    have h12 := land_code h11 7 rfl toDone (by simp [length_encode_jump]) (by simp)
    have h13 := land_code h12 9 rfl toDone' (by simp [length_encode_jump]) (by simp)
    exact h13.of_eq (by simp [divisionCode, forward, length_encode_jump])

theorem power_assembled (h : Written start added w) {dst src : Text} {d r : Gp} (h1 : dst ≠ rdx)
    (h2 : src ≠ rdx) (h3 : dst ≠ src) (hd : Gp.ofName? dst = some d)
    (hr : Gp.ofName? src = some r) :
    Assembled start added w (powerCode d r) (power w dst src) := by
  have hx : Gp.ofName? rdx = some .rdx := by decide
  rw [power, if_neg (by simp [*])]
  have h0 : Assembled start added w [] w := .begin h
  have h1 := emitAll_code h0 [.movEdx 1, .test src src] [.movEdx 1, .test r r]
    (by simp [Instr.resolve?, hr]) rfl
  obtain ⟨h2, toNegative⟩ := jumpForward_code h1 js (utf8 "js neg") (by decide)
  have h3 := emit_code h2 (i := .test src src) (r := .test r r) (by simp [Instr.resolve?, hr]) rfl
  obtain ⟨h4, toDone⟩ := jumpForward_code h3 jz (utf8 "jz done") (by decide)
  have h5 := emit_code h4 (i := .testImm src 1) (r := .testImm r 1)
    (by simp [Instr.resolve?, hr]) rfl
  obtain ⟨h6, toSkip⟩ := jumpForward_code h5 jz (utf8 "jz skip") (by decide)
  have h7 := emit_code h6 (i := .imul rdx dst) (r := .imul .rdx d)
    (by simp [Instr.resolve?, hx, hd]) rfl
  have h8 := land_code h7 6 rfl toSkip rfl (by simp)
  have h9 := emitAll_code h8 [.imul dst dst, .sarOne src] [.imul d d, .sarOne r]
    (by simp [Instr.resolve?, hd, hr]) rfl
  have h10 := jumpBack_code [.movEdx 1, .test r r, .jump js 0]
    [.test r r, .jump jz 0, .testImm r 1, forward jz [.imul .rdx d], .imul .rdx d, .imul d d,
      .sarOne r] h9 jmp (utf8 "jmp loop") (by decide)
    (fun hf => congrArg _ (h2.written.offset hf)) (by simp)
  have h11 := emit_code (land_code h10 2 rfl toNegative rfl (by simp)) (i := .xor32 rdx)
    (r := .xor32 .rdx) (by simp [Instr.resolve?, hx]) rfl
  have h12 := emit_code (land_code h11 4 rfl toDone (by simp [length_encode_jump]) (by simp))
    (i := .mov dst rdx) (r := .mov d .rdx) (by simp [Instr.resolve?, hx, hd]) rfl
  exact h12.of_eq (by
    simp [powerCode, roundCode, bitCode, forward, backward, length_encode_jump, Int8.add_assoc])

theorem emit_single (h : Written start added w) {i : Named} (hr : single i = some is)
    (ho : ordinary i = true) : Assembled start added w is (emit w i) := by
  obtain ⟨r, hi, rfl⟩ := Option.map_eq_some_iff.1 hr
  exact emit_code (.begin h) hi ho

theorem emitAll_assembled (h : Written start added w) {ns : List Named}
    (hr : ns.map Instr.resolve? = is.map some) (ho : ns.all ordinary = true) :
    Assembled start added w is (emitAll w ns) :=
  emitAll_code (.begin h) ns is hr ho

theorem intBinary_assembled (h : Written start added w) {op : Operator} {dst src : Text}
    (ho : lower? (.intBinary op dst src) = some is) :
    Assembled start added w is (intBinary w op dst src) := by
  cases op with
  | add | sub | mul =>
    exact emit_single h ho rfl
  | div | mod =>
    simp only [lower?] at ho
    split at ho
    case isTrue => cases ho
    case isFalse hn =>
      simp only [ne_eq, not_or, Decidable.not_not] at hn
      obtain ⟨r, hr, rfl⟩ := Option.map_eq_some_iff.1 ho
      exact divide_assembled h (by simp) hn.1 hn.2.1 hn.2.2 hr
  | pow =>
    simp only [lower?] at ho
    split at ho
    case isTrue => cases ho
    case isFalse hn =>
      simp only [not_or] at hn
      simp only [Option.bind_eq_bind, Option.pure_def, Option.bind_eq_some_iff,
        Option.some.injEq] at ho
      obtain ⟨d, hd, s, hs, rfl⟩ := ho
      exact power_assembled h hn.1 hn.2.1 hn.2.2 hd hs
  | unknown => cases ho

/-- Performing an operation writes and lists its instructions. -/
theorem perform_assembled (h : Written start added w) {o : Operation} (ho : lower? o = some is) :
    Assembled start added w is (perform w o) := by
  have h11 : Gp.ofName? roles.scratch = some .r11 := by decide
  have h15 : Xmm.ofName? xmm15 = some ⟨15⟩ := by decide
  cases o with
  | prologue | epilogue =>
    cases ho
    exact emitAll_assembled h (by simp [Instr.resolve?]) rfl
  | loadImmediate reg v | intNegate reg =>
    exact emit_single h ho rfl
  | push reg | pop reg | pushFloat reg | popFloat reg =>
    obtain ⟨r, hr, rfl⟩ := Option.map_eq_some_iff.1 ho
    exact emitAll_assembled h (by simp [Instr.resolve?, hr]) rfl
  | loadFloat freg a =>
    obtain ⟨r, hr, rfl⟩ := Option.map_eq_some_iff.1 ho
    exact emitAll_assembled h (by simp [Instr.resolve?, hr, h11]) rfl
  | floatNegate freg =>
    obtain ⟨r, hr, rfl⟩ := Option.map_eq_some_iff.1 ho
    exact emitAll_assembled h (by simp [Instr.resolve?, hr, h11, h15]) rfl
  | call a =>
    cases ho
    exact emitAll_assembled h (by simp [Instr.resolve?, h11]) rfl
  | move dst src | moveFloat dst src =>
    simp only [lower?] at ho
    rw [perform]
    split at ho
    case isTrue he =>
      cases ho
      rw [if_pos he]
      exact .begin h
    case isFalse he =>
      rw [if_neg he]
      exact emit_single h ho rfl
  | intToFloat dst src =>
    exact emit_single h ho rfl
  | floatToInt dst src =>
    simp only [lower?, Option.bind_eq_bind, Option.pure_def, Option.bind_eq_some_iff,
      Option.some.injEq] at ho
    obtain ⟨d, hd, s, hs, rfl⟩ := ho
    exact floatToInt_assembled h hd hs
  | intBinary op dst src => exact intBinary_assembled h ho
  | floatBinary op dst src =>
    cases op with
    | add | sub | mul | div => exact emit_single h ho rfl
    | mod | pow | unknown => cases ho

theorem perform_written (h : Written start added w) {o : Operation} (ho : lower? o = some is) :
    Written start (added ++ encodeAll is) (perform w o) :=
  (perform_assembled h ho).written

end OnePass.X86
