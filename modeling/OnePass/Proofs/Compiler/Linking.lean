import OnePass.Compiler.Emission
import OnePass.Proofs.Buffer.Assembly
import OnePass.Proofs.Machine.Native

/-!
# Linked code

Actions become operations once it is known where their constants stand. When the constants fit
behind what the data buffer holds, emission writes them there, and writes the bytes of the linked
operations into the code buffer.
-/

set_option autoImplicit false

namespace OnePass

def Action.constant (offset : Nat) : Action → Bytes
  | .loadFloat _ x => List.replicate (eightPadding offset) 0 ++ littleEndian 8 x.bits.toNat
  | .loadText _ s => List.replicate (eightPadding offset) 0 ++ (s ++ [0])
  | _ => []

def constantAddress (base : UInt64) (offset : Nat) : UInt64 :=
  base + UInt64.ofNat (offset + eightPadding offset)

def Action.operations (address : UInt64) : Action → List Operation
  | .operation o => [o]
  | .loadFloat freg _ => [.loadFloat freg address]
  | .loadText reg _ => [.loadImmediate reg address]
  | .note _ => []

def constants (offset : Nat) : List Action → Bytes
  | [] => []
  | a :: as => a.constant offset ++ constants (offset + (a.constant offset).length) as

def linked (base : UInt64) (offset : Nat) : List Action → List Operation
  | [] => []
  | a :: as => a.operations (constantAddress base offset) ++
      linked base (offset + (a.constant offset).length) as

theorem constants_append (offset : Nat) (as bs : List Action) :
    constants offset (as ++ bs) =
      constants offset as ++ constants (offset + (constants offset as).length) bs := by
  induction as generalizing offset with
  | nil => rfl
  | cons a as ih => simp [constants, ih, Nat.add_assoc]

theorem linked_append (base : UInt64) (offset : Nat) (as bs : List Action) :
    linked base offset (as ++ bs) =
      linked base offset as ++ linked base (offset + (constants offset as).length) bs := by
  induction as generalizing offset with
  | nil => rfl
  | cons a as ih => simp [constants, linked, ih, Nat.add_assoc]

@[simp] theorem constants_operations (offset : Nat) (os : List Operation) :
    constants offset (os.map .operation) = [] := by
  induction os with
  | nil => rfl
  | cons o os ih => exact ih

@[simp] theorem linked_operations (base : UInt64) (offset : Nat) (os : List Operation) :
    linked base offset (os.map .operation) = os := by
  induction os with
  | nil => rfl
  | cons o os ih => exact congrArg (o :: ·) ih

def Action.room : Action → Nat
  | .loadFloat _ _ => 15
  | .loadText _ s => 8 + s.length
  | _ => 0

def constantRoom : List Action → Nat
  | [] => 0
  | a :: as => a.room + constantRoom as

theorem eightPadding_le (n : Nat) : eightPadding n ≤ 7 := by
  unfold eightPadding
  omega

theorem length_constants_le (offset : Nat) (as : List Action) :
    (constants offset as).length ≤ constantRoom as := by
  induction as generalizing offset with
  | nil => exact Nat.le_refl _
  | cons a as ih =>
    have hpad := eightPadding_le offset
    have hrest := ih (offset + (a.constant offset).length)
    cases a <;> simp [constants, constantRoom, Action.constant, Action.room] at hrest ⊢ <;> omega

theorem length_linked_le (base : UInt64) (offset : Nat) (as : List Action) :
    (linked base offset as).length ≤ as.length := by
  induction as generalizing offset with
  | nil => exact Nat.le_refl _
  | cons a as ih =>
    have hrest := ih (offset + (a.constant offset).length)
    cases a <;> simp [linked, Action.operations] at hrest ⊢ <;> omega

theorem constantRoom_append (as bs : List Action) :
    constantRoom (as ++ bs) = constantRoom as + constantRoom bs := by
  induction as with
  | nil => exact (Nat.zero_add _).symm
  | cons a as ih => rw [List.cons_append, constantRoom, constantRoom, ih, Nat.add_assoc]

theorem constantRoom_operations (os : List Operation) : constantRoom (os.map .operation) = 0 := by
  induction os with
  | nil => rfl
  | cons o os ih => exact (Nat.zero_add _).trans ih

/-- No target takes more bytes for an operation. -/
def operationRoom : Nat := 160

structure Encoder (target : Target) where
  bytes? : Operation → Option Bytes
  written : ∀ {start : Buffer} {added bs : Bytes} {w : Writer} {o : Operation},
    Written start added w → bytes? o = some bs → Written start (added ++ bs) (target.perform w o)
  length_le : ∀ {o : Operation} {bs : Bytes}, bytes? o = some bs → bs.length ≤ operationRoom
  used : ∀ {symbols : Symbols} {o : Operation}, Native.Used ⟨target.roles, symbols⟩ o →
    (bytes? o).isSome
  prologue : (bytes? .prologue).isSome
  epilogue : (bytes? .epilogue).isSome

namespace Encoder

variable {target : Target} (E : Encoder target)

def encode (os : List Operation) : Bytes := os.flatMap fun o => (E.bytes? o).getD []

def Takes (a : Action) : Prop := ∀ address, ∀ o ∈ a.operations address, (E.bytes? o).isSome

@[simp] theorem encode_append (as bs : List Operation) :
    E.encode (as ++ bs) = E.encode as ++ E.encode bs := List.flatMap_append

theorem length_encode_le (os : List Operation) :
    (E.encode os).length ≤ operationRoom * os.length := by
  induction os with
  | nil => simp [encode]
  | cons o os ih =>
    have ho : ((E.bytes? o).getD []).length ≤ operationRoom := by
      cases hb : E.bytes? o with
      | none => simp
      | some bs => exact E.length_le hb
    have he : E.encode (o :: os) = (E.bytes? o).getD [] ++ E.encode os := rfl
    rw [he, List.length_append, List.length_cons, Nat.mul_succ]
    omega

variable {E}

theorem written_all {start : Buffer} {added : Bytes} {w : Writer} {o : Operation}
    (h : Written start added w) (ho : (E.bytes? o).isSome) :
    Written start (added ++ E.encode [o]) (target.perform w o) := by
  obtain ⟨bs, hbs⟩ := Option.isSome_iff_exists.1 ho
  simpa [encode, hbs] using E.written h hbs

end Encoder

structure Lister {target : Target} (E : Encoder target) {I : Type} (encode : I → Bytes)
    (ShownAs : I → Text → Prop) where
  lower? : Operation → Option (List I)
  bytes?_eq : ∀ o, E.bytes? o = (lower? o).map (·.flatMap encode)
  assembled : ∀ {start : Buffer} {added : Bytes} {w : Writer} {o : Operation} {is : List I},
    Written start added w → lower? o = some is →
      Assembled encode ShownAs start added w is (target.perform w o)

namespace Lister

variable {target : Target} {E : Encoder target} {I : Type} {encode : I → Bytes}
  {ShownAs : I → Text → Prop} (L : Lister E encode ShownAs)

def lowerAll (os : List Operation) : List I := os.flatMap fun o => (L.lower? o).getD []

theorem lowerAll_append (as bs : List Operation) :
    L.lowerAll (as ++ bs) = L.lowerAll as ++ L.lowerAll bs := List.flatMap_append

theorem encode_eq (os : List Operation) : E.encode os = (L.lowerAll os).flatMap encode := by
  induction os with
  | nil => rfl
  | cons o os ih =>
    have hcons : E.encode (o :: os) = (E.bytes? o).getD [] ++ E.encode os := rfl
    have hlower : L.lowerAll (o :: os) = (L.lower? o).getD [] ++ L.lowerAll os := rfl
    rw [hcons, hlower, List.flatMap_append, ih, L.bytes?_eq]
    cases L.lower? o <;> rfl

end Lister

structure Emitted {target : Target} (E : Encoder target) (code data : Buffer)
    (actions : List Action) (e : Emission) : Prop where
  stored : Written data (constants data.offset actions) e.dataWriter
  written : ∃ bytes, Written code bytes e.codeWriter ∧
    (data.Fits (constants data.offset actions).length →
      bytes = E.encode (linked data.base data.offset actions))

namespace Emitted

variable {target : Target} {E : Encoder target} {code data : Buffer} {actions : List Action}
  {e : Emission}

theorem begin (hc : code.Ready) (hd : data.Ready) (verbose : Bool) :
    Emitted E code data [] { code, data, verbose } where
  stored := .begin data hd _ verbose
  written := ⟨[], .begin code hc _ verbose, fun _ => rfl⟩

theorem fits_left {as bs : List Action}
    (h : data.Fits (constants data.offset (as ++ bs)).length) :
    data.Fits (constants data.offset as).length := by
  simp only [Buffer.Fits, constants_append, List.length_append] at *
  omega

theorem step (h : Emitted E code data actions e) {a : Action} {e' : Emission} (address : UInt64)
    {f : Writer → Writer} (hcode : e'.code = e.code)
    (hdata : Written data (constants data.offset (actions ++ [a])) e'.dataWriter)
    (haddress : data.Fits (constants data.offset (actions ++ [a])).length →
      a.operations address = linked data.base (data.offset + (constants data.offset actions).length)
        [a])
    (hf : ∀ {bytes : Bytes} {w : Writer}, Written code bytes w →
      Written code (bytes ++ E.encode (a.operations address)) (f w)) :
    Emitted E code data (actions ++ [a]) (e'.onCode f) := by
  obtain ⟨bytes, hw, hb⟩ := h.written
  have hw' : Written code bytes e'.codeWriter := hw.congr hcode hdata.misuse
  have hw'' := hf hw'
  refine ⟨hdata.congr rfl hw''.misuse, _, hw''.congr rfl hw''.misuse, fun hfit => ?_⟩
  rw [hb (fits_left hfit), haddress hfit, linked_append, Encoder.encode_append]

theorem address_eq {added : Bytes} {w : Writer} (h : Written data added w)
    (hf : data.Fits
      (added ++ List.replicate (eightPadding (data.offset + added.length)) 0).length) :
    (w.align 8).buffer.address = constantAddress data.base (data.offset + added.length) := by
  have ha := h.align_eight
  have ho : (w.align 8).buffer.offset = _ := ha.offset hf
  rw [Buffer.address, ha.base, ho, constantAddress, List.length_append, List.length_replicate,
    Nat.add_assoc]

theorem constants_snoc (offset : Nat) (as : List Action) (a : Action) :
    constants offset (as ++ [a]) =
      constants offset as ++ a.constant (offset + (constants offset as).length) := by
  rw [constants_append]
  simp [constants]

theorem stored_constant (h : Emitted E code data actions e) {a : Action} {tail : Bytes}
    {f : Writer → Writer}
    (hc : ∀ offset, a.constant offset = List.replicate (eightPadding offset) 0 ++ tail)
    (hf : ∀ {bytes : Bytes} {w : Writer}, Written data bytes w →
      Written data (bytes ++ tail) (f w)) :
    let e' := (e.onData (·.align 8)).onData f
    Written data (constants data.offset (actions ++ [a])) e'.dataWriter := by
  have halign := h.stored.align_eight
  have hdata := hf (w := (e.onData (·.align 8)).dataWriter) (halign.congr rfl halign.misuse)
  rw [List.append_assoc, ← hc, ← constants_snoc] at hdata
  exact hdata.congr rfl hdata.misuse

theorem address_constant (h : Emitted E code data actions e) {a : Action} {tail : Bytes}
    (hc : ∀ offset, a.constant offset = List.replicate (eightPadding offset) 0 ++ tail)
    (hfit : data.Fits (constants data.offset (actions ++ [a])).length) :
    (e.onData (·.align 8)).data.address =
      constantAddress data.base (data.offset + (constants data.offset actions).length) := by
  refine address_eq h.stored ?_
  rw [constants_snoc, hc] at hfit
  simp only [Buffer.Fits, List.length_append] at *
  omega

theorem step_constant (h : Emitted E code data actions e) {a : Action} {o : UInt64 → Operation}
    {tail : Bytes} {f : Writer → Writer} (ha : ∀ address, a.operations address = [o address])
    (htake : E.Takes a)
    (hc : ∀ offset, a.constant offset = List.replicate (eightPadding offset) 0 ++ tail)
    (hf : ∀ {bytes : Bytes} {w : Writer}, Written data bytes w →
      Written data (bytes ++ tail) (f w)) :
    Emitted E code data (actions ++ [a])
      (((e.onData (·.align 8)).onData f).onCode
        (target.perform · (o (e.onData (·.align 8)).data.address))) := by
  refine h.step (e.onData (·.align 8)).data.address rfl (h.stored_constant hc hf) (fun hfit => ?_)
    fun hw => ?_
  · rw [h.address_constant hc hfit]
    simp [linked]
  · rw [ha]
    refine Encoder.written_all hw (htake (e.onData (·.align 8)).data.address _ ?_)
    rw [ha]
    exact List.mem_singleton_self _

theorem perform (h : Emitted E code data actions e) {a : Action} (ha : E.Takes a) :
    Emitted E code data (actions ++ [a]) (e.perform target a) := by
  cases a with
  | operation o =>
    have hall : constants data.offset (actions ++ [Action.operation o]) =
        constants data.offset actions := by
      simp [constants_append, constants, Action.constant]
    rw [Emission.perform]
    refine h.step 0 rfl (hall ▸ h.stored) (fun _ => rfl) fun hw => ?_
    exact Encoder.written_all hw (ha 0 o (List.mem_singleton_self _))
  | loadFloat freg x => exact h.step_constant (fun _ => rfl) ha (fun _ => rfl) fun hw => hw.append _
  | loadText reg s =>
    refine h.step_constant (fun _ => rfl) ha (fun _ => rfl) fun hw => ?_
    simpa using hw.appendAll [s, [0]]
  | note event =>
    have hall : constants data.offset (actions ++ [Action.note event]) =
        constants data.offset actions := by
      simp [constants_append, constants, Action.constant]
    rw [Emission.perform]
    refine h.step 0 rfl (hall ▸ h.stored) (fun _ => rfl) fun hw => ?_
    simpa [Action.operations, Encoder.encode] using hw.note event

theorem performAll (hc : code.Ready) (hd : data.Ready) (verbose : Bool) {actions : Array Action}
    (ha : ∀ a ∈ actions.toList, E.Takes a) :
    Emitted E code data actions.toList
      (Emission.performAll target { code, data, verbose } actions) := by
  have hall : ∀ (todo done : List Action) (e : Emission), Emitted E code data done e →
      (∀ a ∈ todo, E.Takes a) →
      Emitted E code data (done ++ todo) (todo.foldl (Emission.perform target) e) := by
    intro todo
    induction todo with
    | nil =>
      intro done e he _
      rwa [List.append_nil]
    | cons a todo ih =>
      intro done e he hall
      have hk := ih (done ++ [a]) _ (he.perform (hall a List.mem_cons_self)) fun b hb =>
        hall b (List.mem_cons_of_mem a hb)
      rwa [List.append_assoc] at hk
  rw [Emission.performAll, ← Array.foldl_toList]
  exact hall actions.toList [] _ (begin hc hd verbose) ha

theorem failure?_eq_none_iff (h : Emitted E code data actions e) :
    e.failure? = none ↔ data.Fits (constants data.offset actions).length ∧
      code.Fits (E.encode (linked data.base data.offset actions)).length := by
  obtain ⟨bytes, hw, hb⟩ := h.written
  have hcode : e.code.failure = none ↔ _ := hw.failure_eq_none_iff
  have hdata : e.data.failure = none ↔ _ := h.stored.failure_eq_none_iff
  rw [Emission.failure?, Option.orElse_eq_orElse, Option.orElse_eq_or, Option.or_eq_none_iff,
    hcode, hdata]
  constructor
  · rintro ⟨hc, hd⟩
    exact ⟨hd, hb hd ▸ hc⟩
  · rintro ⟨hd, hc⟩
    exact ⟨hb hd ▸ hc, hd⟩

theorem code_bytes (h : Emitted E code data actions e) (hn : e.failure? = none) :
    e.code.bytes = code.bytes ++ E.encode (linked data.base data.offset actions) := by
  obtain ⟨hd, hc⟩ := h.failure?_eq_none_iff.1 hn
  obtain ⟨bytes, hw, hb⟩ := h.written
  cases hb hd
  exact (hw.fits hc).2

theorem data_bytes (h : Emitted E code data actions e) (hn : e.failure? = none) :
    e.data.bytes = data.bytes ++ constants data.offset actions :=
  (h.stored.fits (h.failure?_eq_none_iff.1 hn).1).2

end Emitted

end OnePass
