import OnePass.Settings.Load

/-!
# Settings stay valid

Values reach the settings from defaults, a file, the environment and calls of setters. All but the
defaults come through a setter, which sets a value in range and nothing else, or refuses the text.
This does not depend on how sizes and files are read.
-/

set_option autoImplicit false

namespace OnePass

theorem bind_eq_ok_iff {ε α β : Type} {x : Except ε α} {f : α → Except ε β} {b : β} :
    x >>= f = .ok b ↔ ∃ a, x = .ok a ∧ f a = .ok b := by
  cases x <;> simp [Bind.bind, Except.bind]

/-- A size is taken exactly when the number that is read is in range. -/
theorem Size.parseBy_eq_ok_iff {read : Size.Reader} {s : Text} {n : Nat} :
    Size.parseBy read s = .ok n ↔
      ∃ z, read s = .ok z ∧ 64 ≤ z.toInt ∧ z.toInt ≤ 0x40000000 ∧ n = z.toInt.toNat := by
  rw [parseBy, bind_eq_ok_iff]
  refine exists_congr fun z => and_congr_right fun _ => ?_
  have hleast : (least : Int) = 64 := rfl
  have hgreatest : (greatest : Int) = 0x40000000 := rfl
  rw [hleast, hgreatest]
  by_cases hsmall : z.toInt < 64
  · rw [if_pos hsmall]
    simp only [reduceCtorEq, false_iff]
    omega
  · by_cases hlarge : 0x40000000 < z.toInt
    · rw [if_neg hsmall, if_pos hlarge]
      simp only [reduceCtorEq, false_iff]
      omega
    · rw [if_neg hsmall, if_neg hlarge, Except.ok.injEq]
      omega

namespace Settings

structure Valid (s : Settings) : Prop where
  arch : s.arch = .x86 ∨ s.arch = .arm64
  code : 64 ≤ s.sizes.code ∧ s.sizes.code ≤ 0x40000000
  data : 64 ≤ s.sizes.data ∧ s.sizes.data ≤ 0x40000000

inductive Setter where
  | arch
  | codeSize
  | dataSize
  deriving DecidableEq

def Setter.set (r : Readers) : Setter → Settings → Text → Except Fault Settings
  | .arch => setArch
  | .codeSize => setCodeSizeBy r.bytes
  | .dataSize => setDataSizeBy r.bytes

/-- A text stands for a value that may be set, and setting it turns the first settings into the
second. -/
inductive Sets (r : Readers) (s : Settings) : Setter → Text → Settings → Prop where
  | x86 {name : Text} (h : foldedName name ∈ [utf8 "x86_64", utf8 "amd64", utf8 "x86-64"]) :
      Sets r s .arch name { s with arch := .x86 }
  | arm64 {name : Text} (h : foldedName name ∈ [utf8 "aarch64", utf8 "arm64"]) :
      Sets r s .arch name { s with arch := .arm64 }
  | codeSize {size : Text} (z : Int64) (h : r.bytes size = .ok z) (low : 64 ≤ z.toInt)
      (high : z.toInt ≤ 0x40000000) :
      Sets r s .codeSize size { s with sizes := { s.sizes with code := z.toInt.toNat } }
  | dataSize {size : Text} (z : Int64) (h : r.bytes size = .ok z) (low : 64 ≤ z.toInt)
      (high : z.toInt ≤ 0x40000000) :
      Sets r s .dataSize size { s with sizes := { s.sizes with data := z.toInt.toNat } }

variable {r : Readers} {s t : Settings} {setter : Setter} {text : Text}

theorem setSizeBy_eq_ok_iff {read : Size.Reader} {put : RegionSizes → Nat → RegionSizes}
    {blame : Size.Fault → Fault} : setSizeBy read put blame s text = .ok t ↔
      ∃ z, read text = .ok z ∧ 64 ≤ z.toInt ∧ z.toInt ≤ 0x40000000 ∧
        t = { s with sizes := put s.sizes z.toInt.toNat } := by
  rw [setSizeBy]
  cases hsize : Size.parseBy read text with
  | error fault =>
    constructor
    · intro h
      cases h
    · rintro ⟨z, hz, low, high, -⟩
      rw [Size.parseBy_eq_ok_iff.2 ⟨z, hz, low, high, rfl⟩] at hsize
      cases hsize
  | ok n =>
    obtain ⟨z, hz, low, high, rfl⟩ := Size.parseBy_eq_ok_iff.1 hsize
    constructor
    · intro h
      cases h
      exact ⟨z, hz, low, high, rfl⟩
    · rintro ⟨z', hz', -, -, rfl⟩
      cases hz.symm.trans hz'
      rfl

theorem sets_arch (h : setArch s text = .ok t) : Sets r s .arch text t := by
  rw [setArch, Arch.parse] at h
  by_cases hx86 : foldedName text ∈ [utf8 "x86_64", utf8 "amd64", utf8 "x86-64"]
  · rw [if_pos hx86] at h
    cases h
    exact .x86 hx86
  · by_cases harm64 : foldedName text ∈ [utf8 "aarch64", utf8 "arm64"]
    · rw [if_neg hx86, if_pos harm64] at h
      cases h
      exact .arm64 harm64
    · rw [if_neg hx86, if_neg harm64] at h
      cases h

theorem sets_of_set (h : setter.set r s text = .ok t) : Sets r s setter text t := by
  cases setter with
  | arch => exact sets_arch h
  | codeSize =>
    rw [Setter.set, setCodeSizeBy] at h
    obtain ⟨z, hz, low, high, rfl⟩ := setSizeBy_eq_ok_iff.1 h
    exact .codeSize z hz low high
  | dataSize =>
    rw [Setter.set, setDataSizeBy] at h
    obtain ⟨z, hz, low, high, rfl⟩ := setSizeBy_eq_ok_iff.1 h
    exact .dataSize z hz low high

theorem Sets.set (h : Sets r s setter text t) : setter.set r s text = .ok t := by
  cases h with
  | x86 h => rw [Setter.set, setArch, Arch.parse, if_pos h]
  | arm64 h =>
    have hother : ∀ name ∈ [utf8 "aarch64", utf8 "arm64"],
        name ∉ [utf8 "x86_64", utf8 "amd64", utf8 "x86-64"] := by decide
    rw [Setter.set, setArch, Arch.parse, if_neg (hother _ h), if_pos h]
  | codeSize z h low high =>
    rw [Setter.set, setCodeSizeBy, setSizeBy_eq_ok_iff]
    exact ⟨z, h, low, high, rfl⟩
  | dataSize z h low high =>
    rw [Setter.set, setDataSizeBy, setSizeBy_eq_ok_iff]
    exact ⟨z, h, low, high, rfl⟩

theorem Sets.valid (h : Sets r s setter text t) (hs : s.Valid) : t.Valid := by
  cases h with
  | x86 h => exact ⟨.inl rfl, hs.code, hs.data⟩
  | arm64 h => exact ⟨.inr rfl, hs.code, hs.data⟩
  | codeSize z h low high =>
    have hrange : 64 ≤ z.toInt.toNat ∧ z.toInt.toNat ≤ 0x40000000 := by omega
    exact ⟨hs.arch, hrange, hs.data⟩
  | dataSize z h low high =>
    have hrange : 64 ≤ z.toInt.toNat ∧ z.toInt.toNat ≤ 0x40000000 := by omega
    exact ⟨hs.arch, hs.code, hrange⟩

/-- Whether settings are valid depends on the architecture and the sizes alone. -/
theorem Valid.congr (hs : s.Valid) (harch : t.arch = s.arch) (hsizes : t.sizes = s.sizes) :
    t.Valid where
  arch := harch ▸ hs.arch
  code := hsizes ▸ hs.code
  data := hsizes ▸ hs.data

theorem Valid.withText (setter : Setter) (hs : s.Valid)
    (h : Settings.withText (setter.set r) s text = .ok t) : t.Valid := by
  rw [Settings.withText] at h
  by_cases hempty : text = []
  · rw [if_pos hempty] at h
    cases h
    exact hs
  · rw [if_neg hempty] at h
    exact (sets_of_set h).valid hs

theorem Valid.withVariable {env : Environment} {name : Text} (setter : Setter) (hs : s.Valid)
    (h : Settings.withVariable env name (setter.set r) s = .ok t) : t.Valid := by
  rw [Settings.withVariable] at h
  cases hset : Settings.withText (setter.set r) s (env.get name) with
  | error fault => simp [hset] at h
  | ok u =>
    simp only [hset] at h
    cases h
    exact hs.withText setter hset

theorem Valid.applyGiven {g : Given} (hs : s.Valid) (h : Settings.applyGiven r s g = .ok t) :
    t.Valid := by
  obtain ⟨s₁, hset₁, h⟩ := bind_eq_ok_iff.1 h
  obtain ⟨s₂, hset₂, h⟩ := bind_eq_ok_iff.1 h
  obtain ⟨s₃, hset₃, h⟩ := bind_eq_ok_iff.1 h
  have hs₁ := hs.withText (r := r) .arch hset₁
  have hs₂ := hs₁.withText .codeSize hset₂
  have hs₃ := hs₂.withText .dataSize hset₃
  cases h
  exact hs₃.congr rfl rfl

theorem Valid.applyFile {path : Text} {file : Except FileFault Bytes} (hs : s.Valid)
    (h : Settings.applyFile r s path file = .ok t) : t.Valid := by
  cases file with
  | error fault => cases h
  | ok content =>
    rw [Settings.applyFile] at h
    cases hgiven : r.given content >>= Settings.applyGiven r s with
    | error fault => simp [hgiven] at h
    | ok u =>
      simp only [hgiven] at h
      obtain ⟨g, -, hu⟩ := bind_eq_ok_iff.1 hgiven
      cases h
      exact (hs.applyGiven hu).congr rfl rfl

theorem Valid.applyEnvironment {env : Environment} (hs : s.Valid)
    (h : Settings.applyEnvironment r env s = .ok t) : t.Valid := by
  obtain ⟨s₁, hset₁, h⟩ := bind_eq_ok_iff.1 h
  obtain ⟨s₂, hset₂, h⟩ := bind_eq_ok_iff.1 h
  obtain ⟨s₃, hset₃, h⟩ := bind_eq_ok_iff.1 h
  have hs₁ := hs.withVariable (r := r) .arch hset₁
  have hs₂ := hs₁.withVariable .codeSize hset₂
  have hs₃ := hs₂.withVariable .dataSize hset₃
  cases h
  exact hs₃.congr rfl rfl

theorem valid_defaults {host : Platform} (hhost : host.arch = .x86 ∨ host.arch = .arm64)
    (env : Environment) : (defaults host env).Valid := by
  have hcode : 64 ≤ ({} : RegionSizes).code ∧ ({} : RegionSizes).code ≤ 0x40000000 := by decide
  have hdata : 64 ≤ ({} : RegionSizes).data ∧ ({} : RegionSizes).data ≤ 0x40000000 := by decide
  exact ⟨hhost, hcode, hdata⟩

theorem valid_loadBy {host : Platform} {env : Environment} {file : Except FileFault Bytes}
    (hhost : host.arch = .x86 ∨ host.arch = .arm64) (h : loadBy r host env file = .ok s) :
    s.Valid := by
  have hdefaults := valid_defaults hhost env
  rw [loadBy] at h
  by_cases hignored : ignorable env file = true
  · rw [if_pos hignored] at h
    exact hdefaults.applyEnvironment h
  · rw [if_neg hignored] at h
    obtain ⟨u, hfile, h⟩ := bind_eq_ok_iff.1 h
    exact (hdefaults.applyFile hfile).applyEnvironment h

def call (r : Readers) (s : Settings) (c : Setter × Text) : Option Fault × Settings :=
  match c.1.set r s c.2 with
  | .ok t => (none, t)
  | .error fault => (some fault, s)

def callAll (r : Readers) (s : Settings) (calls : List (Setter × Text)) : Settings :=
  calls.foldl (fun s c => (s.call r c).2) s

/-- How a call ends: a text that stands for a value sets it and changes nothing else, and any other
text is refused and changes nothing. -/
inductive Ends (r : Readers) (s : Settings) (c : Setter × Text) :
    Option Fault × Settings → Prop where
  | set {t : Settings} (h : Sets r s c.1 c.2 t) : Ends r s c (none, t)
  | refused (fault : Fault) (h : ∀ t, ¬Sets r s c.1 c.2 t) : Ends r s c (some fault, s)

theorem call_ends (r : Readers) (s : Settings) (c : Setter × Text) : Ends r s c (s.call r c) := by
  rw [call]
  cases h : c.1.set r s c.2 with
  | ok t => exact .set (sets_of_set h)
  | error fault =>
    refine .refused fault fun t ht => ?_
    rw [ht.set] at h
    cases h

theorem Ends.valid {c : Setter × Text} {o : Option Fault × Settings} (h : Ends r s c o)
    (hs : s.Valid) : o.2.Valid := by
  cases h with
  | set h => exact h.valid hs
  | refused fault h => exact hs

theorem Valid.callAll (hs : s.Valid) (calls : List (Setter × Text)) :
    (s.callAll r calls).Valid := by
  induction calls generalizing s with
  | nil => exact hs
  | cons c cs ih => exact ih ((call_ends r s c).valid hs)

/-- Settings that were loaded on a supported host are valid and stay so whatever setters are called
with, and each call sets its own value or changes nothing. This holds for all readers; those of
`load` and of the setters that it uses are `{}`. -/
theorem loaded_settings_stay_valid (r : Readers) {host : Platform} {env : Environment}
    {file : Except FileFault Bytes} {s : Settings}
    (hhost : host.arch = .x86 ∨ host.arch = .arm64) (h : loadBy r host env file = .ok s)
    (calls : List (Setter × Text)) :
    (s.callAll r calls).Valid ∧
      ∀ c, Ends r (s.callAll r calls) c ((s.callAll r calls).call r c) := by
  refine ⟨(valid_loadBy hhost h).callAll calls, ?_⟩
  intro c
  exact call_ends r _ c

def smallCode : Environment :=
  [(utf8 "JITEXPR_CODE_SIZE", utf8 "4096"), (utf8 "HOME", utf8 "/home/user")]

def largeData : Text := utf8 "data_size = \"1048576\"\n"

def smallCodeLargeData : Settings :=
  { sizes := { code := 4096, data := 1048576 }, history := utf8 "/home/user/.jitexpr_history",
    source := some (utf8 "jitexpr.toml") }

theorem load_smallCode_largeData :
    load ⟨.x86, .linux⟩ smallCode (.ok largeData) = .ok smallCodeLargeData := by
  have hload : (load ⟨.x86, .linux⟩ smallCode (.ok largeData)).toOption =
      some smallCodeLargeData := by decide +kernel
  cases h : load ⟨.x86, .linux⟩ smallCode (.ok largeData) with
  | error fault =>
    rw [h] at hload
    cases hload
  | ok s =>
    rw [h] at hload
    exact congrArg Except.ok (Option.some.inj hload)

/-- Sizes from a file and a variable, of which one is then refused another value and the other is
given one. -/
theorem sizes_of_file_and_variable_stay_valid :
    load ⟨.x86, .linux⟩ smallCode (.ok largeData) = .ok smallCodeLargeData ∧
      smallCodeLargeData.callAll {} [(.codeSize, utf8 "63"), (.dataSize, utf8 "128")] =
        { smallCodeLargeData with sizes := { code := 4096, data := 128 } } ∧
      (smallCodeLargeData.callAll {} [(.codeSize, utf8 "63"), (.dataSize, utf8 "128")]).Valid ∧
      Ends {} smallCodeLargeData (.codeSize, utf8 "63")
        (smallCodeLargeData.call {} (.codeSize, utf8 "63")) := by
  have hcalls : smallCodeLargeData.callAll {} [(.codeSize, utf8 "63"), (.dataSize, utf8 "128")] =
      { smallCodeLargeData with sizes := { code := 4096, data := 128 } } := by decide +kernel
  have hvalid := loaded_settings_stay_valid {} (.inl rfl) load_smallCode_largeData
  exact ⟨load_smallCode_largeData, hcalls, (hvalid _).1, (hvalid []).2 _⟩

end Settings

end OnePass
