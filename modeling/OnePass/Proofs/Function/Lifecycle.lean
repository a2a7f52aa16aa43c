import OnePass.Proofs.Function.Moves

/-!
# The life of functions

Any number of functions are compiled, called, looked at and released in any order, by a host that
may refuse any page. The pages that have memory are then those of the functions that are not
released, two for each; they are closed, and show what was emitted for the function, until it is
released.
-/

set_option autoImplicit false

namespace OnePass

/-- What can be asked for. A function goes by its place among those that were compiled. -/
inductive Request where
  | compile (arch : Arch) (sizes : RegionSizes) (source : Text) (verbose : Bool)
  | evaluate (arch : Arch) (sizes : RegionSizes) (source : Text) (verbose : Bool)
  | call (i : Nat)
  | code (i : Nat)
  | data (i : Nat)
  | release (i : Nat)
  deriving DecidableEq

structure Workspace where
  functions : List Function := []
  space : AddressSpace := {}

namespace Workspace

def step (h : Host) (w : Workspace) : Request → Workspace
  | .compile arch sizes source verbose =>
    let (b, space) := Function.compile h arch sizes source w.space verbose
    match b.outcome with
    | .ok f => { functions := w.functions ++ [f], space }
    | .error _ => { w with space }
  | .evaluate arch sizes source verbose =>
    { w with space := (evaluate h arch sizes source w.space verbose).2 }
  | .call _ | .code _ | .data _ => w
  | .release i =>
    match w.functions[i]? with
    | none => w
    | some f => { functions := w.functions.set i (f.release w.space).1,
                  space := (f.release w.space).2 }

def run (h : Host) (rs : List Request) : Workspace := rs.foldl (step h) {}

def live (w : Workspace) : Nat := w.functions.countP (!·.released)

end Workspace

namespace Function

def gone (f : Function) : Function := { f with pages := none }

def Owns (f : Function) (n : Nat) : Prop :=
  ∃ code data, f.pages = some (code, data) ∧ (n = code ∨ n = data)

variable {f : Function} {s t : AddressSpace} {code data : Nat}

theorem released_iff : f.released = true ↔ f.pages = none := by
  simp [released]

theorem gone_of_released (hf : f.released = true) : f.gone = f := by
  rw [gone, ← released_iff.1 hf]

theorem owns_pages (hp : f.pages = some (code, data)) : f.Owns code ∧ f.Owns data :=
  ⟨⟨code, data, hp, .inl rfl⟩, code, data, hp, .inr rfl⟩

theorem release_of_released (hf : f.released = true) (s : AddressSpace) : f.release s = (f, s) := by
  rw [release, released_iff.1 hf]

theorem release_eq (hp : f.pages = some (code, data)) (s : AddressSpace) :
    f.release s = (f.gone, (s.release code).release data) := by
  rw [release, hp]
  rfl

theorem snapshot_congr (hown : ∀ n, f.Owns n → t.page n = s.page n) (page : Nat × Nat → Nat)
    (hpage : ∀ p, page p = p.1 ∨ page p = p.2) (length : Nat) :
    f.snapshot t page length = f.snapshot s page length := by
  unfold snapshot
  cases hp : f.pages with
  | none => rfl
  | some p =>
    have howns : f.Owns (page p) := ⟨p.1, p.2, hp, hpage p⟩
    dsimp only
    rw [hown _ howns]

theorem Shows.congr {h : Host} {arch : Arch} {sizes : RegionSizes} {source : Text}
    {verbose : Bool}
    (hs : f.Shows h arch sizes source verbose s) (hown : ∀ n, f.Owns n → t.page n = s.page n) :
    f.Shows h arch sizes source verbose t := by
  obtain ⟨target, code, data, ha, hp, hcode, hdata⟩ := hs
  refine ⟨target, code, data, ha, hp, ?_, ?_⟩
  · exact (snapshot_congr hown Prod.fst (fun _ => .inl rfl) _).trans hcode
  · exact (snapshot_congr hown Prod.snd (fun _ => .inr rfl) _).trans hdata

end Function

open AddressSpace (Grows Held Settles)

/-- Evaluating leaves no page behind. -/
theorem grows_evaluate (h : Host) (arch : Arch) (sizes : RegionSizes) (source : Text)
    (s : AddressSpace) (verbose : Bool) :
    Grows h s (evaluate h arch sizes source s verbose).2 0 := by
  have ha := Function.attempt h arch sizes source s verbose
  unfold evaluate
  dsimp only
  generalize Function.compile h arch sizes source s verbose = b at ha ⊢
  cases ho : b.1.outcome with
  | error e =>
    rw [ho] at ha
    exact ha.failed
  | ok f =>
    rw [ho] at ha
    obtain ⟨code, data, hp, hc, hd, g, held, -⟩ := ha.succeeded
    dsimp only
    rw [Function.release_eq hp]
    exact g.release_both held.ne ⟨hc, held.lt.1⟩ ⟨hd, held.lt.2⟩ held.isMapped.1 held.isMapped.2

namespace Workspace

variable {h : Host} {w w' : Workspace} {r : Request}

inductive Change (h : Host) (w : Workspace) : Request → Workspace → Prop
  | still {r : Request}
      (hr : ∀ i f, r = .release i → w.functions[i]? = some f → f.released = true) :
      Change h w r w
  | passed {r : Request} {t : AddressSpace} (hr : ∀ i, r ≠ .release i) (g : Grows h w.space t 0) :
      Change h w r { w with space := t }
  | added {arch : Arch} {sizes : RegionSizes} {source : Text} {verbose : Bool} {f : Function}
      {t : AddressSpace} {code data : Nat} (hp : f.pages = some (code, data))
      (hc : w.space.pages.size ≤ code) (hd : w.space.pages.size ≤ data) (g : Grows h w.space t 2)
      (held : t.Held code data) :
      Change h w (.compile arch sizes source verbose)
        { functions := w.functions ++ [f], space := t }
  | dropped {i : Nat} {f : Function} {code data : Nat} (hi : w.functions[i]? = some f)
      (hp : f.pages = some (code, data)) :
      Change h w (.release i) { functions := w.functions.set i f.gone,
                                space := (w.space.release code).release data }

theorem step_compile {arch : Arch} {sizes : RegionSizes} {source : Text} {verbose : Bool}
    {f : Function}
    (ho : (Function.compile h arch sizes source w.space verbose).1.outcome = .ok f) :
    w.step h (.compile arch sizes source verbose) =
      { functions := w.functions ++ [f],
        space := (Function.compile h arch sizes source w.space verbose).2 } := by
  rw [step]
  dsimp only
  rw [ho]

/-- Releasing a function again has no effect. -/
theorem step_release_of_released {i : Nat} {f : Function} (hi : w.functions[i]? = some f)
    (hf : f.released = true) : w.step h (.release i) = w := by
  rw [step, hi]
  dsimp only
  obtain ⟨hlt, rfl⟩ := List.getElem?_eq_some_iff.1 hi
  rw [Function.release_of_released hf, List.set_getElem_self]

theorem step_change (h : Host) (w : Workspace) (r : Request) : Change h w r (w.step h r) := by
  cases r with
  | compile arch sizes source verbose =>
    have ha := Function.attempt h arch sizes source w.space verbose
    cases ho : (Function.compile h arch sizes source w.space verbose).1.outcome with
    | error e =>
      rw [ho] at ha
      rw [step]
      dsimp only
      rw [ho]
      exact .passed (by simp) ha.failed
    | ok f =>
      rw [ho] at ha
      obtain ⟨code, data, hp, hc, hd, g, held, -⟩ := ha.succeeded
      rw [step_compile ho]
      exact .added hp hc hd g held
  | evaluate arch sizes source verbose => exact .passed (by simp) (grows_evaluate ..)
  | call i => exact .still (by simp)
  | code i => exact .still (by simp)
  | data i => exact .still (by simp)
  | release i =>
    cases hi : w.functions[i]? with
    | none =>
      rw [step, hi]
      refine .still fun j f hj hf => ?_
      cases hj
      rw [hi] at hf
      cases hf
    | some f =>
      by_cases hf : f.released = true
      · rw [step_release_of_released hi hf]
        refine .still fun j g hj hg => ?_
        cases hj
        rw [hi] at hg
        cases hg
        exact hf
      · obtain ⟨p, hp⟩ := Option.ne_none_iff_exists'.1 (mt Function.released_iff.2 hf)
        rw [step, hi]
        dsimp only
        rw [Function.release_eq hp]
        exact .dropped hi hp

namespace Change

variable {i : Nat} {f : Function} {code data : Nat}

theorem settles (c : Change h w r w') : Settles h w.space w'.space := by
  cases c with
  | still hr => exact .refl
  | passed hr g => exact g.settles
  | added hp hc hd g held => exact g.settles
  | dropped hi hp => exact (Settles.refl.step (.release _)).step (.release _)

theorem function_stays (c : Change h w r w') (hi : w.functions[i]? = some f)
    (hr : r ≠ .release i) : w'.functions[i]? = some f := by
  cases c with
  | still => exact hi
  | passed => exact hi
  | added =>
    have hlt := (List.getElem?_eq_some_iff.1 hi).1
    exact (List.getElem?_append_left hlt).trans hi
  | @dropped j =>
    have hne : j ≠ i := by
      rintro rfl
      exact hr rfl
    exact (List.getElem?_set_ne hne).trans hi

theorem function_goes (c : Change h w (.release i) w') (hi : w.functions[i]? = some f) :
    w'.functions[i]? = some f.gone := by
  cases c with
  | still hr =>
    rw [Function.gone_of_released (hr i f rfl hi)]
    exact hi
  | passed hr => exact absurd rfl (hr i)
  | dropped hi' hp =>
    cases hi.symm.trans hi'
    exact List.getElem?_set_self (List.getElem?_eq_some_iff.1 hi).1

theorem origin (c : Change h w r w') (hi : w'.functions[i]? = some f)
    (hp : f.pages = some (code, data)) :
    (w.functions[i]? = some f ∧ r ≠ .release i) ∨
      (i = w.functions.length ∧ w.space.pages.size ≤ code ∧ w.space.pages.size ≤ data ∧
        w'.space.Held code data) := by
  cases c with
  | still hr =>
    refine .inl ⟨hi, ?_⟩
    rintro rfl
    have := Function.released_iff.1 (hr i f rfl hi)
    simp [hp] at this
  | passed hr => exact .inl ⟨hi, hr i⟩
  | added hp' hc hd g held =>
    rw [List.getElem?_append] at hi
    by_cases hlt : i < w.functions.length
    · rw [if_pos hlt] at hi
      exact .inl ⟨hi, by simp⟩
    · rw [if_neg hlt] at hi
      obtain ⟨hone, hf⟩ := List.getElem?_eq_some_iff.1 hi
      simp only [List.length_singleton] at hone
      simp only [List.getElem_singleton] at hf
      subst hf
      cases hp.symm.trans hp'
      exact .inr ⟨by omega, hc, hd, held⟩
  | @dropped j g _ _ hj hp' =>
    by_cases hji : j = i
    · -- the function that is released has no pages
      subst hji
      have hself := List.getElem?_set_self (a := g.gone) (List.getElem?_eq_some_iff.1 hj).1
      cases hi.symm.trans hself
      cases hp
    · exact .inl ⟨(List.getElem?_set_ne hji).symm.trans hi, by simpa using hji⟩

end Change

/-- Each function that is not released has two pages of its own, closed, and no other page has
memory. -/
structure Sound (w : Workspace) : Prop where
  mapped : w.space.mapped = 2 * w.live
  held : ∀ {i : Nat} {f : Function} {code data : Nat}, w.functions[i]? = some f →
    f.pages = some (code, data) → w.space.Held code data
  apart : ∀ {i j : Nat} {f g : Function} {n : Nat}, w.functions[i]? = some f →
    w.functions[j]? = some g → f.Owns n → g.Owns n → i = j

theorem Sound.owns_lt (hs : w.Sound) {i n : Nat} {f : Function} (hi : w.functions[i]? = some f)
    (hn : f.Owns n) : n < w.space.pages.size := by
  obtain ⟨code, data, hp, rfl | rfl⟩ := hn
  · exact (hs.held hi hp).lt.1
  · exact (hs.held hi hp).lt.2

theorem Change.pages_stay (c : Change h w r w') (hs : w.Sound) {i n : Nat} {f : Function}
    (hi : w.functions[i]? = some f) (hr : r ≠ .release i) (hn : f.Owns n) :
    w'.space.page n = w.space.page n := by
  have hlt := hs.owns_lt hi hn
  cases c with
  | still => rfl
  | passed _ g => exact g.keeps n hlt
  | added _ _ _ g => exact g.keeps n hlt
  | @dropped j g code data hj hp =>
    have hother : ¬g.Owns n := by
      intro hg
      obtain rfl := hs.apart hi hj hn hg
      exact hr rfl
    have hcode : n ≠ code := by
      rintro rfl
      exact hother (Function.owns_pages hp).1
    have hdata : n ≠ data := by
      rintro rfl
      exact hother (Function.owns_pages hp).2
    exact (AddressSpace.page_release_ne hdata).trans (AddressSpace.page_release_ne hcode)

theorem live_added (w : Workspace) {f : Function} (hf : f.released = false) (t : AddressSpace) :
    live { functions := w.functions ++ [f], space := t } = w.live + 1 := by
  simp [live, List.countP_append, hf]

theorem live_dropped {i : Nat} {f : Function} (hi : w.functions[i]? = some f)
    (hf : f.released = false) (t : AddressSpace) :
    live { functions := w.functions.set i f.gone, space := t } + 1 = w.live := by
  obtain ⟨hlt, hget⟩ := List.getElem?_eq_some_iff.1 hi
  have hpos : 0 < w.functions.countP (!·.released) :=
    List.countP_pos_iff.2 ⟨f, List.mem_of_getElem? hi, by simp [hf]⟩
  have hgone : f.gone.released = true := rfl
  rw [live, live, List.countP_set hlt, hget, hf, hgone]
  simp only [Bool.not_false, Bool.not_true, if_true, Bool.false_eq_true, if_false]
  omega

theorem Change.mapped (c : Change h w r w') (hs : w.Sound) :
    w'.space.mapped = 2 * w'.live := by
  have hmapped := hs.mapped
  cases c with
  | still => exact hmapped
  | passed _ g => exact g.mapped.trans hmapped
  | @added _ _ _ _ f _ _ _ hp _ _ g =>
    have hf : f.released = false := by simp [Function.released, hp]
    rw [g.mapped, hmapped, live_added w hf]
    rfl
  | @dropped i f code data hi hp =>
    have hf : f.released = false := by simp [Function.released, hp]
    have held := hs.held hi hp
    have hcode := AddressSpace.mapped_release held.lt.1 held.isMapped.1
    have hdata := AddressSpace.mapped_release (s := w.space.release code) (n := data)
      (by simpa using held.lt.2)
      (by rw [AddressSpace.page_release_ne held.ne.symm]; exact held.isMapped.2)
    have hlive := live_dropped hi hf ((w.space.release code).release data)
    dsimp only
    omega

/-- One request keeps the invariant. -/
theorem Sound.of_change (hs : w.Sound) (c : Change h w r w') : w'.Sound where
  mapped := c.mapped hs
  held := by
    intro i f code data hi hp
    obtain ⟨hold, hr⟩ | ⟨-, -, -, held⟩ := c.origin hi hp
    · exact (hs.held hold hp).congr (c.pages_stay hs hold hr (Function.owns_pages hp).1)
        (c.pages_stay hs hold hr (Function.owns_pages hp).2)
    · exact held
  apart := by
    rintro i j f g n hi hj ⟨code, data, hp, hn⟩ ⟨code', data', hp', hn'⟩
    -- the pages of a new function were not there before, so no older function has them
    obtain ⟨hold, -⟩ | ⟨rfl, hcode, hdata, -⟩ := c.origin hi hp
    · obtain ⟨hold', -⟩ | ⟨rfl, hcode', hdata', -⟩ := c.origin hj hp'
      · exact hs.apart hold hold' ⟨code, data, hp, hn⟩ ⟨code', data', hp', hn'⟩
      · have hlt := hs.owns_lt hold ⟨code, data, hp, hn⟩
        omega
    · obtain ⟨hold', -⟩ | ⟨rfl, -, -, -⟩ := c.origin hj hp'
      · have hlt := hs.owns_lt hold' ⟨code', data', hp', hn'⟩
        omega
      · rfl

theorem sound_empty : Sound {} where
  mapped := rfl
  held := by simp
  apart := by simp

theorem Sound.foldl (hs : w.Sound) (rs : List Request) : (rs.foldl (step h) w).Sound := by
  induction rs generalizing w with
  | nil => exact hs
  | cons r rs ih => exact ih (hs.of_change (step_change h w r))

theorem run_append (h : Host) (rs rs' : List Request) :
    run h (rs ++ rs') = rs'.foldl (step h) (run h rs) := List.foldl_append

theorem sound_run (h : Host) (rs : List Request) : (run h rs).Sound := sound_empty.foldl rs

theorem settles_foldl (h : Host) (w : Workspace) (rs : List Request) :
    Settles h w.space (rs.foldl (step h) w).space := by
  induction rs generalizing w with
  | nil => exact .refl
  | cons r rs ih => exact (step_change h w r).settles.trans (ih _)

variable {i : Nat} {f : Function} {rs : List Request}

theorem Sound.function_stays_foldl (hs : w.Sound) (hi : w.functions[i]? = some f)
    (hr : .release i ∉ rs) : (rs.foldl (step h) w).functions[i]? = some f ∧
      ∀ n, f.Owns n → (rs.foldl (step h) w).space.page n = w.space.page n := by
  induction rs generalizing w with
  | nil => exact ⟨hi, fun _ _ => rfl⟩
  | cons r rs ih =>
    simp only [List.mem_cons, not_or] at hr
    have c := step_change h w r
    have hne : r ≠ .release i := Ne.symm hr.1
    obtain ⟨hend, hpages⟩ := ih (hs.of_change c) (c.function_stays hi hne) hr.2
    exact ⟨hend, fun n hn => (hpages n hn).trans (c.pages_stay hs hi hne hn)⟩

theorem function_gone_foldl (hi : w.functions[i]? = some f) (hf : f.released = true) :
    (rs.foldl (step h) w).functions[i]? = some f := by
  induction rs generalizing w with
  | nil => exact hi
  | cons r rs ih =>
    apply ih
    by_cases hr : r = .release i
    · subst hr
      rw [step_release_of_released hi hf]
      exact hi
    · exact (step_change h w r).function_stays hi hr

theorem function_goes_foldl (hi : w.functions[i]? = some f) (hr : .release i ∈ rs) :
    (rs.foldl (step h) w).functions[i]? = some f.gone := by
  induction rs generalizing w with
  | nil => cases hr
  | cons r rs ih =>
    by_cases hri : r = .release i
    · subst hri
      have hgone := (step_change h w (.release i)).function_goes hi
      exact function_gone_foldl (w := w.step h (.release i)) hgone rfl
    · exact ih ((step_change h w r).function_stays hi hri) (List.mem_of_ne_of_mem (Ne.symm hri) hr)

theorem compiled_function {arch : Arch} {sizes : RegionSizes} {source : Text} {verbose : Bool}
    (ho : (Function.compile h arch sizes source w.space verbose).1.outcome = .ok f) :
    (w.step h (.compile arch sizes source verbose)).functions[w.functions.length]? = some f ∧
      f.Shows h arch sizes source verbose
        (w.step h (.compile arch sizes source verbose)).space := by
  have ha := Function.attempt h arch sizes source w.space verbose
  rw [ho] at ha
  obtain ⟨code, data, -, -, -, -, -, hshows⟩ := ha.succeeded
  rw [step_compile ho]
  exact ⟨List.getElem?_concat_length, hshows⟩

/-- After any requests, with any pages refused: the pages that have memory are two for each function
that is not released. Its code page is executable and its data page read-only. No page is opened
for writing again, also not while a request is carried out. A function that was compiled shows what
was emitted for it until its release is asked for. From then on it is never there again for calls
and copies, and releasing it again has no effect. -/
theorem pages_follow_functions (h : Host) (rs : List Request) :
    (run h rs).space.mapped = 2 * (run h rs).live ∧
    (∀ f ∈ (run h rs).functions, ∀ code data, f.pages = some (code, data) →
      ((run h rs).space.page code).state = .executable ∧
      ((run h rs).space.page data).state = .readOnly) ∧
    (∀ before after, rs = before ++ after → Settles h (run h before).space (run h rs).space) ∧
    (∀ before arch sizes source verbose after f,
      rs = before ++ Request.compile arch sizes source verbose :: after →
      (Function.compile h arch sizes source (run h before).space verbose).1.outcome = .ok f →
      (Request.release (run h before).functions.length ∉ after →
        (run h rs).functions[(run h before).functions.length]? = some f ∧
        f.Shows h arch sizes source verbose (run h rs).space) ∧
      (Request.release (run h before).functions.length ∈ after →
        (run h rs).functions[(run h before).functions.length]? = some f.gone)) ∧
    ∀ i f, (run h rs).functions[i]? = some f → f.released = true →
      f.call h (run h rs).space = .error .released ∧
      f.code (run h rs).space = .error .released ∧
      f.data (run h rs).space = .error .released ∧
      (run h rs).step h (.release i) = run h rs := by
  have hsound := sound_run h rs
  refine ⟨hsound.mapped, ?_, ?_, ?_, ?_⟩
  · intro f hf code data hp
    obtain ⟨i, hi⟩ := List.mem_iff_getElem?.1 hf
    exact ⟨(hsound.held hi hp).code, (hsound.held hi hp).data⟩
  · rintro before after rfl
    rw [run_append]
    exact settles_foldl h _ after
  · rintro before arch sizes source verbose after f rfl ho
    obtain ⟨hi, hshows⟩ := compiled_function ho
    have hstep := (sound_run h before).of_change
      (step_change h _ (.compile arch sizes source verbose))
    rw [run_append, List.foldl_cons]
    refine ⟨fun hr => ?_, fun hr => function_goes_foldl hi hr⟩
    obtain ⟨hend, hpages⟩ := hstep.function_stays_foldl hi hr
    exact ⟨hend, hshows.congr hpages⟩
  · intro i f hi hf
    have hp := Function.released_iff.1 hf
    refine ⟨?_, ?_, ?_, step_release_of_released hi hf⟩
    · rw [Function.call, hp]
    · rw [Function.code, Function.snapshot, hp]
    · rw [Function.data, Function.snapshot, hp]

/-- A host that refuses the fourth page: the second source leaves none, and with the first function
released there are two pages, which show the double of the last source. -/
theorem refused_page_is_followed :
    ∃ w f, w = run { linked := true, grants := fun n _ => n ≠ 3 }
        [.compile .x86 { code := 512, data := 64 } (utf8 "1 + 2") false,
         .compile .x86 { code := 512, data := 64 } (utf8 "'a'") true,
         .evaluate .x86 { code := 512, data := 64 } (utf8 "2 * 3") false,
         .compile .x86 { code := 512, data := 64 } (utf8 "7.5") true, .release 0] ∧
      w.space.pages.size = 7 ∧ w.space.mapped = 2 ∧ w.live = 1 ∧ w.functions[1]? = some f ∧
      f.Shows { linked := true, grants := fun n _ => n ≠ 3 } .x86 { code := 512, data := 64 }
        (utf8 "7.5") true w.space := by
  let h : Host := { linked := true, grants := fun n _ => n ≠ 3 }
  let before : List Request :=
    [.compile .x86 { code := 512, data := 64 } (utf8 "1 + 2") false,
     .compile .x86 { code := 512, data := 64 } (utf8 "'a'") true,
     .evaluate .x86 { code := 512, data := 64 } (utf8 "2 * 3") false]
  let rs := before ++
    Request.compile .x86 { code := 512, data := 64 } (utf8 "7.5") true :: [.release 0]
  have hsize : (run h rs).space.pages.size = 7 ∧ (run h rs).space.mapped = 2 := by decide +kernel
  have hcount : (run h before).functions.length = 1 := by decide +kernel
  have hok : (Function.compile h .x86 { code := 512, data := 64 } (utf8 "7.5")
      (run h before).space true).1.outcome.toOption.isSome = true := by decide +kernel
  obtain ⟨hmapped, -, -, hcompiled, -⟩ := pages_follow_functions h rs
  cases ho : (Function.compile h .x86 { code := 512, data := 64 } (utf8 "7.5")
      (run h before).space true).1.outcome with
  | error e =>
    rw [ho] at hok
    cases hok
  | ok f =>
    have hshown := (hcompiled before .x86 { code := 512, data := 64 } (utf8 "7.5") true
      [.release 0] f rfl ho).1 (by rw [hcount]; decide)
    rw [hcount] at hshown
    exact ⟨run h rs, f, rfl, hsize.1, hsize.2, by omega, hshown.1, hshown.2⟩

end Workspace

end OnePass
