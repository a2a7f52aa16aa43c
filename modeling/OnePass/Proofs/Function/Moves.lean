import OnePass.Proofs.Function.Artifact

/-!
# Moves of pages

An address space changes by moves: a page is asked for, filled while it is writable, closed to
writing, or released. No move opens a page again. Compiling a source is a chain of moves that leaves
the pages of before as they are; at its end there are two more pages, closed, when it has succeeded,
and none when it has failed, wherever that was.
-/

set_option autoImplicit false

namespace OnePass

namespace Page

variable {p q : Page} {state : Protection}

theorem isMapped_iff : p.isMapped = true ↔ p.state ≠ .released := by
  simp [isMapped]

@[simp] theorem state_release (p : Page) : p.release.state = .released := by
  unfold release
  by_cases hp : p.isMapped = true
  · rw [if_pos hp]
  · rw [if_neg hp]
    simpa [isMapped] using hp

/-- A page changes its state only when it is writable, and its memory never. -/
theorem become_eq_ok (h : p.become state = .ok q) :
    p.state ≠ .released ∧ (p.state = .writable ∧ q = { p with state } ∨ q = p) := by
  unfold become at h
  by_cases hr : p.state = .released
  · rw [if_pos hr] at h
    cases h
  rw [if_neg hr] at h
  refine ⟨hr, ?_⟩
  by_cases hs : p.state = state
  · rw [if_pos hs] at h
    exact .inr (Except.ok.inj h).symm
  rw [if_neg hs] at h
  by_cases hw : p.state = .writable
  · rw [if_pos hw] at h
    exact .inl ⟨hw, (Except.ok.inj h).symm⟩
  · rw [if_neg hw] at h
    cases h

theorem become_of_writable (hw : p.state = .writable) (hs : state ≠ .writable) :
    p.become state = .ok { p with state } := by
  rw [become, if_neg (by rw [hw]; decide), if_neg (by rw [hw]; exact hs.symm), if_pos hw]

end Page

namespace AddressSpace

variable {h : Host} {s t u : AddressSpace} {m n k : Nat} {p q : Page} {size : Int64}

@[simp] theorem size_set (s : AddressSpace) (n : Nat) (p : Page) :
    (s.set n p).pages.size = s.pages.size := by
  simp [set]

@[simp] theorem size_release (s : AddressSpace) (n : Nat) :
    (s.release n).pages.size = s.pages.size := size_set ..

theorem set_set (s : AddressSpace) (n : Nat) (p q : Page) : (s.set n p).set n q = s.set n q := by
  simp [set]

theorem set_comm (s : AddressSpace) (hne : m ≠ n) (p q : Page) :
    (s.set m p).set n q = (s.set n q).set m p := by
  simp [set, Array.setIfInBounds_comm p q hne]

theorem page_release_self (hn : n < s.pages.size) : (s.release n).page n = (s.page n).release :=
  page_set_self hn _

theorem page_release_ne (hne : m ≠ n) : (s.release n).page m = s.page m := page_set_ne hne _

theorem lt_of_closed (hn : (s.page n).state ≠ .writable) : n < s.pages.size := by
  apply Nat.lt_of_not_le
  intro hle
  apply hn
  rw [page, Array.getD_eq_getD_getElem?, Array.getElem?_eq_none hle]
  rfl

theorem page_allocate (hn : n < s.pages.size) : (s.allocate h size).2.page n = s.page n := by
  unfold allocate
  cases Page.allocate (h.grants s.requests) size h.pageSize with
  | error f => rfl
  | ok p =>
    simp [page, Array.getD_eq_getD_getElem?, Array.getElem?_push, Nat.ne_of_lt hn]

theorem allocate_eq_error {f : PageFault} (ha : s.allocate h size = (.error f, t)) :
    t.pages = s.pages := by
  unfold allocate at ha
  cases hp : Page.allocate (h.grants s.requests) size h.pageSize with
  | error f =>
    rw [hp] at ha
    cases ha
    rfl
  | ok p =>
    rw [hp] at ha
    cases ha

theorem mapped_eq (s : AddressSpace) : s.mapped = s.pages.toList.countP Page.isMapped := by
  rw [mapped, ← Array.countP_eq_size_filter, Array.countP_toList]

theorem mapped_set (hn : n < s.pages.size) (p : Page) :
    (s.set n p).mapped + (s.page n).isMapped.toNat = s.mapped + p.isMapped.toNat := by
  have hlen : n < s.pages.toList.length := by simpa using hn
  have hpage : s.page n = s.pages.toList[n] := by simp [page, hn]
  have hold : s.pages.toList =
      s.pages.toList.take n ++ s.page n :: s.pages.toList.drop (n + 1) := by
    rw [hpage, ← List.drop_eq_getElem_cons hlen, List.take_append_drop]
  have hnew : (s.set n p).pages.toList =
      s.pages.toList.take n ++ p :: s.pages.toList.drop (n + 1) := by
    rw [set, Array.toList_setIfInBounds, List.set_eq_take_append_cons_drop, if_pos hlen]
  rw [mapped_eq, mapped_eq, hnew]
  nth_rewrite 3 [hold]
  cases hp : p.isMapped <;> cases hq : (s.page n).isMapped <;>
    simp [List.countP_append, hp, hq] <;> omega

theorem mapped_release (hn : n < s.pages.size) (hm : (s.page n).isMapped = true) :
    (s.release n).mapped + 1 = s.mapped := by
  have hset := s.mapped_set hn (s.page n).release
  have hgone : (s.page n).release.isMapped = false := by
    simp [Page.isMapped]
  rw [hm, hgone] at hset
  exact hset

inductive Move (h : Host) (s : AddressSpace) : AddressSpace → Prop
  | ask (size : Int64) : Move h s (s.allocate h size).2
  | fill (n : Nat) (b : Buffer) (hw : (s.page n).state = .writable) :
      Move h s (s.set n ((s.page n).ofBuffer b))
  | protect (n : Nat) (state : Protection) {p : Page} (hp : (s.page n).become state = .ok p) :
      Move h s (s.set n p)
  | release (n : Nat) : Move h s (s.release n)

/-- Pages that are closed to writing are not opened again; they stay as they are until they are
released, and then are so for good. -/
def KeepsClosed (s t : AddressSpace) : Prop :=
  ∀ n, (s.page n).state ≠ .writable → (t.page n).state ≠ .writable ∧
    ((t.page n).state ≠ .released → t.page n = s.page n)

theorem Move.keepsClosed (hm : Move h s t) : KeepsClosed s t := by
  intro n hn
  have hlt := lt_of_closed hn
  have same : ∀ {t : AddressSpace}, t.page n = s.page n → (t.page n).state ≠ .writable ∧
      ((t.page n).state ≠ .released → t.page n = s.page n) := by
    intro t ht
    exact ⟨by rwa [ht], fun _ => ht⟩
  cases hm with
  | ask size => exact same (page_allocate hlt)
  | fill m b hw =>
    refine same (page_set_ne ?_ _)
    rintro rfl
    exact hn hw
  | protect m state hp =>
    by_cases hnm : n = m
    · subst hnm
      obtain ⟨-, ⟨hw, -⟩ | rfl⟩ := Page.become_eq_ok hp
      · exact absurd hw hn
      · exact same (page_set_self hlt _)
    · exact same (page_set_ne hnm _)
  | release m =>
    by_cases hnm : n = m
    · subst hnm
      rw [page_release_self hlt, Page.state_release]
      exact ⟨by decide, fun hne => absurd rfl hne⟩
    · exact same (page_release_ne hnm)

/-- A chain of moves, each of which keeps closed what is closed. -/
inductive Settles (h : Host) (s : AddressSpace) : AddressSpace → Prop
  | refl : Settles h s s
  | move {t u : AddressSpace} (before : Settles h s t) (m : Move h t u) (keeps : KeepsClosed t u) :
      Settles h s u

namespace Settles

theorem step (hs : Settles h s t) (hm : Move h t u) : Settles h s u := hs.move hm hm.keepsClosed

theorem trans (hs : Settles h s t) (ht : Settles h t u) : Settles h s u := by
  induction ht with
  | refl => exact hs
  | move _ m keeps ih => exact ih.move m keeps

end Settles

structure Grows (h : Host) (s t : AddressSpace) (more : Nat) : Prop where
  settles : Settles h s t
  size_le : s.pages.size ≤ t.pages.size
  keeps : ∀ n < s.pages.size, t.page n = s.page n
  mapped : t.mapped = s.mapped + more

namespace Grows

theorem refl (h : Host) (s : AddressSpace) : Grows h s s 0 :=
  ⟨.refl, Nat.le_refl _, fun _ _ => rfl, rfl⟩

theorem ask_ok (g : Grows h s t k) (ha : t.allocate h size = (.ok n, u)) : Grows h s u (k + 1) := by
  obtain ⟨-, hpages⟩ := allocate_eq_ok ha
  have hu : u = (t.allocate h size).2 := by rw [ha]
  refine ⟨hu ▸ g.settles.step (.ask size), ?_, fun m hm => ?_, ?_⟩
  · rw [hpages, Array.size_push]
    exact Nat.le_succ_of_le g.size_le
  · rw [hu, page_allocate (Nat.lt_of_lt_of_le hm g.size_le), g.keeps m hm]
  · have hmapped := g.mapped
    rw [mapped_eq] at hmapped ⊢
    rw [hpages, Array.toList_push, List.countP_append, hmapped]
    rfl

theorem ask_error {f : PageFault} (g : Grows h s t k) (ha : t.allocate h size = (.error f, u)) :
    Grows h s u k := by
  have hpages := allocate_eq_error ha
  have hu : u = (t.allocate h size).2 := by rw [ha]
  refine ⟨hu ▸ g.settles.step (.ask size), hpages ▸ g.size_le, fun m hm => ?_, ?_⟩
  · rw [hu, page_allocate (Nat.lt_of_lt_of_le hm g.size_le), g.keeps m hm]
  · rw [AddressSpace.mapped, hpages]
    exact g.mapped

theorem set (g : Grows h s t k) (hn : s.pages.size ≤ n) (hlt : n < t.pages.size)
    (hm : Move h t (t.set n p)) (hp : p.isMapped = (t.page n).isMapped) :
    Grows h s (t.set n p) k := by
  refine ⟨g.settles.step hm, by simpa using g.size_le, fun m hmlt => ?_, ?_⟩
  · rw [page_set_ne (by omega), g.keeps m hmlt]
  · have hset := t.mapped_set hlt p
    rw [hp] at hset
    rw [← g.mapped]
    exact Nat.add_right_cancel hset

theorem fill (g : Grows h s t k) (hn : s.pages.size ≤ n) (hlt : n < t.pages.size)
    (hw : (t.page n).state = .writable) (b : Buffer) :
    Grows h s (t.set n ((t.page n).ofBuffer b)) k := g.set hn hlt (.fill n b hw) rfl

theorem protect (g : Grows h s t k) (hn : s.pages.size ≤ n) (hlt : n < t.pages.size)
    (hw : (t.page n).state = .writable) {state : Protection} (hs : state ≠ .writable)
    (hr : state ≠ .released) : Grows h s (t.set n { t.page n with state }) k := by
  refine g.set hn hlt (.protect n state (Page.become_of_writable hw hs)) ?_
  rw [Page.isMapped_iff.2 hr, Page.isMapped_iff.2 (by rw [hw]; decide)]

theorem release (g : Grows h s t (k + 1)) (hn : s.pages.size ≤ n) (hlt : n < t.pages.size)
    (hm : (t.page n).isMapped = true) : Grows h s (t.release n) k := by
  refine ⟨g.settles.step (.release n), by simpa using g.size_le, fun m hmlt => ?_, ?_⟩
  · rw [page_release_ne (by omega), g.keeps m hmlt]
  · have hrelease := mapped_release hlt hm
    have hmapped := g.mapped
    omega

end Grows

structure Held (s : AddressSpace) (code data : Nat) : Prop where
  ne : code ≠ data
  code : (s.page code).state = .executable
  data : (s.page data).state = .readOnly

namespace Held

variable {code data : Nat}

theorem lt (hh : s.Held code data) : code < s.pages.size ∧ data < s.pages.size :=
  ⟨lt_of_closed (by rw [hh.code]; decide), lt_of_closed (by rw [hh.data]; decide)⟩

theorem isMapped (hh : s.Held code data) :
    (s.page code).isMapped = true ∧ (s.page data).isMapped = true :=
  ⟨Page.isMapped_iff.2 (by rw [hh.code]; decide), Page.isMapped_iff.2 (by rw [hh.data]; decide)⟩

theorem congr (hh : s.Held code data) (hc : t.page code = s.page code)
    (hd : t.page data = s.page data) : t.Held code data :=
  ⟨hh.ne, by rw [hc, hh.code], by rw [hd, hh.data]⟩

end Held

theorem Grows.release_both {code data : Nat} (g : Grows h s t (k + 2)) (hne : code ≠ data)
    (hc : s.pages.size ≤ code ∧ code < t.pages.size)
    (hd : s.pages.size ≤ data ∧ data < t.pages.size)
    (hcm : (t.page code).isMapped = true) (hdm : (t.page data).isMapped = true) :
    Grows h s ((t.release code).release data) k := by
  refine (g.release hc.1 hc.2 hcm).release hd.1 (by simpa using hd.2) ?_
  rwa [page_release_ne hne.symm]

end AddressSpace

namespace Function

open AddressSpace (Grows Held page_set_self page_set_ne set_set set_comm)

variable {h : Host} {arch : Arch} {target : Target} {sizes : RegionSizes} {source : Text}
  {code data k : Nat} {s t : AddressSpace} {verbose : Bool}

/-- Both pages are filled, then the data page is closed, then the code page. -/
theorem grows_closePages (g : Grows h s t k) (e : Emission) (hne : code ≠ data)
    (hc : s.pages.size ≤ code ∧ code < t.pages.size)
    (hd : s.pages.size ≤ data ∧ data < t.pages.size)
    (hcw : (t.page code).state = .writable) (hdw : (t.page data).state = .writable) :
    Grows h s (closePages t code data e) k ∧ (closePages t code data e).Held code data := by
  -- the chain of moves; both pages are written while both are writable
  let t₁ := t.set data ((t.page data).ofBuffer e.data)
  let t₂ := t₁.set code ((t₁.page code).ofBuffer e.code)
  let t₃ := t₂.set data { t₂.page data with state := .readOnly }
  have hcode₁ : t₁.page code = t.page code := page_set_ne hne _
  have hcode₂ : t₂.page code = (t.page code).ofBuffer e.code := by
    rw [page_set_self (by simpa [t₁] using hc.2), hcode₁]
  have hdata₂ : t₂.page data = (t.page data).ofBuffer e.data := by
    rw [page_set_ne hne.symm, page_set_self hd.2]
  have hcode₃ : t₃.page code = (t.page code).ofBuffer e.code := by
    rw [page_set_ne hne, hcode₂]
  have hclosed : closePages t code data e =
      t₃.set code { t₃.page code with state := .executable } := by
    have ht₃ : t₃ = (t.set data ((t.page data).closed e.data .readOnly)).set code
        ((t.page code).ofBuffer e.code) := by
      calc t₃ = (t₁.set code ((t.page code).ofBuffer e.code)).set data
            ((t.page data).closed e.data .readOnly) := by
            rw [Page.closed, ← hcode₁, ← hdata₂]
        _ = (t₁.set data ((t.page data).closed e.data .readOnly)).set code
            ((t.page code).ofBuffer e.code) := set_comm _ hne _ _
        _ = _ := by rw [set_set]
    rw [hcode₃, ht₃, set_set]
    rfl
  have g₁ : Grows h s t₁ k := g.fill hd.1 hd.2 hdw e.data
  have g₂ : Grows h s t₂ k := g₁.fill hc.1 (by simpa [t₁] using hc.2) (by rw [hcode₁, hcw]) e.code
  have g₃ : Grows h s t₃ k :=
    g₂.protect hd.1 (by simpa [t₁, t₂] using hd.2) (by rw [hdata₂]; exact hdw) (by decide)
      (by decide)
  have g₄ : Grows h s (t₃.set code { t₃.page code with state := .executable }) k :=
    g₃.protect hc.1 (by simpa [t₁, t₂, t₃] using hc.2) (by rw [hcode₃]; exact hcw) (by decide)
      (by decide)
  refine ⟨hclosed ▸ g₄, hne, ?_, ?_⟩
  · rw [closePages, page_set_self (by simpa using hc.2)]
    rfl
  · rw [closePages, page_set_ne hne.symm, page_set_self hd.2]
    rfl

/-- What becomes of an attempt to compile: it fails before there are pages, with one page, or with
both, which are then released; or it succeeds, and both are closed. -/
inductive Attempt (h : Host) (arch : Arch) (sizes : RegionSizes) (source : Text)
    (verbose : Bool) (s : AddressSpace) : Except Error Function → AddressSpace → Prop
  | refused (e : Error) : Attempt h arch sizes source verbose s (.error e) s
  | noCode {s₁ : AddressSpace} {f : PageFault} (e : Error)
      (hcode : s.allocate h (Int64.ofNat sizes.code) = (.error f, s₁)) :
      Attempt h arch sizes source verbose s (.error e) s₁
  | noData {s₁ s₂ : AddressSpace} {code : Nat} {f : PageFault} (e : Error)
      (hcode : s.allocate h (Int64.ofNat sizes.code) = (.ok code, s₁))
      (hdata : s₁.allocate h (Int64.ofNat sizes.data) = (.error f, s₂)) :
      Attempt h arch sizes source verbose s (.error e) (s₂.release code)
  | rejected {s₁ s₂ : AddressSpace} {code data : Nat} (e : Error)
      (hcode : s.allocate h (Int64.ofNat sizes.code) = (.ok code, s₁))
      (hdata : s₁.allocate h (Int64.ofNat sizes.data) = (.ok data, s₂)) :
      Attempt h arch sizes source verbose s (.error e) ((s₂.release code).release data)
  | compiled {s₁ s₂ : AddressSpace} {code data : Nat} {target : Target} {ty : Ty} {e : Emission}
      (hcode : s.allocate h (Int64.ofNat sizes.code) = (.ok code, s₁))
      (hdata : s₁.allocate h (Int64.ofNat sizes.data) = (.ok data, s₂))
      (ha : arch.target? = some target)
      (ho : (compilation h target (sizes.rooms h.pageSize) source code data verbose).outcome =
        .ok ty)
      (he : e =
        (compilation h target (sizes.rooms h.pageSize) source code data verbose).emission.commit) :
      Attempt h arch sizes source verbose s
        (.ok { pages := some (code, data), codeLength := e.code.offset,
               dataLength := e.data.offset, result := ty, arch, source })
        (closePages s₂ code data e)

theorem attempt_with_pages {s₁ s₂ : AddressSpace} (hx : h.platform.canExecute arch = true)
    (hcode : s.allocate h (Int64.ofNat sizes.code) = (.ok code, s₁))
    (hdata : s₁.allocate h (Int64.ofNat sizes.data) = (.ok data, s₂)) :
    Attempt h arch sizes source verbose s (compile h arch sizes source s verbose).1.outcome
      (compile h arch sizes source s verbose).2 := by
  obtain ⟨hc, -⟩ := (AddressSpace.fresh_of_allocate hcode).allocate hdata
  have hd := AddressSpace.fresh_of_allocate hdata
  rw [compile_eq hx hcode hdata]
  cases ha : arch.target? with
  | none =>
    have hnone : (compileInto h arch sizes source code data s₂ verbose).outcome =
        .error (.noTarget arch) := by
      unfold compileInto
      rw [hc.page, hd.page, Page.buffer_fresh, Page.buffer_fresh, ha]
    rw [hnone]
    exact .rejected _ hcode hdata
  | some target =>
    rw [compileInto_outcome ha hc hd]
    cases ho : (compilation h target (sizes.rooms h.pageSize) source code data verbose).outcome with
    | error d => exact .rejected _ hcode hdata
    | ok ty => exact .compiled hcode hdata ha ho rfl

theorem attempt (h : Host) (arch : Arch) (sizes : RegionSizes) (source : Text) (s : AddressSpace)
    (verbose : Bool) :
    Attempt h arch sizes source verbose s (compile h arch sizes source s verbose).1.outcome
      (compile h arch sizes source s verbose).2 := by
  by_cases hx : h.platform.canExecute arch = true
  · rcases hcode : s.allocate h (Int64.ofNat sizes.code) with ⟨f | code, s₁⟩
    · have hrun : compile h arch sizes source s verbose =
          ({ outcome := .error (.page f) }, s₁) := by
        unfold compile
        rw [hx, hcode]
        rfl
      rw [hrun]
      exact .noCode _ hcode
    · rcases hdata : s₁.allocate h (Int64.ofNat sizes.data) with ⟨f | data, s₂⟩
      · have hrun : compile h arch sizes source s verbose =
            ({ outcome := .error (.page f) }, s₂.release code) := by
          unfold compile
          rw [hx, hcode]
          dsimp only
          rw [hdata]
          rfl
        rw [hrun]
        exact .noData _ hcode hdata
      · exact attempt_with_pages hx hcode hdata
  · have hrun : compile h arch sizes source s verbose =
        ({ outcome := .error (.notExecutable arch h.platform) }, s) := by
      unfold compile
      simp only [hx]
      rfl
    rw [hrun]
    exact .refused _

def Shows (h : Host) (arch : Arch) (sizes : RegionSizes) (source : Text) (verbose : Bool)
    (f : Function) (s : AddressSpace) : Prop :=
  ∃ target code data, arch.target? = some target ∧ f.pages = some (code, data) ∧
    let c := compilation h target (sizes.rooms h.pageSize) source code data verbose
    f.code s = .ok c.emission.code.bytes ∧ f.data s = .ok c.emission.data.bytes

namespace Attempt

theorem granted {s₁ s₂ : AddressSpace} {size size' : Int64}
    (hcode : s.allocate h size = (.ok code, s₁)) (hdata : s₁.allocate h size' = (.ok data, s₂)) :
    Grows h s s₂ 2 ∧ s.pages.size ≤ code ∧ s.pages.size ≤ data ∧ code ≠ data ∧
      AddressSpace.Fresh h s₂ code size ∧ AddressSpace.Fresh h s₂ data size' := by
  obtain ⟨hc, hne⟩ := (AddressSpace.fresh_of_allocate hcode).allocate hdata
  have hd := AddressSpace.fresh_of_allocate hdata
  obtain ⟨rfl, -⟩ := AddressSpace.allocate_eq_ok hcode
  obtain ⟨rfl, -⟩ := AddressSpace.allocate_eq_ok hdata
  have g₁ := (Grows.refl h s).ask_ok hcode
  exact ⟨g₁.ask_ok hdata, Nat.le_refl _, g₁.size_le, hne, hc, hd⟩

/-- A failed attempt leaves no page behind. -/
theorem failed {e : Error} (ha : Attempt h arch sizes source verbose s (.error e) t) :
    Grows h s t 0 := by
  cases ha with
  | refused => exact .refl h s
  | noCode _ hcode => exact (Grows.refl h s).ask_error hcode
  | noData _ hcode hdata =>
    have hc := AddressSpace.fresh_of_allocate hcode
    have hpages := AddressSpace.allocate_eq_error hdata
    have g := ((Grows.refl h s).ask_ok hcode).ask_error hdata
    obtain ⟨rfl, -⟩ := AddressSpace.allocate_eq_ok hcode
    refine g.release (Nat.le_refl _) (by rw [hpages]; exact hc.lt) ?_
    rw [AddressSpace.page, hpages, ← AddressSpace.page, hc.page]
    rfl
  | rejected _ hcode hdata =>
    obtain ⟨g, hc, hd, hne, hcf, hdf⟩ := granted hcode hdata
    exact g.release_both hne ⟨hc, hcf.lt⟩ ⟨hd, hdf.lt⟩ (by rw [hcf.page]; rfl)
      (by rw [hdf.page]; rfl)

/-- A successful attempt leaves two pages, which show what was emitted. -/
theorem succeeded {f : Function} (ha : Attempt h arch sizes source verbose s (.ok f) t) :
    ∃ code data, f.pages = some (code, data) ∧ s.pages.size ≤ code ∧ s.pages.size ≤ data ∧
      Grows h s t 2 ∧ t.Held code data ∧ f.Shows h arch sizes source verbose t := by
  cases ha with
  | @compiled _ s₂ code data target ty e hcode hdata ha ho he =>
    obtain ⟨g, hc, hd, hne, hcf, hdf⟩ := granted hcode hdata
    obtain ⟨gt, held⟩ := grows_closePages g e hne ⟨hc, hcf.lt⟩ ⟨hd, hdf.lt⟩
      (by rw [hcf.page]; rfl) (by rw [hdf.page]; rfl)
    refine ⟨code, data, rfl, hc, hd, gt, held, target, code, data, ha, rfl, ?_⟩
    obtain ⟨E⟩ := Arch.exists_encoder ha
    have hoff := offset_le_of_ok E (Page.room_lt _ _) (Page.room_lt _ _) ho
    obtain ⟨⟨hcb, -⟩, hdb, -⟩ :=
      (compilation h target (sizes.rooms h.pageSize) source code data verbose).emission.commit_keeps
    dsimp only at hoff ⊢
    rw [← hcb, ← hdb, ← he]
    rw [← he] at hoff
    apply snapshots_closePages ⟨rfl, rfl, rfl⟩ hne hcf.lt hdf.lt
    · rw [hcf.page]
      exact Nat.le_trans hoff.1 (Page.room_le _ _)
    · rw [hdf.page]
      exact Nat.le_trans hoff.2 (Page.room_le _ _)

end Attempt

end Function

end OnePass
