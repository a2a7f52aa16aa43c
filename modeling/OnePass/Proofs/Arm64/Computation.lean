import OnePass.Proofs.Arm64.Stepping

/-!
# Computations of the ARM64 machine

Instructions that only compute: they set registers that may be spoiled and flags, and leave memory,
the stack and all other registers alone. Which general registers may be spoiled is a parameter. A
computation is followed from one point of its code to the next.
-/

set_option autoImplicit false

namespace OnePass.Arm64

def Gp.volatile (r : Gp) : Bool := r.index.val < 19

def Fp.volatile (x : Fp) : Bool := x.index.val < 8 || 16 ≤ x.index.val

theorem Gp.lt_of_volatile {r : Gp} (h : r.volatile = true) : r.index.val < 31 := by
  simp only [Gp.volatile, decide_eq_true_eq] at h
  omega

structure Undisturbed (spoiled : Gp → Bool) (m m' : Machine) : Prop where
  ram : m'.ram = m.ram
  free : m'.free = m.free
  sp : m'.sp = m.sp
  kept : ∀ r : Gp, spoiled r = false → m'.get r = m.get r
  keptF : ∀ x : Fp, x.volatile = false → m'.getF x = m.getF x

namespace Undisturbed

variable {spoiled : Gp → Bool} {m m' m'' : Machine}

theorem refl (m : Machine) : Undisturbed spoiled m m :=
  ⟨rfl, rfl, rfl, fun _ _ => rfl, fun _ _ => rfl⟩

theorem moveTo (m : Machine) (n : Nat) : Undisturbed spoiled m (m.moveTo n) :=
  ⟨rfl, rfl, rfl, fun _ _ => rfl, fun _ _ => rfl⟩

theorem withFlags (m : Machine) (f : Flags) : Undisturbed spoiled m (m.withFlags f) :=
  ⟨rfl, rfl, rfl, fun _ _ => rfl, fun _ _ => rfl⟩

theorem trans (h : Undisturbed spoiled m m') (h' : Undisturbed spoiled m' m'') :
    Undisturbed spoiled m m'' where
  ram := h'.ram.trans h.ram
  free := h'.free.trans h.free
  sp := h'.sp.trans h.sp
  kept r hr := (h'.kept r hr).trans (h.kept r hr)
  keptF x hx := (h'.keptF x hx).trans (h.keptF x hx)

theorem set {r : Gp} (hr : spoiled r = true) (m : Machine) (v : UInt64) :
    Undisturbed spoiled m (m.set r v) := by
  refine ⟨by simp, by simp, by simp, fun s hs => ?_, by simp⟩
  have hne : r ≠ s := by
    rintro rfl
    simp [hr] at hs
  simp [hne]

theorem setF {x : Fp} (hx : x.volatile = true) (m : Machine) (d : Binary64) :
    Undisturbed spoiled m (m.setF x d) := by
  refine ⟨rfl, rfl, rfl, fun _ _ => rfl, fun y hy => ?_⟩
  have hne : x ≠ y := by
    rintro rfl
    simp [hx] at hy
  simp [hne]

end Undisturbed

def Instr.Mild (spoiled : Gp → Bool) : Resolved → Prop
  | .ldrD t _ => t.volatile = true
  | .movz d _ _ => spoiled d = true
  | .movk d _ _ => spoiled d = true
  | .mov d _ => spoiled d = true
  | .fmov d _ => d.volatile = true
  | .int _ d _ _ => spoiled d = true
  | .msub d _ _ _ => spoiled d = true
  | .neg d _ => spoiled d = true
  | .asrOne d _ => spoiled d = true
  | .csel d _ _ _ => spoiled d = true
  | .scvtf d _ => d.volatile = true
  | .fcvtzs d _ => spoiled d = true
  | .float _ d _ _ => d.volatile = true
  | .fneg d _ => d.volatile = true
  | .cmpZero _ => True
  | .b _ => True
  | .bCond _ _ => True
  | .cbz _ _ => True
  | .tbzBit0 _ _ => True
  | _ => False

theorem undisturbed_branch {spoiled : Gp → Bool} {s s' : Machine} {d : Int}
    (hx : branch s d = .running s') : Undisturbed spoiled s s' := by
  simp only [branch] at hx
  split at hx
  · cases hx
    exact .moveTo s _
  · cases hx

theorem undisturbed_branchIf {spoiled : Gp → Bool} {s s' : Machine} {c : Bool} {d : Int}
    (hx : branchIf s c d = .running s') : Undisturbed spoiled s s' := by
  unfold branchIf at hx
  split at hx
  · exact undisturbed_branch hx
  · cases hx
    exact .moveTo s _

theorem undisturbed_execute {spoiled : Gp → Bool} {world : World Machine} {base : UInt64}
    {i : Resolved}
    {s s' : Machine} (hi : i.Mild spoiled) (hx : execute world base s i = .running s') :
    Undisturbed spoiled s s' := by
  cases i with
  | movz d | movk d | mov d | int op d | msub d | neg d | asrOne d | csel d | fcvtzs d =>
    cases hx
    exact (Undisturbed.set hi s _).trans (.moveTo _ _)
  | ldrD d | fmov d | scvtf d | float op d | fneg d =>
    cases hx
    exact (Undisturbed.setF hi s _).trans (.moveTo _ _)
  | cmpZero n =>
    cases hx
    exact (Undisturbed.withFlags s _).trans (.moveTo _ _)
  | b d => exact undisturbed_branch hx
  | bCond c d | cbz t d | tbzBit0 t d => exact undisturbed_branchIf hx
  | _ => exact hi.elim

structure Computing (spoiled : Gp → Bool) (code : Array UInt32) (start stop : Nat)
    (m s : Machine) : Prop where
  low : start ≤ s.position
  high : s.position < stop
  same : Undisturbed spoiled m s
  mild : ∃ i, fetch code s = some i ∧ i.Mild spoiled

def Computes (spoiled : Gp → Bool) (world : World Machine) (base : UInt64) (code : Array UInt32)
    (start stop : Nat) (m : Machine) (result : Machine → Prop) (s : Machine) : Prop :=
  Leads (successor (step world base code)) (fun _ => False) (Computing spoiled code start stop m)
    (fun s' => s'.position = stop ∧ Undisturbed spoiled m s' ∧ result s') s

structure Point (spoiled : Gp → Bool) (code : Array UInt32) (start stop : Nat) (m s : Machine)
    (is : List Resolved) : Prop where
  code : CodeAt code s.position is
  stop : s.position + is.length = stop
  start : start ≤ s.position
  same : Undisturbed spoiled m s

namespace Point

variable {spoiled : Gp → Bool} {world : World Machine} {base : UInt64} {code : Array UInt32}
  {start stop : Nat} {m s : Machine} {i : Resolved} {is : List Resolved} {result : Machine → Prop}

theorem first (h : CodeAt code m.position is) :
    Point spoiled code m.position (m.position + is.length) m m is :=
  ⟨h, rfl, Nat.le_refl _, .refl m⟩

theorem step (p : Point spoiled code start stop m s (i :: is)) (hi : i.Encodable)
    (hm : i.Mild spoiled) {s' : Machine} (hx : execute world base s i = .running s')
    (k : Computes spoiled world base code start stop m result s') :
    Computes spoiled world base code start stop m result s := by
  have hstop := p.stop
  rw [List.length_cons] at hstop
  refine .step ⟨p.start, by omega, p.same, i, fetch_at p.code hi, hm⟩ ?_ k
  rw [successor, step_at p.code hi, hx]

theorem behind (block : List Resolved) (p : Point spoiled code start stop m s (block ++ is))
    {s' : Machine} (hp : s'.position = s.position + block.length)
    (hs : Undisturbed spoiled s s') :
    Point spoiled code start stop m s' is where
  code := hp ▸ CodeAt.right block p.code
  stop := by
    rw [← p.stop, hp, List.length_append, Nat.add_assoc]
  start := by
    have := p.start
    omega
  same := p.same.trans hs

theorem plain (p : Point spoiled code start stop m s (i :: is)) (hi : i.Encodable)
    (hm : i.Mild spoiled) {t : Machine} (hx : execute world base s i = next t)
    (hp : t.position = s.position)
    (k : Point spoiled code start stop m (t.moveTo (s.position + 1)) is →
      Computes spoiled world base code start stop m result (t.moveTo (s.position + 1))) :
    Computes spoiled world base code start stop m result s := by
  rw [next_eq, hp] at hx
  exact p.step hi hm hx (k (behind [i] p rfl (undisturbed_execute hm hx)))

theorem leap (block : List Resolved) {after : List Resolved}
    (p : Point spoiled code start stop m s (i :: (block ++ after))) (hi : i.Encodable)
    (hm : i.Mild spoiled) (hx : execute world base s i = branch s (block.length + 1 : Nat))
    (k : Point spoiled code start stop m (s.moveTo (s.position + (block.length + 1))) after →
      Computes spoiled world base code start stop m result
        (s.moveTo (s.position + (block.length + 1)))) :
    Computes spoiled world base code start stop m result s := by
  have hrun : execute world base s i = .running (s.moveTo (s.position + (block.length + 1))) := by
    rw [hx, branch, if_pos (by omega)]
    simp only [Machine.moveTo]
    congr 2
  exact p.step hi hm hrun (k (behind (i :: block) p rfl (.moveTo s _)))

theorem back {after : List Resolved} {s₀ : Machine} (block : List Resolved)
    (p₀ : Point spoiled code start stop m s₀ (block ++ i :: after))
    (p : Point spoiled code start stop m s (i :: after)) (hi : i.Encodable) (hm : i.Mild spoiled)
    (hx : execute world base s i = branch s (-(block.length : Int)))
    (k : Point spoiled code start stop m (s.moveTo s₀.position) (block ++ i :: after) →
      Computes spoiled world base code start stop m result (s.moveTo s₀.position)) :
    Computes spoiled world base code start stop m result s := by
  have hpos : s.position = s₀.position + block.length := by
    have h₀ := p₀.stop
    have h := p.stop
    simp only [List.length_append, List.length_cons] at h₀ h
    omega
  have hrun : execute world base s i = .running (s.moveTo s₀.position) := by
    rw [hx, branch, if_pos (by omega)]
    simp only [Machine.moveTo]
    congr 2
    omega
  exact p.step hi hm hrun (k ⟨p₀.code, p₀.stop, p₀.start, p.same.trans (.moveTo s _)⟩)

theorem finish (p : Point spoiled code start stop m s []) (h : result s) :
    Computes spoiled world base code start stop m result s :=
  .done ⟨p.stop, p.same, h⟩

end Point

end OnePass.Arm64
