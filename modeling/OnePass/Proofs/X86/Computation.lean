import OnePass.Proofs.X86.Stepping

/-!
# Computations of the x86-64 machine

Instructions that only compute: they set registers that may be spoiled and flags, and leave memory
and all other general purpose registers alone. Which registers may be spoiled is a parameter. A
computation is followed from one point of its code to the next.
-/

set_option autoImplicit false

namespace OnePass.X86

def Gp.volatile (r : Gp) : Bool := r.index.val ∈ [0, 1, 2, 6, 7, 8, 9, 10, 11]

structure Undisturbed (spoiled : Gp → Bool) (m m' : Machine) : Prop where
  ram : m'.ram = m.ram
  free : m'.free = m.free
  kept : ∀ r : Gp, spoiled r = false → m'.get r = m.get r

namespace Undisturbed

variable {spoiled : Gp → Bool} {m m' m'' : Machine}

theorem of_gp (hr : m'.ram = m.ram) (hf : m'.free = m.free) (hg : m'.gp = m.gp) :
    Undisturbed spoiled m m' := ⟨hr, hf, fun r _ => by simp only [Machine.get, hg]⟩

theorem refl (m : Machine) : Undisturbed spoiled m m := .of_gp rfl rfl rfl

theorem advance (m : Machine) (n : Nat) : Undisturbed spoiled m (m.advance n) := .of_gp rfl rfl rfl

theorem trans (h : Undisturbed spoiled m m') (h' : Undisturbed spoiled m' m'') :
    Undisturbed spoiled m m'' :=
  ⟨h'.ram.trans h.ram, h'.free.trans h.free, fun r hr => (h'.kept r hr).trans (h.kept r hr)⟩

theorem set {r : Gp} (hr : spoiled r = true) (m : Machine) (v : UInt64) :
    Undisturbed spoiled m (m.set r v) := by
  refine ⟨rfl, rfl, fun s hs => ?_⟩
  have hne : r ≠ s := by
    rintro rfl
    simp [hr] at hs
  simp [hne]

end Undisturbed

def Instr.Mild (spoiled : Gp → Bool) : Resolved → Prop
  | .movImm d _ => spoiled d = true
  | .mov d _ => spoiled d = true
  | .xor32 d => spoiled d = true
  | .add d _ => spoiled d = true
  | .sub d _ => spoiled d = true
  | .imul d _ => spoiled d = true
  | .neg d => spoiled d = true
  | .sarOne d => spoiled d = true
  | .not d => spoiled d = true
  | .cvttsd2si d _ => spoiled d = true
  | .loadSd .. => True
  | .movEdx _ => spoiled .rdx = true
  | .cqo => spoiled .rdx = true
  | .idiv _ => spoiled .rax = true ∧ spoiled .rdx = true
  | .test .. => True
  | .testImm .. => True
  | .cmpImm .. => True
  | .jump .. => True
  | .sse .. => True
  | .xorpd .. => True
  | .ucomisd .. => True
  | .movq .. => True
  | .cvtsi2sd .. => True
  | _ => False

theorem undisturbed_execute {spoiled : Gp → Bool} {world : World Machine} {base : UInt64}
    {i : Resolved}
    {s s' : Machine} (hi : i.Mild spoiled) (hx : execute world base s i = .running s') :
    Undisturbed spoiled s s' := by
  cases i with
  | movImm d v | mov d v | xor32 d | add d v | sub d v | imul d v | neg d | sarOne d | not d
  | cvttsd2si d v =>
    cases hx
    exact (Undisturbed.set hi s _).trans (.of_gp rfl rfl rfl)
  | movEdx v | cqo =>
    cases hx
    exact .set hi _ _
  | idiv r =>
    simp only [execute] at hx
    split at hx
    · cases hx
      exact ((Undisturbed.set hi.1 s _).trans (.set hi.2 _ _)).trans (.of_gp rfl rfl rfl)
    · cases hx
  | jump opcode d =>
    simp only [execute] at hx
    split at hx
    · split at hx
      · cases hx
        exact .of_gp rfl rfl rfl
      · cases hx
    · cases hx
      exact .refl _
    · cases hx
  | loadSd x r | test a b | testImm r v | cmpImm r v | sse op x y | xorpd x y | ucomisd x y
  | movq x r | cvtsi2sd x r =>
    cases hx
    exact .of_gp rfl rfl rfl
  | _ => exact hi.elim

structure Computing (spoiled : Gp → Bool) (code : Array UInt8) (start stop : Nat)
    (m s : Machine) : Prop where
  low : start ≤ s.position
  high : s.position < stop
  same : Undisturbed spoiled m s
  mild : ∃ i, fetch code s = some i ∧ i.Mild spoiled

def Computes (spoiled : Gp → Bool) (world : World Machine) (base : UInt64) (code : Array UInt8)
    (start stop : Nat) (m : Machine) (result : Machine → Prop) (s : Machine) : Prop :=
  Leads (successor (step world base code)) (fun _ => False) (Computing spoiled code start stop m)
    (fun s' => s'.position = stop ∧ Undisturbed spoiled m s' ∧ result s') s

structure Point (spoiled : Gp → Bool) (code : Array UInt8) (start stop : Nat) (m s : Machine)
    (is : List Resolved) : Prop where
  code : CodeAt code s.position is
  stop : s.position + codeSize is = stop
  start : start ≤ s.position
  same : Undisturbed spoiled m s

theorem Instr.encode_length_pos (i : Resolved) : 0 < i.encode.length := by
  cases i <;> simp [Instr.encode, Instr.pieces, regReg]

theorem Instr.Mild.plain {spoiled : Gp → Bool} {i : Resolved} (h : i.Mild spoiled) :
    i.plain = i := by
  cases i <;> first | rfl | exact h.elim

namespace Point

variable {spoiled : Gp → Bool} {world : World Machine} {base : UInt64} {code : Array UInt8}
  {start stop : Nat} {m s : Machine} {i : Resolved} {is : List Resolved} {result : Machine → Prop}

theorem first (h : CodeAt code m.position is) :
    Point spoiled code m.position (m.position + codeSize is) m m is :=
  ⟨h, rfl, Nat.le_refl _, .refl m⟩

theorem step (p : Point spoiled code start stop m s (i :: is)) (hi : i.Encodable)
    (hm : i.Mild spoiled) {s' : Machine}
    (hx : execute world base (s.advance i.encode.length) i = .running s')
    (k : Computes spoiled world base code start stop m result s') :
    Computes spoiled world base code start stop m result s := by
  have hpos := i.encode_length_pos
  have hstop := p.stop
  rw [codeSize_cons] at hstop
  refine .step ⟨p.start, by omega, p.same, i, ?_, hm⟩ ?_ k
  · rw [fetch_at p.code hi, hm.plain]
  · rw [successor, step_at p.code hi, hm.plain, hx]

theorem behind (p : Point spoiled code start stop m s (i :: is)) {s' : Machine}
    (hp : s'.position = s.position + i.encode.length) (hs : Undisturbed spoiled s s') :
    Point spoiled code start stop m s' is where
  code := by
    have h := CodeAt.right [i] p.code
    simpa [hp, codeSize] using h
  stop := by
    rw [← p.stop, hp, codeSize_cons, Nat.add_assoc]
  start := by
    have := p.start
    omega
  same := p.same.trans hs

theorem plain (p : Point spoiled code start stop m s (i :: is)) (hi : i.Encodable)
    (hm : i.Mild spoiled) {s' : Machine}
    (hx : execute world base (s.advance i.encode.length) i = .running s')
    (hp : s'.position = s.position + i.encode.length)
    (k : Point spoiled code start stop m s' is →
      Computes spoiled world base code start stop m result s') :
    Computes spoiled world base code start stop m result s :=
  p.step hi hm hx (k (p.behind hp
    ((Undisturbed.advance s _).trans (undisturbed_execute hm hx))))

theorem fall {opcode : UInt8} {d : Int8}
    (p : Point spoiled code start stop m s (.jump opcode d :: is))
    (ho : isShortJump opcode = true) (ht : taken? opcode s.flags = some false)
    (k : Point spoiled code start stop m (s.advance 2) is →
      Computes spoiled world base code start stop m result (s.advance 2)) :
    Computes spoiled world base code start stop m result s :=
  p.plain ho trivial (by simp [execute, ht, length_encode_jump]) rfl k

theorem skip {opcode : UInt8} {d : Int8} (block : List Resolved) {after : List Resolved}
    (p : Point spoiled code start stop m s (.jump opcode d :: is)) (ho : isShortJump opcode = true)
    (hd : d = Int8.ofNat (codeSize block)) (hs : is = block ++ after) (hl : block.length ≤ 12)
    (ht : taken? opcode s.flags = some true)
    (k : Point spoiled code start stop m (s.advance (2 + codeSize block)) after →
      Computes spoiled world base code start stop m result (s.advance (2 + codeSize block))) :
    Computes spoiled world base code start stop m result s := by
  subst hs
  have hsize := codeSize_le block
  have hint : d.toInt = codeSize block := by
    rw [hd]
    exact Int8.toInt_ofNat_of_lt (by omega)
  have hx : execute world base (s.advance (Instr.jump opcode d : Resolved).encode.length)
      (.jump opcode d) = .running (s.advance (2 + codeSize block)) := by
    rw [length_encode_jump]
    simp only [execute, Machine.flags_advance, ht, hint, Machine.position_advance]
    rw [if_pos (by omega)]
    simp only [Machine.advance, Machine.moveTo]
    congr 2
    omega
  refine p.step ho trivial hx (k ⟨?_, ?_, ?_, p.same.trans (.advance s _)⟩)
  · have h := CodeAt.right (.jump opcode d :: block) p.code
    simpa [length_encode_jump] using h
  · rw [← p.stop]
    simp [length_encode_jump]
    omega
  · have := p.start
    simp
    omega

theorem leap {opcode : UInt8} {block after : List Resolved}
    (p : Point spoiled code start stop m s (forward opcode block :: is))
    (ho : isShortJump opcode = true) (hs : is = block ++ after) (hl : block.length ≤ 12)
    (ht : taken? opcode s.flags = some true)
    (k : Point spoiled code start stop m (s.advance (2 + codeSize block)) after →
      Computes spoiled world base code start stop m result (s.advance (2 + codeSize block))) :
    Computes spoiled world base code start stop m result s :=
  skip block p ho rfl hs hl ht k

theorem back {opcode : UInt8} {block after : List Resolved} {s₀ : Machine}
    (p₀ : Point spoiled code start stop m s₀ (block ++ backward opcode block :: after))
    (p : Point spoiled code start stop m s (backward opcode block :: after))
    (ho : isShortJump opcode = true) (hl : block.length ≤ 12)
    (ht : taken? opcode s.flags = some true)
    (k : Point spoiled code start stop m (s.moveTo s₀.position)
        (block ++ backward opcode block :: after) →
      Computes spoiled world base code start stop m result (s.moveTo s₀.position)) :
    Computes spoiled world base code start stop m result s := by
  have hsize := codeSize_le block
  have hpos : s.position = s₀.position + codeSize block := by
    have h₀ := p₀.stop
    have h := p.stop
    simp only [codeSize_append, codeSize_cons] at h₀ h
    omega
  have hd : (-Int8.ofNat (codeSize block + 2)).toInt = -(codeSize block + 2 : Nat) := by
    rw [Int8.toInt_neg, Int8.toInt_ofNat_of_lt (by omega),
      Int.bmod_eq_of_le (by omega) (by omega)]
  have hx : execute world base (s.advance (backward opcode block).encode.length)
      (backward opcode block) = .running (s.moveTo s₀.position) := by
    have hlen : (backward opcode block).encode.length = 2 := rfl
    rw [hlen]
    simp only [backward, execute, Machine.flags_advance, ht, hd, Machine.position_advance]
    rw [if_pos (by omega)]
    simp only [Machine.advance, Machine.moveTo]
    congr 2
    omega
  exact p.step ho trivial hx
    (k ⟨p₀.code, p₀.stop, p₀.start, p.same.trans (.of_gp rfl rfl rfl)⟩)

theorem finish (p : Point spoiled code start stop m s []) (h : result s) :
    Computes spoiled world base code start stop m result s :=
  .done ⟨p.stop, p.same, h⟩

end Point

end OnePass.X86
