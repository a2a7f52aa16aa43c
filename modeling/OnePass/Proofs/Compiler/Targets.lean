import OnePass.Proofs.Arm64.Lowering
import OnePass.Proofs.Compiler.Linking
import OnePass.Proofs.X86.Lowering

/-!
# The two targets

Both targets write every operation that compilation uses, as the bytes of its instructions, and list
these instructions.
-/

set_option autoImplicit false

namespace OnePass

open Native (Used)

namespace X86

theorem length_single_le {i : Named} {is : List Resolved} (h : single i = some is) :
    is.length ≤ 16 := by
  obtain ⟨r, -, rfl⟩ := Option.map_eq_some_iff.1 h
  simp

theorem length_lower?_le {o : Operation} {is : List Resolved} (h : lower? o = some is) :
    is.length ≤ 16 := by
  cases o with
  | prologue | epilogue | call a =>
    cases h
    simp
  | loadImmediate r v | intToFloat f r | intNegate r => exact length_single_le h
  | loadFloat f a | push r | pop r | pushFloat f | popFloat f | floatNegate f =>
    obtain ⟨x, -, rfl⟩ := Option.map_eq_some_iff.1 h
    simp
  | move d s | moveFloat d s =>
    simp only [lower?] at h
    split at h
    · cases h
      simp
    · exact length_single_le h
  | floatToInt r f =>
    simp [lower?, Option.bind_eq_some_iff] at h
    obtain ⟨r, -, x, -, rfl⟩ := h
    simp [saturationCode]
  | intBinary op d s =>
    cases op with
    | add | sub | mul => exact length_single_le h
    | div | mod =>
      simp only [lower?] at h
      split at h
      · cases h
      · obtain ⟨x, -, rfl⟩ := Option.map_eq_some_iff.1 h
        simp [divisionCode]
    | pow =>
      simp only [lower?] at h
      split at h
      · cases h
      · simp [Option.bind_eq_some_iff] at h
        obtain ⟨r, -, x, -, rfl⟩ := h
        simp [powerCode, roundCode, bitCode]
    | unknown => cases h
  | floatBinary op d s =>
    cases op <;> first | exact length_single_le h | cases h

theorem lower?_of_used {s : Symbols} {o : Operation} (h : Used ⟨roles, s⟩ o) :
    (lower? o).isSome := by
  cases h with
  | intBinary op hop => cases op <;> first | exact absurd rfl hop | rfl
  | floatBinary op hop => rcases hop with rfl | rfl | rfl | rfl <;> rfl
  | _ => rfl

def encoder : Encoder target where
  bytes? o := (lower? o).map encodeAll
  written h ho := by
    obtain ⟨is, hl, rfl⟩ := Option.map_eq_some_iff.1 ho
    exact perform_written h hl
  length_le ho := by
    obtain ⟨is, hl, rfl⟩ := Option.map_eq_some_iff.1 ho
    have hsize := codeSize_le is
    have hlen := length_lower?_le hl
    unfold codeSize at hsize
    unfold operationRoom
    omega
  used h := (Option.isSome_map ..).trans (lower?_of_used h)
  prologue := rfl
  epilogue := rfl

def lister : Lister encoder Instr.encode Instr.ShownAs where
  lower? := lower?
  bytes?_eq _ := rfl
  assembled h ho := perform_assembled h ho

theorem encode_eq (os : List Operation) : encoder.encode os = encodeAll (lowerAll os) :=
  lister.encode_eq os

end X86

namespace Arm64

theorem length_single_le {i : Named} {is : List Resolved} (h : single i = some is) :
    is.length ≤ 16 := by
  obtain ⟨r, -, rfl⟩ := Option.map_eq_some_iff.1 h
  simp

theorem length_wideCode_le (r : Gp) (v : UInt64) : (wideCode r v).length ≤ 4 := by
  have h := List.length_filter_le (fun half => halfword v half ≠ 0) [1, 2, 3]
  rw [wideCode, List.length_cons, List.length_map]
  exact Nat.succ_le_succ h

theorem length_lower?_le {o : Operation} {is : List Resolved} (h : lower? o = some is) :
    is.length ≤ 16 := by
  have hwide := length_wideCode_le
  cases o with
  | prologue | epilogue =>
    cases h
    decide
  | call a =>
    cases h
    have := hwide ⟨16⟩ a
    simp
    omega
  | loadImmediate r v =>
    obtain ⟨x, -, rfl⟩ := Option.map_eq_some_iff.1 h
    exact Nat.le_trans (hwide x v) (by decide)
  | loadFloat f a =>
    obtain ⟨x, -, rfl⟩ := Option.map_eq_some_iff.1 h
    have := hwide ⟨16⟩ a
    simp
    omega
  | push r | pop r | pushFloat f | popFloat f | floatNegate f | intToFloat f r | intNegate r
  | floatToInt r f => exact length_single_le h
  | move d s | moveFloat d s =>
    simp only [lower?] at h
    split at h
    · cases h
      simp
    · exact length_single_le h
  | intBinary op d s =>
    cases op with
    | add | sub | mul | div => exact length_single_le h
    | mod =>
      simp [lower?, Option.bind_eq_some_iff] at h
      obtain ⟨r, -, x, -, rfl⟩ := h
      simp [moduloCode]
    | pow =>
      simp only [lower?] at h
      split at h
      · cases h
      · simp [Option.bind_eq_some_iff] at h
        obtain ⟨r, -, x, -, rfl⟩ := h
        simp [powerCode, roundCode]
    | unknown => cases h
  | floatBinary op d s =>
    cases op <;> first | exact length_single_le h | cases h

theorem lower?_of_used {s : Symbols} {o : Operation} (h : Used ⟨roles, s⟩ o) :
    (lower? o).isSome := by
  cases h with
  | intBinary op hop => cases op <;> first | exact absurd rfl hop | rfl
  | floatBinary op hop => rcases hop with rfl | rfl | rfl | rfl <;> rfl
  | _ => rfl

def encoder : Encoder target where
  bytes? o := (lower? o).map encodeAll
  written h ho := by
    obtain ⟨is, hl, rfl⟩ := Option.map_eq_some_iff.1 ho
    exact perform_written h hl
  length_le ho := by
    obtain ⟨is, hl, rfl⟩ := Option.map_eq_some_iff.1 ho
    have hlen := length_lower?_le hl
    rw [length_encodeAll, operationRoom]
    omega
  used h := (Option.isSome_map ..).trans (lower?_of_used h)
  prologue := rfl
  epilogue := rfl

def lister : Lister encoder (fun i : Resolved => littleEndian 4 i.word.toNat) Instr.ShownAs where
  lower? := lower?
  bytes?_eq _ := rfl
  assembled h ho := perform_assembled h ho

theorem encode_eq (os : List Operation) : encoder.encode os = encodeAll (lowerAll os) :=
  lister.encode_eq os

end Arm64

end OnePass
