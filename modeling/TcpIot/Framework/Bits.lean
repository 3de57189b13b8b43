import Mathlib.Logic.Function.Basic
import Mathlib.Tactic.Common

/-!
# Bits of a byte and cells written one at a time

A byte is read bit by bit with `bit`. Setting or clearing one bit the way C does it, in an `int`
that is then stored in an `unsigned char`, changes that bit only. The second half is about stores
whose cells are written one at a time: the contents after a run are the last writes.
-/

namespace TcpIot.Framework

section Bits

variable (b c : UInt8) (k j : Nat)

def bit (b : UInt8) (k : Nat) : Bool := b.toBitVec.getLsbD k

theorem byte_ext {b c : UInt8} (h : ∀ k < 8, bit b k = bit c k) : b = c := by
  apply UInt8.eq_of_toBitVec_eq
  apply BitVec.eq_of_getLsbD_eq
  exact h

@[simp] theorem bit_and : bit (b &&& c) k = (bit b k && bit c k) := by
  simp only [bit, UInt8.toBitVec_and, BitVec.getLsbD_and]

@[simp] theorem bit_xor : bit (b ^^^ c) k = (bit b k ^^ bit c k) := by
  simp only [bit, UInt8.toBitVec_xor, BitVec.getLsbD_xor]

theorem bit_not {k : Nat} (hk : k < 8) : bit (~~~b) k = !bit b k := by
  simp only [bit, UInt8.toBitVec_not, BitVec.getLsbD_not, hk, decide_true, Bool.true_and]

/-- `b | (1 << k)`, stored in an `unsigned char`. -/
def orBit (b : UInt8) (k : Nat) : UInt8 :=
  .ofBitVec ((b.toBitVec.setWidth 32 ||| (1#32 <<< k)).setWidth 8)

/-- `b & ~(1 << k)`, stored in an `unsigned char`. -/
def andNotBit (b : UInt8) (k : Nat) : UInt8 :=
  .ofBitVec ((b.toBitVec.setWidth 32 &&& ~~~(1#32 <<< k)).setWidth 8)

private theorem shifted_one {j : Nat} (hj : j < 8) :
    (1#32 <<< k).getLsbD j = decide (j = k) := by
  rw [BitVec.getLsbD_shiftLeft, BitVec.getLsbD_one]
  by_cases hjk : j = k
  · simp [hjk, show k < 32 by omega]
  · simp [hjk]
    omega

theorem bit_orBit {j : Nat} (hj : j < 8) : bit (orBit b k) j = (bit b j || decide (j = k)) := by
  have hwide : j < 32 := by omega
  simp only [bit, orBit, UInt8.toBitVec_ofBitVec, BitVec.getLsbD_setWidth, BitVec.getLsbD_or,
    shifted_one k hj, hj, hwide, decide_true, Bool.true_and]

theorem bit_andNotBit {j : Nat} (hj : j < 8) :
    bit (andNotBit b k) j = (bit b j && !decide (j = k)) := by
  have hwide : j < 32 := by omega
  simp only [bit, andNotBit, UInt8.toBitVec_ofBitVec, BitVec.getLsbD_setWidth, BitVec.getLsbD_and,
    BitVec.getLsbD_not, shifted_one k hj, hj, hwide, decide_true, Bool.true_and]

theorem bit_log2 {b : UInt8} (hb : b ≠ 0) : bit b b.toNat.log2 = true := by
  have hne : b.toNat ≠ 0 := fun h => hb (UInt8.toNat_inj.mp h)
  exact Nat.testBit_log2 hne

theorem bit_above_log2 {b : UInt8} {k : Nat} (hk : b.toNat.log2 < k) : bit b k = false :=
  Nat.testBit_lt_two_pow
    (Nat.lt_of_lt_of_le Nat.lt_log2_self (Nat.pow_le_pow_right (by decide) hk))

theorem log2_lt_eight : b.toNat.log2 < 8 := by
  by_cases hb : b.toNat = 0
  · simp [hb]
  · exact (Nat.log2_lt hb).mpr b.toNat_lt

theorem and_eq_mask_iff {mask : UInt8} {top : Nat} (htop : bit mask top = true)
    (honly : ∀ k < 8, bit mask k = true → k = top) (b : UInt8) :
    mask &&& b = mask ↔ bit b top = true := by
  constructor
  · intro h
    have htopBit := congrArg (fun c => bit c top) h
    simpa [htop] using htopBit
  · intro hb
    apply byte_ext
    intro k hk
    rw [bit_and]
    cases hmask : bit mask k with
    | false => rfl
    | true =>
      rw [honly k hk hmask, hb]
      rfl

end Bits

section Cells

variable {ι β σ : Type*} [DecidableEq ι]

/-- What a run of writes leaves in a cell, when it writes the cell at all. -/
def lastWrite (i : ι) : List (ι × β) → Option β
  | [] => none
  | w :: ws => (lastWrite i ws).or (if w.1 = i then some w.2 else none)

/-- A store in which every step of a run writes one cell holds the last writes of the run. -/
theorem view_foldl {α : Type*} {view : σ → ι → β} {step : σ → α → σ} {write : α → ι × β}
    {as : List α} (hstep : ∀ a ∈ as, ∀ s,
      view (step s a) = Function.update (view s) (write a).1 (write a).2) (s : σ) (i : ι) :
    view (as.foldl step s) i = (lastWrite i (as.map write)).getD (view s i) := by
  induction as generalizing s with
  | nil => rfl
  | cons a as ih =>
    rw [List.foldl_cons, ih fun b hb => hstep b (List.mem_cons_of_mem a hb),
      hstep a List.mem_cons_self, List.map_cons, lastWrite]
    cases lastWrite i (as.map write) with
    | some v => rfl
    | none =>
      rw [Option.none_or, Option.getD_none]
      by_cases hi : (write a).1 = i
      · subst i
        simp
      · rw [Function.update_of_ne (Ne.symm hi), if_neg hi, Option.getD_none]

theorem view_foldl_filterMap {α : Type*} {view : σ → ι → β} {step : σ → α → σ}
    {write : α → Option (ι × β)}
    (hstep : ∀ a s, view (step s a) =
      (write a).elim (view s) fun w => Function.update (view s) w.1 w.2) (as : List α) (s : σ)
    (i : ι) :
    view (as.foldl step s) i = (lastWrite i (as.filterMap write)).getD (view s i) := by
  induction as generalizing s with
  | nil => rfl
  | cons a as ih =>
    rw [List.foldl_cons, ih, hstep]
    cases hwrite : write a with
    | none => rw [List.filterMap_cons_none hwrite, Option.elim_none]
    | some w =>
      rw [List.filterMap_cons_some hwrite, lastWrite, Option.elim_some]
      cases lastWrite i (as.filterMap write) with
      | some v => rfl
      | none =>
        rw [Option.none_or, Option.getD_none]
        by_cases hi : w.1 = i
        · subst i
          simp
        · rw [Function.update_of_ne (Ne.symm hi), if_neg hi, Option.getD_none]

theorem lastWrite_map {κ γ : Type*} [DecidableEq κ] {f : ι → κ} (hf : Function.Injective f)
    (g : β → γ) (i : ι) (ws : List (ι × β)) :
    lastWrite (f i) (ws.map (Prod.map f g)) = (lastWrite i ws).map g := by
  induction ws with
  | nil => rfl
  | cons w ws ih =>
    rw [List.map_cons, lastWrite, lastWrite, ih, Option.map_or]
    by_cases hi : w.1 = i
    · simp [hi]
    · simp [hi, hf.ne hi]

theorem lastWrite_eq_none {i : ι} {ws : List (ι × β)} (h : ∀ w ∈ ws, w.1 ≠ i) :
    lastWrite i ws = none := by
  induction ws with
  | nil => rfl
  | cons w ws ih =>
    rw [lastWrite, ih fun v hv => h v (List.mem_cons_of_mem w hv),
      if_neg (h w List.mem_cons_self), Option.none_or]

end Cells

end TcpIot.Framework
