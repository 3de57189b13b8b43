import Mathlib.Data.Fintype.Card
import Mathlib.Order.Interval.Finset.Fin
import Mathlib.Data.List.FinRange
import Mathlib.Tactic.Tauto

/-!
# Sweeps over a finite table

A loop that visits the slots of a table in order and rewrites the slots it hits is one `sweep`.
Since a visit only reads its own slot, the loop acts on every slot independently of the order.
The second half relates the number of slots with a property to the property being an initial
segment of the table.
-/

namespace TcpIot.Framework

section Sweep

variable {ι β : Type*} [DecidableEq ι] (hit : ι → β → Prop) [∀ i b, Decidable (hit i b)]
  (f : β → β)

/-- Visit the listed slots in order, rewrite each one that is hit, and list the hits. -/
def sweep : List ι → (ι → β) → (ι → β) × List ι
  | [], t => (t, [])
  | i :: is, t =>
    if hit i (t i) then
      let rest := sweep is (Function.update t i (f (t i)))
      (rest.1, i :: rest.2)
    else sweep is t

theorem sweep_fst (l : List ι) (t : ι → β) (hn : l.Nodup) :
    (sweep hit f l t).1 = fun i => if i ∈ l ∧ hit i (t i) then f (t i) else t i := by
  induction l generalizing t with
  | nil => simp [sweep]
  | cons a as ih =>
    have ha : a ∉ as := (List.nodup_cons.mp hn).1
    funext i
    rw [sweep]
    split
    · rename_i hhit
      simp only [ih _ (List.nodup_cons.mp hn).2]
      by_cases hi : i = a
      · subst i
        simp [ha, hhit]
      · simp [hi]
    · rename_i hmiss
      simp only [ih _ (List.nodup_cons.mp hn).2]
      by_cases hi : i = a
      · subst i
        simp [ha, hmiss]
      · simp [hi]

theorem sweep_snd (l : List ι) (t : ι → β) (hn : l.Nodup) :
    (sweep hit f l t).2 = l.filter fun i => hit i (t i) := by
  induction l generalizing t with
  | nil => rfl
  | cons a as ih =>
    have ha : a ∉ as := (List.nodup_cons.mp hn).1
    rw [sweep]
    split
    · rename_i hhit
      simp only [ih _ (List.nodup_cons.mp hn).2, List.filter_cons, hhit, decide_true, if_true]
      congr 1
      apply List.filter_congr
      intro i hi
      have hne : i ≠ a := fun h => ha (h ▸ hi)
      simp [hne]
    · rename_i hmiss
      simp only [ih _ (List.nodup_cons.mp hn).2, List.filter_cons, hmiss, decide_false]
      rfl

end Sweep

section InitialSegment

variable {n : Nat}

/-- The slots with the property come before all others. -/
def InitialSegment (p : Fin n → Prop) : Prop := ∀ i j, i < j → p j → p i

def slotCount (p : Fin n → Prop) [DecidablePred p] : Nat := (Finset.univ.filter p).card

theorem slotCount_eq_length (p : Fin n → Prop) [DecidablePred p] :
    ((List.finRange n).filter fun i => p i).length = slotCount p := by
  rw [slotCount, ← List.toFinset_card_of_nodup ((List.nodup_finRange n).filter _)]
  congr 1
  ext i
  simp

theorem slotCount_congr {p q : Fin n → Prop} [DecidablePred p] [DecidablePred q]
    (h : ∀ i, p i ↔ q i) : slotCount p = slotCount q := by
  simp only [slotCount, h]

theorem slotCount_eq_zero_iff {p : Fin n → Prop} [DecidablePred p] :
    slotCount p = 0 ↔ ∀ i, ¬ p i := by
  simp [slotCount, Finset.filter_eq_empty_iff]

theorem slotCount_eq_zero {p : Fin n → Prop} [DecidablePred p] (h : ∀ i, ¬ p i) :
    slotCount p = 0 := slotCount_eq_zero_iff.mpr h

theorem slotCount_unique {p : Fin n → Prop} [DecidablePred p] (h : slotCount p ≤ 1) {i j : Fin n}
    (hi : p i) (hj : p j) : i = j :=
  Finset.card_le_one.mp h i (by simpa using hi) j (by simpa using hj)

theorem slotCount_eq_one {p : Fin n → Prop} [DecidablePred p] {k : Fin n}
    (h : ∀ i, p i ↔ i = k) : slotCount p = 1 := by
  refine Finset.card_eq_one.mpr ⟨k, ?_⟩
  ext i
  simp [h]

theorem slotCount_split (p q : Fin n → Prop) [DecidablePred p] [DecidablePred q] :
    slotCount (fun i => p i ∧ q i) + slotCount (fun i => p i ∧ ¬ q i) = slotCount p := by
  have h := Finset.card_filter_add_card_filter_not (s := Finset.univ.filter p) (fun i => q i)
  simpa only [slotCount, Finset.filter_filter] using h

theorem slotCount_insert {p q : Fin n → Prop} [DecidablePred p] [DecidablePred q] {k : Fin n}
    (h : ∀ i, q i ↔ i = k ∨ p i) :
    slotCount q + (if p k then 1 else 0) = slotCount p + 1 := by
  have hq := slotCount_split q fun i => i = k
  have hp := slotCount_split p fun i => i = k
  have hone : slotCount (fun i => q i ∧ i = k) = 1 := by
    refine @slotCount_eq_one n _ _ k fun i => ?_
    rw [h]
    tauto
  have hrest : slotCount (fun i => q i ∧ ¬ i = k) = slotCount (fun i => p i ∧ ¬ i = k) := by
    apply slotCount_congr
    intro i
    rw [h]
    tauto
  have hk : slotCount (fun i => p i ∧ i = k) = if p k then 1 else 0 := by
    split
    · rename_i hpk
      refine @slotCount_eq_one n _ _ k fun i => ?_
      constructor
      · exact fun hi => hi.2
      · rintro rfl
        exact ⟨hpk, rfl⟩
    · rename_i hpk
      apply slotCount_eq_zero
      rintro i ⟨hi, rfl⟩
      exact hpk hi
  omega

theorem slotCount_update {σ : Type*} (P : σ → Prop) [DecidablePred P] (f : Fin n → σ) (k : Fin n)
    (v : σ) :
    slotCount (fun i => P (Function.update f k v i)) + (if P (f k) then 1 else 0) =
      slotCount (fun i => P (f i)) + if P v then 1 else 0 := by
  by_cases hv : P v
  · have hiff : ∀ i, P (Function.update f k v i) ↔ i = k ∨ P (f i) := by
      intro i
      by_cases hi : i = k
      · simp [hi, hv]
      · simp [hi]
    rw [if_pos hv]
    exact slotCount_insert hiff
  · by_cases hk : P (f k)
    · have hiff : ∀ i, P (f i) ↔ i = k ∨ P (Function.update f k v i) := by
        intro i
        by_cases hi : i = k
        · simp [hi, hk]
        · simp [hi]
      have hinsert := slotCount_insert hiff
      rw [Function.update_self, if_neg hv] at hinsert
      rw [if_pos hk, if_neg hv, hinsert]
    · rw [if_neg hk, if_neg hv]
      congr 1
      refine slotCount_congr fun i => ?_
      by_cases hi : i = k
      · simp [hi, hk, hv]
      · simp [hi]

theorem initialSegment_iff (p : Fin n → Prop) [DecidablePred p] :
    InitialSegment p ↔ ∀ i : Fin n, p i ↔ i.val < slotCount p := by
  constructor
  · intro h i
    constructor
    · intro hp
      have hsub : Finset.Iic i ⊆ Finset.univ.filter p := by
        intro j hj
        rcases (Finset.mem_Iic.mp hj).lt_or_eq with hlt | rfl
        · simpa using h j i hlt hp
        · simpa using hp
      have hcard := Finset.card_le_card hsub
      rw [Fin.card_Iic] at hcard
      exact hcard
    · intro hi
      by_contra hp
      have hsub : Finset.univ.filter p ⊆ Finset.Iio i := by
        intro j hj
        have hpj : p j := by simpa using hj
        rw [Finset.mem_Iio]
        by_contra hle
        rcases (not_lt.mp hle).lt_or_eq with hlt | rfl
        · exact hp (h i j hlt hpj)
        · exact hp hpj
      have hcard := Finset.card_le_card hsub
      rw [Fin.card_Iio] at hcard
      exact absurd hi (not_lt.mpr hcard)
  · intro h i j hij hp
    exact (h i).mpr (lt_trans (Fin.lt_def.mp hij) ((h j).mp hp))

end InitialSegment

end TcpIot.Framework
