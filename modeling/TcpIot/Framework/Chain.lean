import Mathlib.Data.Fintype.Card
import Mathlib.Tactic.Common

/-!
# Linked chains of heap cells

A heap maps addresses to cells; an address without a live cell has `none`. `Segment` lists the
cells that the `next` pointers lead through, each with the part of it that `pay` reads, and
`walk` is the loop that looks for a cell and keeps a pointer to the one before.
-/

namespace TcpIot.Framework

variable {ι ν α : Type*} {pay : ν → α} {next : ν → Option ι}

/-- From `p` the pointers lead through the cells of the list to `q`. -/
def Segment (pay : ν → α) (next : ν → Option ι) (heap : ι → Option ν) :
    Option ι → List (ι × α) → Option ι → Prop
  | p, [], q => p = q
  | p, (a, x) :: l, q =>
    p = some a ∧ ∃ c, heap a = some c ∧ pay c = x ∧ Segment pay next heap (next c) l q

/-- `for(cur = prev = p; cur != NULL; prev = cur, cur = cur->next)` up to the first cell that
meets `stop`: the trailing pointer, and that cell if there is one. Undefined when a dead cell is
read, and when the fuel runs out. -/
def walk (pay : ν → α) (next : ν → Option ι) (stop : α → Bool) (heap : ι → Option ν) :
    Nat → Option ι → Option ι → Option (Option ι × Option (ι × ν))
  | 0, _, _ => none
  | _ + 1, prev, none => some (prev, none)
  | fuel + 1, prev, some a =>
    (heap a).bind fun c =>
      if stop (pay c) then some (prev, some (a, c))
      else walk pay next stop heap fuel (some a) (next c)

section Cells

variable {β : Type*} [DecidableEq ι] (heap : ι → Option β) (a : ι)

/-- `malloc` with the address `a`, which must not be live, and the first store. -/
def alloc (v : β) : Option (ι → Option β) :=
  if (heap a).isSome then none else some (Function.update heap a (some v))

def free : Option (ι → Option β) :=
  if (heap a).isSome then some (Function.update heap a none) else none

def store (f : β → β) : Option (ι → Option β) :=
  (heap a).map fun c => Function.update heap a (some (f c))

variable {heap a}

theorem alloc_eq (h : heap a = none) (v : β) :
    alloc heap a v = some (Function.update heap a (some v)) := by
  simp [alloc, h]

theorem free_eq {c : β} (h : heap a = some c) :
    free heap a = some (Function.update heap a none) := by
  simp [free, h]

theorem store_eq {c : β} (h : heap a = some c) (f : β → β) :
    store heap a f = some (Function.update heap a (some (f c))) := by
  simp [store, h]

end Cells

/-- The address of the last cell, or `prev` when there is none. -/
def lastAddr (l : List (ι × α)) (prev : Option ι) : Option ι :=
  (l.getLast?.map Prod.fst).or prev

@[simp] theorem lastAddr_nil (prev : Option ι) : lastAddr ([] : List (ι × α)) prev = prev := rfl

@[simp] theorem lastAddr_concat (l : List (ι × α)) (a : ι) (x : α) (prev : Option ι) :
    lastAddr (l ++ [(a, x)]) prev = some a := by
  simp [lastAddr]

theorem lastAddr_cons (l : List (ι × α)) (a : ι) (x : α) (prev : Option ι) :
    lastAddr ((a, x) :: l) prev = lastAddr l (some a) := by
  cases l using List.reverseRec with
  | nil => rfl
  | append_singleton l last =>
    rw [← List.cons_append, lastAddr_concat, lastAddr_concat]

section Segments

variable {heap heap' : ι → Option ν} {p q : Option ι} {l l₁ l₂ : List (ι × α)}

@[simp] theorem segment_nil : Segment pay next heap p [] q ↔ p = q := Iff.rfl

theorem segment_cons {a : ι} {x : α} :
    Segment pay next heap p ((a, x) :: l) q ↔
      p = some a ∧ ∃ c, heap a = some c ∧ pay c = x ∧ Segment pay next heap (next c) l q :=
  Iff.rfl

theorem segment_append :
    Segment pay next heap p (l₁ ++ l₂) q ↔
      ∃ r, Segment pay next heap p l₁ r ∧ Segment pay next heap r l₂ q := by
  induction l₁ generalizing p with
  | nil => simp
  | cons y l₁ ih =>
    obtain ⟨a, x⟩ := y
    simp only [List.cons_append, segment_cons, ih]
    constructor
    · rintro ⟨hp, c, hc, hpay, r, hleft, hright⟩
      exact ⟨r, ⟨hp, c, hc, hpay, hleft⟩, hright⟩
    · rintro ⟨r, ⟨hp, c, hc, hpay, hleft⟩, hright⟩
      exact ⟨hp, c, hc, hpay, r, hleft, hright⟩

theorem Segment.of_mem (h : Segment pay next heap p l q) {y : ι × α} (hy : y ∈ l) :
    ∃ c, heap y.1 = some c ∧ pay c = y.2 := by
  obtain ⟨l₁, l₂, rfl⟩ := List.append_of_mem hy
  obtain ⟨r, -, hrest⟩ := segment_append.mp h
  obtain ⟨-, c, hc, hpay, -⟩ := segment_cons.mp hrest
  exact ⟨c, hc, hpay⟩

theorem Segment.not_mem {a : ι} (h : Segment pay next heap p l q) (ha : heap a = none) :
    a ∉ l.map Prod.fst := by
  intro hmem
  obtain ⟨y, hy, rfl⟩ := List.mem_map.mp hmem
  obtain ⟨c, hc, -⟩ := h.of_mem hy
  cases ha.symm.trans hc

/-- A segment depends on its own cells only. -/
theorem Segment.transport (h : Segment pay next heap p l q)
    (hsame : ∀ y ∈ l, heap' y.1 = heap y.1) : Segment pay next heap' p l q := by
  induction l generalizing p with
  | nil => exact h
  | cons y l ih =>
    obtain ⟨hp, c, hc, hpay, hrest⟩ := h
    have hhead := hsame y List.mem_cons_self
    exact ⟨hp, c, hhead.trans hc, hpay,
      ih hrest fun z hz => hsame z (List.mem_cons_of_mem y hz)⟩

theorem Segment.unique {l' : List (ι × α)} (h : Segment pay next heap p l none)
    (h' : Segment pay next heap p l' none) : l = l' := by
  induction l generalizing p l' with
  | nil =>
    cases l' with
    | nil => rfl
    | cons y l' =>
      rw [segment_nil] at h
      cases h.symm.trans h'.1
  | cons y l ih =>
    obtain ⟨hp, c, hc, hpay, hrest⟩ := h
    cases l' with
    | nil =>
      rw [segment_nil] at h'
      cases h'.symm.trans hp
    | cons z l' =>
      obtain ⟨hp', c', hc', hpay', hrest'⟩ := h'
      have haddr : y.1 = z.1 := Option.some.inj (hp.symm.trans hp')
      have hcell : c = c' := Option.some.inj (hc.symm.trans ((congrArg heap haddr).trans hc'))
      subst hcell
      rw [ih hrest hrest', Prod.ext haddr (hpay.symm.trans hpay')]

theorem Segment.nodup (h : Segment pay next heap p l none) : (l.map Prod.fst).Nodup := by
  induction l generalizing p with
  | nil => exact List.nodup_nil
  | cons y l ih =>
    obtain ⟨hp, c, hc, hpay, hrest⟩ := id h
    refine List.nodup_cons.mpr ⟨fun hmem => ?_, ih hrest⟩
    obtain ⟨z, hz, haddr⟩ := List.mem_map.mp hmem
    obtain ⟨l₁, l₂, rfl⟩ := List.append_of_mem hz
    obtain ⟨r, -, hagain⟩ := segment_append.mp hrest
    have hstart : r = p := by rw [hagain.1, hp, haddr]
    rw [hstart] at hagain
    have hlen := congrArg List.length (h.unique hagain)
    simp only [List.length_cons, List.length_append] at hlen
    omega

theorem Segment.length_le_card [Fintype ι] (h : Segment pay next heap p l none) :
    l.length ≤ Fintype.card ι := by
  have hcard := h.nodup.length_le_card
  rwa [List.length_map] at hcard

theorem Segment.update [DecidableEq ι] {a : ι} (h : Segment pay next heap p l q)
    (ha : a ∉ l.map Prod.fst) (v : Option ν) :
    Segment pay next (Function.update heap a v) p l q := by
  refine h.transport fun y hy => Function.update_of_ne (fun heq => ha ?_) _ _
  exact heq ▸ List.mem_map_of_mem hy

theorem Segment.redirect [DecidableEq ι] {a : ι} {x : α} {c : ν}
    (h : Segment pay next heap p (l ++ [(a, x)]) q) (ha : a ∉ l.map Prod.fst) (hc : pay c = x) :
    Segment pay next (Function.update heap a (some c)) p (l ++ [(a, x)]) (next c) := by
  obtain ⟨r, hleft, hlast⟩ := segment_append.mp h
  refine segment_append.mpr ⟨r, hleft.update ha _, hlast.1, c, ?_, hc, rfl⟩
  exact Function.update_self _ _ _

private theorem Segment.apart {a : ι} {x : α}
    (h : Segment pay next heap p (l₁ ++ [(a, x)]) q)
    (hrest : Segment pay next heap q l₂ none) :
    a ∉ l₁.map Prod.fst ∧ a ∉ l₂.map Prod.fst := by
  have hnodup := (segment_append.mpr ⟨q, h, hrest⟩).nodup
  rw [List.map_append, List.map_append, List.nodup_append] at hnodup
  constructor
  · exact fun hmem => (List.nodup_append.mp hnodup.1).2.2 a hmem a (by simp) rfl
  · exact fun hmem => hnodup.2.2 a (by simp) a hmem rfl

section Edits

variable [DecidableEq ι] {a b : ι} {x : α} {c d : ν}

/-- A fresh cell `b` is linked in behind `a`. -/
theorem Segment.link (h : Segment pay next heap p (l₁ ++ [(a, x)]) q)
    (hrest : Segment pay next heap q l₂ none) (hb : heap b = none) (hd : next d = q)
    (hc : pay c = x) (hnext : next c = some b) :
    Segment pay next (Function.update (Function.update heap b (some d)) a (some c)) p
      (l₁ ++ [(a, x)] ++ (b, pay d) :: l₂) none := by
  obtain ⟨hleft, hright⟩ := h.apart hrest
  have hne : b ≠ a := by
    rintro rfl
    exact h.not_mem hb (by simp)
  have hfront := (h.update (h.not_mem hb) (some d)).redirect hleft hc
  rw [hnext] at hfront
  refine segment_append.mpr ⟨_, hfront, rfl, d, ?_, rfl, ?_⟩
  · rw [Function.update_of_ne hne, Function.update_self]
  · rw [hd]
    exact (hrest.update (hrest.not_mem hb) _).update hright _

/-- The cell `b` behind `a` is unlinked and freed. -/
theorem Segment.unlink (h : Segment pay next heap p (l₁ ++ [(a, x)]) (some b))
    (hb : heap b = some d) (hrest : Segment pay next heap (next d) l₂ none)
    (hc : pay c = x) (hnext : next c = next d) :
    b ≠ a ∧ Segment pay next (Function.update (Function.update heap a (some c)) b none) p
      (l₁ ++ [(a, x)] ++ l₂) none := by
  have hwhole : Segment pay next heap (some b) ((b, pay d) :: l₂) none := ⟨rfl, d, hb, rfl, hrest⟩
  have hnodup := (segment_append.mpr ⟨_, h, hwhole⟩).nodup
  rw [List.map_append, List.map_cons, List.nodup_middle, List.nodup_cons, List.mem_append,
    not_or] at hnodup
  obtain ⟨hleft, hright⟩ := h.apart hwhole
  rw [List.map_cons, List.mem_cons, not_or] at hright
  have hfront := h.redirect hleft hc
  rw [hnext] at hfront
  refine ⟨Ne.symm hright.1, segment_append.mpr ⟨_, hfront.update hnodup.1.1 _, ?_⟩⟩
  exact (hrest.update hright.2 _).update hnodup.1.2 _

end Edits

theorem walk_skip {stop : α → Bool} (h : Segment pay next heap p l q)
    (hskip : ∀ y ∈ l, stop y.2 = false) (fuel : Nat) (prev : Option ι) :
    walk pay next stop heap (l.length + fuel) prev p =
      walk pay next stop heap fuel (lastAddr l prev) q := by
  induction l generalizing p prev with
  | nil =>
    rw [segment_nil] at h
    rw [h, List.length_nil, Nat.zero_add, lastAddr_nil]
  | cons y l ih =>
    obtain ⟨rfl, c, hc, hpay, hrest⟩ := h
    have hy := hskip y List.mem_cons_self
    rw [List.length_cons, Nat.add_right_comm, walk, hc, Option.bind_some, hpay, hy, lastAddr_cons]
    exact ih hrest (fun z hz => hskip z (List.mem_cons_of_mem y hz)) (some y.1)

theorem walk_null {stop : α → Bool} (h : Segment pay next heap p l none)
    (hskip : ∀ y ∈ l, stop y.2 = false) {fuel : Nat} (hfuel : l.length < fuel)
    (prev : Option ι) :
    walk pay next stop heap fuel prev p = some (lastAddr l prev, none) := by
  obtain ⟨k, rfl⟩ := Nat.exists_eq_add_of_lt hfuel
  rw [Nat.add_assoc, walk_skip h hskip]
  rfl

theorem walk_stop {stop : α → Bool} {a : ι} {c : ν} (h : Segment pay next heap p l (some a))
    (hskip : ∀ y ∈ l, stop y.2 = false) (hc : heap a = some c) (hstop : stop (pay c) = true)
    {fuel : Nat} (hfuel : l.length < fuel) (prev : Option ι) :
    walk pay next stop heap fuel prev p = some (lastAddr l prev, some (a, c)) := by
  obtain ⟨k, rfl⟩ := Nat.exists_eq_add_of_lt hfuel
  rw [Nat.add_assoc, walk_skip h hskip, walk, hc, Option.bind_some, if_pos hstop]

end Segments

end TcpIot.Framework
