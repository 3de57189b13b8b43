import Mathlib.Order.Lattice
import Mathlib.Data.List.Nodup
import Mathlib.Data.List.TakeWhile
import Mathlib.Tactic.Common

/-!
# Ascending lists as finite maps

A list whose entries have strictly ascending keys holds at most one entry for a key. Every key
`k` splits it into the entries below `k`, the entry of `k` if there is one, and the entries above.
-/

namespace TcpIot.Framework

variable {ε κ : Type*} [LinearOrder κ] {key : ε → κ}

def Ascending (key : ε → κ) (l : List ε) : Prop := l.Pairwise fun e f => key e < key f

def below (key : ε → κ) (k : κ) (l : List ε) : List ε := l.takeWhile fun e => key e < k

def above (key : ε → κ) (k : κ) (l : List ε) : List ε := l.dropWhile fun e => key e ≤ k

def lookup (key : ε → κ) (k : κ) (l : List ε) : Option ε := l.find? fun e => key e = k

/-- The list with `e` as the entry of its key. -/
def put (key : ε → κ) (e : ε) (l : List ε) : List ε :=
  below key (key e) l ++ e :: above key (key e) l

/-- The list without an entry of `k`. -/
def erase (key : ε → κ) (k : κ) (l : List ε) : List ε := below key k l ++ above key k l

section Splitting

variable {l : List ε} {k : κ} {e : ε}

theorem key_lt_of_mem_below (h : e ∈ below key k l) : key e < k := by
  simpa using List.mem_takeWhile_imp h

theorem mem_of_mem_below (h : e ∈ below key k l) : e ∈ l :=
  (List.takeWhile_prefix _).subset h

theorem mem_of_mem_above (h : e ∈ above key k l) : e ∈ l :=
  (List.dropWhile_suffix _).subset h

theorem lookup_eq_some (h : lookup key k l = some e) : e ∈ l ∧ key e = k := by
  have hkey := List.find?_some h
  exact ⟨List.mem_of_find?_eq_some h, by simpa using hkey⟩

theorem lookup_eq_none : lookup key k l = none ↔ ∀ e ∈ l, key e ≠ k := by
  simp [lookup]

theorem lookup_append (l₁ l₂ : List ε) :
    lookup key k (l₁ ++ l₂) = (lookup key k l₁).or (lookup key k l₂) := List.find?_append

theorem lookup_cons (e : ε) (l : List ε) :
    lookup key k (e :: l) = if key e = k then some e else lookup key k l := by
  by_cases h : key e = k
  · simp [lookup, h]
  · simp [lookup, h]

theorem Ascending.key_inj (h : Ascending key l) {f : ε} (he : e ∈ l) (hf : f ∈ l)
    (hkey : key e = key f) : e = f := by
  have hkeys : (l.map key).Nodup := List.pairwise_map.mpr (List.Pairwise.imp ne_of_lt h)
  exact List.inj_on_of_nodup_map hkeys he hf hkey

theorem above_eq_self (h : ∀ e ∈ l, k < key e) : above key k l = l := by
  cases l with
  | nil => rfl
  | cons e l =>
    exact List.dropWhile_cons_of_neg (by simpa using h e List.mem_cons_self)

/-- Every key splits an ascending list in three. -/
theorem Ascending.split (h : Ascending key l) (k : κ) :
    l = below key k l ++ ((lookup key k l).toList ++ above key k l) := by
  induction l with
  | nil => rfl
  | cons e l ih =>
    obtain ⟨hhead, htail⟩ := List.pairwise_cons.mp h
    rcases lt_trichotomy (key e) k with hlt | heq | hgt
    · have hbelow : below key k (e :: l) = e :: below key k l :=
        List.takeWhile_cons_of_pos (by simpa using hlt)
      have habove : above key k (e :: l) = above key k l :=
        List.dropWhile_cons_of_pos (by simpa using hlt.le)
      rw [hbelow, habove, lookup_cons, if_neg hlt.ne, List.cons_append, ← ih htail]
    · have hbelow : below key k (e :: l) = [] :=
        List.takeWhile_cons_of_neg (by simp [heq])
      have habove : above key k (e :: l) = above key k l :=
        List.dropWhile_cons_of_pos (by simp [heq])
      rw [hbelow, habove, lookup_cons, if_pos heq, above_eq_self (heq ▸ hhead)]
      rfl
    · have hbelow : below key k (e :: l) = [] :=
        List.takeWhile_cons_of_neg (by simpa using hgt.le)
      have habove : above key k (e :: l) = e :: l :=
        List.dropWhile_cons_of_neg (by simpa using hgt)
      have hnone : lookup key k (e :: l) = none := by
        refine lookup_eq_none.mpr fun f hf => ?_
        rcases List.mem_cons.mp hf with rfl | hf
        · exact hgt.ne'
        · exact (hgt.trans (hhead f hf)).ne'
      rw [hbelow, habove, hnone]
      rfl

theorem Ascending.erase_sublist (h : Ascending key l) (k : κ) : (erase key k l).Sublist l := by
  conv_rhs => rw [h.split k]
  exact List.Sublist.append_left (List.sublist_append_right _ _) _

theorem Ascending.erase (h : Ascending key l) (k : κ) : Ascending key (erase key k l) :=
  List.Pairwise.sublist (h.erase_sublist k) h

theorem Ascending.erase_eq_self (h : Ascending key l) (hlookup : lookup key k l = none) :
    TcpIot.Framework.erase key k l = l := by
  conv_rhs => rw [h.split k, hlookup]
  rfl

theorem key_lt_of_mem_above (h : Ascending key l) (he : e ∈ above key k l) : k < key e := by
  induction l with
  | nil => cases he
  | cons f l ih =>
    obtain ⟨hhead, htail⟩ := List.pairwise_cons.mp h
    by_cases hle : key f ≤ k
    · have habove : above key k (f :: l) = above key k l :=
        List.dropWhile_cons_of_pos (by simpa using hle)
      exact ih htail (habove ▸ he)
    · have habove : above key k (f :: l) = f :: l :=
        List.dropWhile_cons_of_neg (by simpa using hle)
      rw [habove] at he
      rcases List.mem_cons.mp he with rfl | he
      · exact not_le.mp hle
      · exact (not_le.mp hle).trans (hhead e he)

theorem lookup_below_self : lookup key k (below key k l) = none :=
  lookup_eq_none.mpr fun _ he => (key_lt_of_mem_below he).ne

theorem lookup_above_self (h : Ascending key l) : lookup key k (above key k l) = none :=
  lookup_eq_none.mpr fun _ he => (key_lt_of_mem_above h he).ne'

theorem lookup_erase_self (h : Ascending key l) : lookup key k (erase key k l) = none := by
  rw [erase, lookup_append, lookup_below_self, lookup_above_self h, Option.none_or]

theorem lookup_erase_of_ne (h : Ascending key l) {j : κ} (hj : j ≠ k) :
    lookup key j (erase key k l) = lookup key j l := by
  have hmiddle : lookup key j (lookup key k l).toList = none := by
    refine lookup_eq_none.mpr fun e he => ?_
    rw [Option.mem_toList] at he
    rw [(lookup_eq_some he).2]
    exact hj.symm
  conv_rhs => rw [h.split k]
  rw [erase, lookup_append, lookup_append, lookup_append, hmiddle, Option.none_or]

theorem lookup_put_self (e : ε) :
    lookup key (key e) (put key e l) = some e := by
  rw [put, lookup_append, lookup_below_self, lookup_cons, if_pos rfl, Option.none_or]

theorem lookup_put_of_ne (h : Ascending key l) {j : κ} (hj : j ≠ key e) :
    lookup key j (put key e l) = lookup key j l := by
  rw [← lookup_erase_of_ne h hj, put, erase, lookup_append, lookup_append, lookup_cons,
    if_neg hj.symm]

theorem Ascending.put (h : Ascending key l) (e : ε) : Ascending key (put key e l) := by
  have hrest := List.pairwise_append.mp (h.erase (key e))
  refine List.pairwise_append.mpr ⟨hrest.1, List.pairwise_cons.mpr ⟨?_, hrest.2.1⟩, ?_⟩
  · exact fun f hf => key_lt_of_mem_above h hf
  · intro f hf g hg
    rcases List.mem_cons.mp hg with rfl | hg
    · exact key_lt_of_mem_below hf
    · exact hrest.2.2 f hf g hg

theorem Ascending.filterMap_lookup (h : Ascending key l) {ks : List κ}
    (hks : ks.Pairwise (· < ·)) (hkeys : ∀ e ∈ l, key e ∈ ks) :
    (ks.filterMap fun k => lookup key k l) = l := by
  induction ks generalizing l with
  | nil =>
    cases l with
    | nil => rfl
    | cons e l => cases hkeys e List.mem_cons_self
  | cons k ks ih =>
    obtain ⟨hfirst, hlater⟩ := List.pairwise_cons.mp hks
    cases hlookup : lookup key k l with
    | none =>
      have hskip : ((k :: ks).filterMap fun k => lookup key k l) =
          ks.filterMap fun k => lookup key k l := List.filterMap_cons_none hlookup
      rw [hskip]
      exact ih h hlater fun e he =>
        (List.mem_cons.mp (hkeys e he)).resolve_left (lookup_eq_none.mp hlookup e he)
    | some e =>
      obtain ⟨he, rfl⟩ := lookup_eq_some hlookup
      cases l with
      | nil => cases he
      | cons f l =>
        obtain ⟨hhead, htail⟩ := List.pairwise_cons.mp h
        -- No key of the list lies below `key e`, so `e` is its head.
        have hsame : f = e := by
          rcases List.mem_cons.mp he with rfl | hel
          · rfl
          · rcases List.mem_cons.mp (hkeys f List.mem_cons_self) with hkey | hmem
            · exact h.key_inj List.mem_cons_self he hkey
            · exact absurd (hfirst _ hmem) (hhead e hel).not_gt
        subst hsame
        have hrest : (ks.filterMap fun k => lookup key k (f :: l)) =
            ks.filterMap fun k => lookup key k l := by
          refine List.filterMap_congr fun k hk => ?_
          rw [lookup_cons, if_neg (hfirst k hk).ne]
        have htake : ((key f :: ks).filterMap fun k => lookup key k (f :: l)) =
            f :: ks.filterMap fun k => lookup key k (f :: l) := List.filterMap_cons_some hlookup
        rw [htake, hrest, ih htail hlater]
        intro g hg
        exact (List.mem_cons.mp (hkeys g (List.mem_cons_of_mem f hg))).resolve_left (hhead g hg).ne'

end Splitting

end TcpIot.Framework
