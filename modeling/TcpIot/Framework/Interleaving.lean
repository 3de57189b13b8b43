import Mathlib.Data.List.Basic
import Mathlib.Data.List.Perm.Basic

/-!
# Interleavings of several sequences

`Interleaving ls out` says that `out` is a schedule of the sequences `ls`: it takes every
element of every sequence once and keeps the order inside each of them.
-/

namespace TcpIot.Framework

variable {α β : Type*}

inductive Interleaving : List (List α) → List α → Prop
  | done {ls : List (List α)} (h : ∀ l ∈ ls, l = []) : Interleaving ls []
  | take {before after : List (List α)} {x : α} {xs out : List α}
      (h : Interleaving (before ++ xs :: after) out) :
      Interleaving (before ++ (x :: xs) :: after) (x :: out)

namespace Interleaving

theorem perm {ls : List (List α)} {out : List α} (h : Interleaving ls out) :
    out.Perm ls.flatten := by
  induction h with
  | done h => rw [List.flatten_eq_nil_iff.mpr h]
  | @take before after x xs out _ ih =>
    have hmid : (x :: (before ++ xs :: after).flatten).Perm
        (before ++ (x :: xs) :: after).flatten := by
      simp only [List.flatten_append, List.flatten_cons, List.cons_append]
      exact List.perm_middle.symm
    exact (List.Perm.cons x ih).trans hmid

theorem prepend {before after : List (List α)} {ys out : List α} (xs : List α)
    (h : Interleaving (before ++ ys :: after) out) :
    Interleaving (before ++ (xs ++ ys) :: after) (xs ++ out) := by
  induction xs with
  | nil => exact h
  | cons x xs ih => exact .take ih

theorem inside (x : α) (xs ys : List α) : Interleaving [x :: xs, ys] (x :: (ys ++ xs)) := by
  have hxs : Interleaving ([xs] ++ [[]]) xs := by
    have h := @prepend _ [] [[]] [] [] xs (.done (by simp))
    rwa [List.append_nil] at h
  have hys := @prepend _ [xs] [] [] xs ys hxs
  rw [List.append_nil] at hys
  exact @take _ [] [ys] x xs _ hys

/-- A schedule of whole jobs is a schedule of their parts in which no job is interrupted. -/
theorem flatMap {ls : List (List α)} {out : List α} (f : α → List β)
    (h : Interleaving ls out) :
    Interleaving (ls.map fun l => l.flatMap f) (out.flatMap f) := by
  induction h with
  | done h =>
    apply Interleaving.done
    intro l hl
    obtain ⟨l', hl', rfl⟩ := List.mem_map.mp hl
    rw [h l' hl']
    rfl
  | @take before after x xs out _ ih =>
    simp only [List.map_append, List.map_cons, List.flatMap_cons] at ih ⊢
    exact prepend (f x) ih

end Interleaving

end TcpIot.Framework
