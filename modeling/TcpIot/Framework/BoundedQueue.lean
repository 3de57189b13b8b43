import Mathlib.Data.List.Basic
import TcpIot.Framework.Run

/-!
# Bounded queues

A producer that never waits puts elements at the end of a queue and loses what does not fit, a
consumer takes them from the front. How many are waiting decides what is lost, so nothing is lost
exactly when the consumer is never more than the capacity behind.
-/

namespace TcpIot.Framework

variable {α : Type*}

/-- The elements of a queue, and those that have been taken from it. -/
structure BoundedQueue (α : Type*) where
  waiting : List α
  taken : List α
deriving DecidableEq

inductive QueueOp (α : Type*) where
  | offer (x : α)
  | take
deriving DecidableEq

/-- What the producer has offered. -/
def offered : List (QueueOp α) → List α
  | [] => []
  | .offer x :: ops => x :: offered ops
  | .take :: ops => offered ops

/-- How often the consumer has taken an element. -/
def takes : List (QueueOp α) → Nat
  | [] => 0
  | .offer _ :: ops => takes ops
  | .take :: ops => takes ops + 1

namespace BoundedQueue

def empty : BoundedQueue α := ⟨[], []⟩

def offer (capacity : Nat) (q : BoundedQueue α) (x : α) : BoundedQueue α :=
  if q.waiting.length < capacity then { q with waiting := q.waiting ++ [x] } else q

/-- The consumer waits while the queue is empty. -/
def take (q : BoundedQueue α) : Option (BoundedQueue α) :=
  match q.waiting with
  | [] => none
  | x :: waiting => some ⟨waiting, q.taken ++ [x]⟩

def step (capacity : Nat) (q : BoundedQueue α) : QueueOp α → Option (BoundedQueue α)
  | .offer x => some (q.offer capacity x)
  | .take => q.take

/-- Everything that has not been lost, in order. -/
def kept (q : BoundedQueue α) : List α := q.taken ++ q.waiting

/-- No more than the capacity behind at any time. -/
def KeepsUp (capacity : Nat) (q : BoundedQueue α) (ops : List (QueueOp α)) : Prop :=
  ∀ front, front <+: ops → q.waiting.length + (offered front).length ≤ capacity + takes front

variable {capacity : Nat} {q q' : BoundedQueue α} {x : α} {ops : List (QueueOp α)}

theorem offer_kept : (q.offer capacity x).kept =
    if q.waiting.length < capacity then q.kept ++ [x] else q.kept := by
  unfold offer
  split
  · rw [kept, ← List.append_assoc]
    rfl
  · rfl

theorem offer_bounded (h : q.waiting.length ≤ capacity) :
    (q.offer capacity x).waiting.length ≤ capacity := by
  unfold offer
  split
  · rw [List.length_append]
    assumption
  · exact h

theorem take_kept (h : q.take = some q') :
    q'.kept = q.kept ∧ q.waiting.length = q'.waiting.length + 1 := by
  unfold take at h
  split at h
  · cases h
  · rename_i x waiting hwaiting
    cases h
    rw [kept, kept, hwaiting, List.append_assoc]
    exact ⟨rfl, rfl⟩

theorem run_bounded (h : q.waiting.length ≤ capacity) (hrun : exec (step capacity) q ops = some q') :
    q'.waiting.length ≤ capacity := by
  induction ops generalizing q with
  | nil =>
    cases hrun
    exact h
  | cons op ops ih =>
    obtain ⟨next, hstep, hrest⟩ := Option.bind_eq_some_iff.mp hrun
    cases op with
    | offer x =>
      cases hstep
      exact ih (offer_bounded h) hrest
    | take =>
      have hlength := (take_kept hstep).2
      exact ih (by omega) hrest

/-- Nothing is invented, duplicated or reordered. -/
theorem run_sublist (hrun : exec (step capacity) q ops = some q') :
    ∃ l, l.Sublist (offered ops) ∧ q'.kept = q.kept ++ l := by
  induction ops generalizing q with
  | nil =>
    cases hrun
    exact ⟨[], .slnil, (List.append_nil _).symm⟩
  | cons op ops ih =>
    obtain ⟨next, hstep, hrest⟩ := Option.bind_eq_some_iff.mp hrun
    obtain ⟨l, hl, hkept⟩ := ih hrest
    cases op with
    | offer x =>
      cases hstep
      rw [offer_kept] at hkept
      split at hkept
      · rw [List.append_assoc] at hkept
        exact ⟨x :: l, hl.cons_cons x, hkept⟩
      · exact ⟨l, hl.cons x, hkept⟩
    | take =>
      rw [(take_kept hstep).1] at hkept
      exact ⟨l, hl, hkept⟩

theorem keepsUp_cons {op : QueueOp α} (h : q.waiting.length ≤ capacity) :
    KeepsUp capacity q (op :: ops) ↔ ∀ front, front <+: ops →
      q.waiting.length + (offered (op :: front)).length ≤ capacity + takes (op :: front) := by
  constructor
  · intro hall front hfront
    exact hall (op :: front) ((List.prefix_cons_inj op).mpr hfront)
  · intro hlater front hfront
    cases front with
    | nil => exact h
    | cons first front =>
      obtain ⟨heq, hrest⟩ := List.cons_prefix_cons.mp hfront
      rw [heq]
      exact hlater front hrest

theorem keepsUp_offer (hroom : q.waiting.length < capacity) :
    KeepsUp capacity q (.offer x :: ops) ↔ KeepsUp capacity (q.offer capacity x) ops := by
  have hlength : (q.offer capacity x).waiting.length = q.waiting.length + 1 := by
    rw [offer, if_pos hroom, List.length_append, List.length_singleton]
  rw [keepsUp_cons (Nat.le_of_lt hroom), KeepsUp, hlength]
  refine forall_congr' fun front => forall_congr' fun _ => ?_
  rw [offered, takes, List.length_cons, Nat.add_right_comm]
  rfl

theorem keepsUp_take (hlength : q.waiting.length = q'.waiting.length + 1)
    (h : q.waiting.length ≤ capacity) :
    KeepsUp capacity q (.take :: ops) ↔ KeepsUp capacity q' ops := by
  rw [keepsUp_cons h, KeepsUp, hlength]
  refine forall_congr' fun front => forall_congr' fun _ => ?_
  rw [offered, takes]
  omega

/-- Nothing is lost exactly when the consumer keeps up. -/
theorem lossless_iff (h : q.waiting.length ≤ capacity)
    (hrun : exec (step capacity) q ops = some q') :
    q'.kept = q.kept ++ offered ops ↔ KeepsUp capacity q ops := by
  induction ops generalizing q with
  | nil =>
    cases hrun
    refine iff_of_true (List.append_nil _).symm fun front hfront => ?_
    rw [List.prefix_nil.mp hfront]
    exact h
  | cons op ops ih =>
    obtain ⟨next, hstep, hrest⟩ := Option.bind_eq_some_iff.mp hrun
    cases op with
    | offer x =>
      cases hstep
      by_cases hroom : q.waiting.length < capacity
      · have hkept := ih (offer_bounded h) hrest
        rw [offer_kept, if_pos hroom, List.append_assoc] at hkept
        exact hkept.trans (keepsUp_offer hroom).symm
      · -- `x` is lost, and nothing makes up for it
        obtain ⟨l, hl, hkept⟩ := run_sublist hrest
        have hlength := hl.length_le
        rw [offer_kept, if_neg hroom] at hkept
        apply iff_of_false
        · intro hall
          rw [hkept, List.append_cancel_left_eq] at hall
          rw [hall, offered, List.length_cons] at hlength
          omega
        · intro hall
          have hnow := (keepsUp_cons h).mp hall [] List.nil_prefix
          simp only [offered, takes, List.length_cons, List.length_nil] at hnow
          omega
    | take =>
      obtain ⟨hkept, hlength⟩ := take_kept hstep
      have hlater := ih (by omega) hrest
      rw [hkept] at hlater
      exact hlater.trans (keepsUp_take hlength h).symm

end BoundedQueue

end TcpIot.Framework
