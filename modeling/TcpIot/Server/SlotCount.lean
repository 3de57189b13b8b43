import TcpIot.Server.System

/-!
# The slot counter

`no_threads` is used both as the number of connections and as the slot that the next one gets.
Both readings are right exactly as long as every step frees slots from the end of the live
ones.
-/

namespace TcpIot.Server

open Framework

/-- `no_threads` counts the live slots, and these come first in the table. -/
def Counted (s : State) : Prop :=
  s.noThreads = slotCount s.Live ∧ ∀ i, s.Live i ↔ (i.val : Int) < s.noThreads

instance (s : State) : Decidable (Counted s) := inferInstanceAs (Decidable (_ ∧ _))

/-- An accept writes a slot of the table that is not live. -/
def WritesFree (s : State) : Event → Prop
  | .accept _ _ => ∃ k, nextSlot s = some k ∧ ¬ s.Live k
  | _ => True

instance (s : State) : DecidablePred (WritesFree s)
  | .accept _ _ => inferInstanceAs (Decidable (∃ _, _))
  | .listenStart _ _ | .command _ _ _ _ _ | .logoffClient _ | .timerVisit _ => isTrue trivial

/-- What is asked of every step: accepts write free slots, and the counter stays exact. -/
def SlotsExact (fixed2 : Int → Nat → List UInt8) (s : State) (e : Event) : Prop :=
  WritesFree s e ∧ ∀ t ∈ step fixed2 s e, Counted t

instance (fixed2 : Int → Nat → List UInt8) (s : State) (e : Event) :
    Decidable (SlotsExact fixed2 s e) := inferInstanceAs (Decidable (_ ∧ _))

/-- A connection is accepted only while `no_threads` is below `MAX_THREADS`; the slots a step
frees are the last live ones; a `DISCONNECT_ALL` frees none. -/
def Orderly (s : State) : Event → Prop
  | .accept _ _ => s.noThreads < maxThreads
  | e => (∀ i j, i < j → s.Live j → FreedBy s e i → FreedBy s e j) ∧
      (Uncounted e → ∀ i, ¬ FreedBy s e i)

instance (s : State) : DecidablePred (Orderly s)
  | .accept _ _ => inferInstanceAs (Decidable (_ < _))
  | .listenStart _ _ | .command _ _ _ _ _ | .logoffClient _ | .timerVisit _ =>
    inferInstanceAs (Decidable (_ ∧ _))

/-- The step is one that can happen: descriptors are fresh and no buffer is overrun. Accepts
may leave the table. -/
def Happens (fixed2 : Int → Nat → List UInt8) (s : State) : Event → Prop
  | .accept fd address => Feasible s (.accept fd address)
  | e => (step fixed2 s e).isSome

instance (fixed2 : Int → Nat → List UInt8) (s : State) : DecidablePred (Happens fixed2 s)
  | .accept fd address => inferInstanceAs (Decidable (Feasible s (.accept fd address)))
  | .listenStart _ _ | .command _ _ _ _ _ | .logoffClient _ | .timerVisit _ =>
    inferInstanceAs (Decidable (Option.isSome _ = true))

theorem Happens.feasible {fixed2 : Int → Nat → List UInt8} {s : State} {e : Event}
    (h : Happens fixed2 s e) : Feasible s e := by
  cases e with
  | accept fd address => exact h
  | _ => trivial

theorem Happens.isSome {fixed2 : Int → Nat → List UInt8} {s : State} {e : Event}
    (h : Happens fixed2 s e) (he : ∀ fd address, e ≠ .accept fd address) :
    (step fixed2 s e).isSome := by
  cases e with
  | accept fd address => exact absurd rfl (he fd address)
  | _ => exact h

theorem counted_of_initialSegment {s : State} (hcount : s.noThreads = slotCount s.Live)
    (hinit : InitialSegment s.Live) : Counted s := by
  refine ⟨hcount, fun i => ?_⟩
  rw [(initialSegment_iff s.Live).mp hinit i, hcount]
  omega

theorem Counted.initialSegment {s : State} (h : Counted s) : InitialSegment s.Live := by
  rw [initialSegment_iff]
  intro i
  rw [h.2 i, h.1]
  omega

theorem init_counted (stack : Buffer 100) : Counted (init stack) := by
  have hdead (i : Fin maxThreads) : ¬ (init stack).Live i := by
    show ¬ (0 : Int) < -1
    decide
  refine counted_of_initialSegment ?_ fun i j _ hj => (hdead j hj).elim
  rw [slotCount_eq_zero hdead]
  rfl

section Steps

variable {fixed2 : Int → Nat → List UInt8} {s t : State}

private theorem accept_counted {fd : Int} {address : List UInt8} (hs : Counted s)
    (hfd : 0 < fd) (hstep : step fixed2 s (.accept fd address) = some t) : Counted t := by
  obtain ⟨k, hacc⟩ := step_accept hstep
  have hk : ¬ s.Live k := by
    rw [hs.2 k, hacc.next]
    omega
  have hinsert := slotCount_insert (hacc.live hfd)
  rw [if_neg hk] at hinsert
  refine ⟨?_, fun i => ?_⟩
  · rw [hacc.noThreads, hs.1]
    omega
  · rw [hacc.live hfd i, hs.2 i, hacc.noThreads, hacc.next, Fin.ext_iff]
    omega

/-- A step that is not an accept keeps the counter exact iff it frees the last live slots and
counts them off. -/
private theorem freed_counted_iff {e : Event} (hs : Counted s)
    (hfreed : Freed (FreedBy s e) (if Uncounted e then 0 else slotCount (FreedBy s e)) s t) :
    Counted t ↔ (∀ i j, i < j → s.Live j → FreedBy s e i → FreedBy s e j) ∧
      (Uncounted e → ∀ i, ¬ FreedBy s e i) := by
  have hsplit := hfreed.slotCount
  have hcount := hfreed.noThreads
  rw [hs.1] at hcount
  constructor
  · intro ht
    constructor
    · intro i j hij hj hi
      by_contra hnot
      have hkept : t.Live j := (hfreed.live j).mpr ⟨hj, hnot⟩
      exact ((hfreed.live i).mp (ht.initialSegment i j hij hkept)).2 hi
    · intro hall i hi
      rw [if_pos hall, ht.1] at hcount
      have hzero : slotCount (FreedBy s e) = 0 := by omega
      exact slotCount_eq_zero_iff.mp hzero i hi
  · rintro ⟨hlast, hall⟩
    refine counted_of_initialSegment ?_ ?_
    · by_cases hc : Uncounted e
      · rw [if_pos hc] at hcount
        have hzero := slotCount_eq_zero (hall hc)
        omega
      · rw [if_neg hc] at hcount
        omega
    · intro i j hij hj
      obtain ⟨hlive, hkept⟩ := (hfreed.live j).mp hj
      refine (hfreed.live i).mpr ⟨hs.initialSegment i j hij hlive, fun hi => ?_⟩
      exact hkept (hlast i j hij hlive hi)

private theorem slotsExact_iff_orderly {e : Event} (hs : Counted s)
    (he : Happens fixed2 s e) : SlotsExact fixed2 s e ↔ Orderly s e := by
  by_cases hacc : ∃ fd address, e = .accept fd address
  · obtain ⟨fd, address, rfl⟩ := hacc
    constructor
    · rintro ⟨⟨k, hk, -⟩, -⟩
      have hlt := k.isLt
      rw [nextSlot_eq_some] at hk
      rw [Orderly, hk]
      omega
    · intro hroom
      have hfits : (nextSlot s).isSome := nextSlot_isSome.mpr ⟨by rw [hs.1]; omega, hroom⟩
      obtain ⟨k, hk⟩ := Option.isSome_iff_exists.mp hfits
      refine ⟨⟨k, hk, ?_⟩, fun t ht => accept_counted hs he.1 ht⟩
      rw [hs.2 k, nextSlot_eq_some.mp hk]
      omega
  · have hfree : WritesFree s e := by
      cases e with
      | accept fd address => exact absurd ⟨fd, address, rfl⟩ hacc
      | _ => trivial
    have hsome : (step fixed2 s e).isSome := he.isSome fun fd address h => hacc ⟨fd, address, h⟩
    have horder : Orderly s e ↔ (∀ i j, i < j → s.Live j → FreedBy s e i → FreedBy s e j) ∧
        (Uncounted e → ∀ i, ¬ FreedBy s e i) := by
      cases e with
      | accept fd address => exact absurd ⟨fd, address, rfl⟩ hacc
      | _ => exact Iff.rfl
    obtain ⟨t, ht⟩ := Option.isSome_iff_exists.mp hsome
    have hfreed := step_freed ht fun fd address h => hacc ⟨fd, address, h⟩
    rw [horder, ← freed_counted_iff hs hfreed]
    constructor
    · exact fun h => h.2 t ht
    · intro h
      refine ⟨hfree, fun u hu => ?_⟩
      cases ht.symm.trans hu
      exact h

end Steps

/-- For every run, of any length and in any order of its steps: accepts only write free slots
and the counter stays exact iff every step of the run is orderly. -/
theorem slotsExact_iff (fixed2 : Int → Nat → List UInt8) (stack : Buffer 100)
    (es : List Event) (hrun : AllSteps (step fixed2) (Happens fixed2) (init stack) es) :
    AllSteps (step fixed2) (SlotsExact fixed2) (init stack) es ↔
      AllSteps (step fixed2) Orderly (init stack) es := by
  refine allSteps_iff_of_inv (fun s e hs he => slotsExact_iff_orderly hs he) ?_ hrun
    (init_counted stack)
  intro s e t hs he horder hstep
  exact ((slotsExact_iff_orderly hs he).mpr horder).2 t hstep

/-- Clients 154, 147 and 146 connect, and 146 disconnects itself. -/
theorem slotsExact_iff_last_leaves :
    AllSteps (step fun _ _ => ascii "0.00") (SlotsExact fun _ _ => ascii "0.00")
      (init (Buffer.zero 100)) (threeClients ++
        [.command 6 0 ⟨[54, 3] ++ List.replicate 48 0, rfl⟩ 0 0]) ↔
    AllSteps (step fun _ _ => ascii "0.00") Orderly
      (init (Buffer.zero 100)) (threeClients ++
        [.command 6 0 ⟨[54, 3] ++ List.replicate 48 0, rfl⟩ 0 0]) :=
  slotsExact_iff _ _ _ (by decide)

def disconnectThenAccept : List Event :=
  threeClients ++ [.command 6 0 ⟨[54, 2] ++ List.replicate 48 0, rfl⟩ 0 0,
    .accept 7 (ascii "192.168.88.151")]

/-- The connection of 151 overwrites the slot of 146. -/
theorem disconnect_then_accept_overwrites :
    AllSteps (step fun _ _ => ascii "0.00") (Happens fun _ _ => ascii "0.00")
      (init (Buffer.zero 100)) disconnectThenAccept ∧
    ¬ AllSteps (step fun _ _ => ascii "0.00") WritesFree
      (init (Buffer.zero 100)) disconnectThenAccept ∧
    ¬ AllSteps (step fun _ _ => ascii "0.00") (SlotsExact fun _ _ => ascii "0.00")
      (init (Buffer.zero 100)) disconnectThenAccept := by
  decide

end TcpIot.Server
