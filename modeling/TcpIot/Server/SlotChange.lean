import TcpIot.Server.Heartbeat

/-!
# What a step does to a slot

Whatever thread takes a step, it changes a slot of the table in one of a few ways. Facts about
the fields of a slot follow from these cases alone.
-/

namespace TcpIot.Server

open Framework

/-- `dirty_flag++`. -/
def Threads.counted (t : Threads) : Threads := { t with dirtyFlag := t.dirtyFlag + 1 }

/-- The slot `t` before a step and after it. -/
inductive SlotChange (t : Threads) : Threads → Prop where
  | kept : SlotChange t t
  | registered (fd : Int) (address : List UInt8) : SlotChange t (registered t fd address)
  | started (now : Int) : SlotChange t { t with orgTimeStamp := now }
  | named (name : CString 30) : SlotChange t { t with clientName := name }
  | refreshed (now : Int) : SlotChange t (t.refreshed now)
  | counted : SlotChange t t.counted
  | closed : SlotChange t t.closed
  | timedOut : SlotChange t t.counted.closed
  | wiped : SlotChange t t.wiped

section Cases

variable {fixed2 : Int → Nat → List UInt8} {s t : State}

theorem logoffClient_change (s : State) (name : List UInt8) (k : Fin maxThreads) :
    SlotChange (s.pthreadsList k) ((logoffClient s name).1.pthreadsList k) := by
  rw [logoffClient_slot]
  split
  · exact .closed
  · exact .kept

theorem timerVisit_slot {i : Fin maxThreads} {r : State × List Effect}
    (h : timerVisit s i = some r) (k : Fin maxThreads) :
    (¬ (i.val < s.noThreads ∧ s.Live i) ∧ r.1.pthreadsList k = s.pthreadsList k) ∨
    (i.val < s.noThreads ∧ s.Live i ∧ (s.pthreadsList i).dirtyFlag ≤ 0 ∧
      r.1.pthreadsList k = if k = i then (s.pthreadsList i).counted else s.pthreadsList k) ∨
    (i.val < s.noThreads ∧ s.Live i ∧ 0 < (s.pthreadsList i).dirtyFlag ∧
      if s.Named (s.pthreadsList i).clientName.chars k then
        r.1.pthreadsList k = (if k = i then (s.pthreadsList i).counted else s.pthreadsList k).closed
      else r.1.pthreadsList k = s.pthreadsList k) := by
  have hset : (s.setSlot i (s.pthreadsList i).counted).pthreadsList k =
      if k = i then (s.pthreadsList i).counted else s.pthreadsList k := by
    by_cases hki : k = i
    · rw [if_pos hki, hki, setSlot_same]
    · rw [if_neg hki, setSlot_ne s _ hki]
  simp only [timerVisit] at h
  split at h
  · rename_i hvisit
    split at h
    · rename_i hdirty
      obtain ⟨buff, -, rfl⟩ := Option.map_eq_some_iff.mp h
      refine .inr (.inr ⟨hvisit.1, hvisit.2, by omega, ?_⟩)
      rw [logoffClient_slot]
      have hnamed := named_setSlot s i (s.pthreadsList i).counted
        (s.pthreadsList i).clientName.chars rfl rfl k
      by_cases hk : s.Named (s.pthreadsList i).clientName.chars k
      · rw [if_pos hk]
        exact (if_pos (hnamed.mpr hk)).trans (congrArg Threads.closed hset)
      · have hki : k ≠ i := by
          rintro rfl
          exact hk ⟨rfl, hvisit.2⟩
        rw [if_neg hk]
        exact (if_neg (mt hnamed.mp hk)).trans (hset.trans (if_neg hki))
    · rename_i hclean
      obtain ⟨text, -, rfl⟩ := Option.map_eq_some_iff.mp h
      exact .inr (.inl ⟨hvisit.1, hvisit.2, by omega, hset⟩)
  · rename_i hvisit
    cases h
    exact .inl ⟨hvisit, rfl⟩

theorem step_slotChange {e : Event} (h : step fixed2 s e = some t) (k : Fin maxThreads) :
    SlotChange (s.pthreadsList k) (t.pthreadsList k) := by
  cases e with
  | accept fd address =>
    obtain ⟨j, hacc⟩ := step_accept h
    by_cases hkj : k = j
    · rw [hkj, hacc.filled]
      exact .registered fd address
    · rw [hacc.kept k hkj]
      exact .kept
  | listenStart sock now =>
    cases h
    simp only [listenStart]
    split
    · exact .started now
    · exact .kept
  | command sock msgLen tempx now stray =>
    obtain ⟨r, hr, rfl⟩ := Option.map_eq_some_iff.mp h
    rcases command_slot hr k with ⟨-, -, name, -, hslot⟩ | ⟨-, hslot | ⟨-, hslot⟩ | hslot⟩
    · rw [hslot]
      exact .named name
    · rw [hslot]
      exact .kept
    · rw [hslot]
      exact .refreshed now
    · rw [hslot]
      exact .wiped
  | logoffClient name =>
    cases h
    exact logoffClient_change s name k
  | timerVisit i =>
    obtain ⟨r, hr, rfl⟩ := Option.map_eq_some_iff.mp h
    rcases timerVisit_slot hr k with ⟨-, hslot⟩ | ⟨-, -, -, hslot⟩ | ⟨-, -, -, hslot⟩
    · rw [hslot]
      exact .kept
    · rw [hslot]
      split
      · rename_i hki
        rw [hki]
        exact .counted
      · exact .kept
    · split at hslot
      · rw [hslot]
        split
        · rename_i hki
          rw [hki]
          exact .timedOut
        · exact .closed
      · rw [hslot]
        exact .kept

end Cases

theorem SlotChange.dirtyFlag_nonneg {a b : Threads} (h : SlotChange a b) (ha : 0 ≤ a.dirtyFlag) :
    0 ≤ b.dirtyFlag := by
  cases h with
  | refreshed now => exact le_refl (0 : Int)
  | counted | timedOut =>
    show 0 ≤ a.dirtyFlag + 1
    omega
  | _ => exact ha

end TcpIot.Server
