import TcpIot.Framework.Run
import TcpIot.Framework.Sweep

/-!
# The reader/writer lock

The four calls are sections under one mutex, so each section is one step. A thread that has to
wait sleeps on `lock_free` until it is signalled or wakes up for no reason, and then tests again
under the mutex.
-/

namespace TcpIot.Queue

open Framework

/-- The counters of `pthread_rdwr_t`. -/
structure Rdwr where
  readersReading : Nat
  writerWriting : Nat
deriving DecidableEq

/-- What a section does to the threads that sleep on `lock_free`. -/
inductive Wake where
  | nobody | signal | broadcast
deriving DecidableEq

namespace Rdwr

def init : Rdwr := ⟨0, 0⟩

/-- One turn of the loop of `rlock`; `none` when the thread has to wait. -/
def rlock (r : Rdwr) : Option Rdwr :=
  if r.writerWriting ≠ 0 then none else some { r with readersReading := r.readersReading + 1 }

/-- The status, the lock and the call on `lock_free`. -/
def runlock (r : Rdwr) : Int × Rdwr × Wake :=
  if r.readersReading = 0 then (-1, r, .nobody)
  else
    let r := { r with readersReading := r.readersReading - 1 }
    (0, r, if r.readersReading = 0 then .signal else .nobody)

def wlock (r : Rdwr) : Option Rdwr :=
  if r.writerWriting ≠ 0 ∨ r.readersReading ≠ 0 then none
  else some { r with writerWriting := r.writerWriting + 1 }

def wunlock (r : Rdwr) : Int × Rdwr × Wake :=
  if r.writerWriting = 0 then (-1, r, .nobody)
  else (0, { r with writerWriting := 0 }, .broadcast)

end Rdwr

/-- Lookups of the list run between `rlock` and `runlock`, updates between `wlock` and
`wunlock`. -/
inductive Role where
  | reader | writer
deriving DecidableEq

def Role.lock : Role → Rdwr → Option Rdwr
  | .reader => Rdwr.rlock
  | .writer => Rdwr.wlock

def Role.unlock : Role → Rdwr → Int × Rdwr × Wake
  | .reader => Rdwr.runlock
  | .writer => Rdwr.wunlock

inductive ThreadState where
  | outside
  /-- In `pthread_cond_wait`, not signalled. -/
  | asleep (role : Role)
  /-- Woken, about to test again. -/
  | woken (role : Role)
  | inside (role : Role)
deriving DecidableEq

def ThreadState.wake : ThreadState → ThreadState
  | .asleep role => .woken role
  | other => other

structure Monitor (n : Nat) where
  rdwr : Rdwr
  threads : Fin n → ThreadState

namespace Monitor

variable {n : Nat}

def start : Monitor n := ⟨Rdwr.init, fun _ => .outside⟩

def Asleep (threads : Fin n → ThreadState) (t : Fin n) : Prop :=
  threads t = .asleep .reader ∨ threads t = .asleep .writer

instance (threads : Fin n → ThreadState) (t : Fin n) : Decidable (Asleep threads t) :=
  inferInstanceAs (Decidable (_ ∨ _))

/-- `chosen` may be the threads that the call wakes: a signal wakes at least one sleeper, a
broadcast all. -/
def Wakes (wake : Wake) (threads : Fin n → ThreadState) (chosen : Fin n → Bool) : Prop :=
  match wake with
  | .nobody => ∀ t, chosen t = false
  | .signal => (∃ t, Asleep threads t) → ∃ t, Asleep threads t ∧ chosen t = true
  | .broadcast => ∀ t, chosen t = true

instance (wake : Wake) (threads : Fin n → ThreadState) (chosen : Fin n → Bool) :
    Decidable (Wakes wake threads chosen) :=
  match wake with
  | .nobody => inferInstanceAs (Decidable (∀ t, chosen t = false))
  | .signal => inferInstanceAs (Decidable
      ((∃ t, Asleep threads t) → ∃ t, Asleep threads t ∧ chosen t = true))
  | .broadcast => inferInstanceAs (Decidable (∀ t, chosen t = true))

inductive Event (n : Nat) where
  /-- `t` calls `rlock` or `wlock`. -/
  | lock (t : Fin n) (role : Role)
  /-- `t`, woken, has the mutex again. -/
  | retest (t : Fin n)
  /-- `t` wakes up for no reason. -/
  | spurious (t : Fin n)
  /-- `t` calls `runlock` or `wunlock`, waking `chosen`. -/
  | unlock (t : Fin n) (chosen : Fin n → Bool)

/-- `t` tests the condition: it goes to sleep or enters. -/
def test (s : Monitor n) (t : Fin n) (role : Role) : Monitor n :=
  match role.lock s.rdwr with
  | none => { s with threads := Function.update s.threads t (.asleep role) }
  | some rdwr => ⟨rdwr, Function.update s.threads t (.inside role)⟩

/-- `t` goes outside and `chosen` are woken. -/
def leave (s : Monitor n) (t : Fin n) (rdwr : Rdwr) (chosen : Fin n → Bool) : Monitor n where
  rdwr := rdwr
  threads := fun u =>
    if chosen u then (Function.update s.threads t .outside u).wake
    else Function.update s.threads t .outside u

def step (s : Monitor n) : Event n → Option (Monitor n)
  | .lock t role => if s.threads t = .outside then some (s.test t role) else none
  | .retest t =>
    match s.threads t with
    | .woken role => some (s.test t role)
    | _ => none
  | .spurious t =>
    match s.threads t with
    | .asleep role => some { s with threads := Function.update s.threads t (.woken role) }
    | _ => none
  | .unlock t chosen =>
    match s.threads t with
    | .inside role =>
      let result := role.unlock s.rdwr
      if Wakes result.2.2 (Function.update s.threads t .outside) chosen then
        some (s.leave t result.2.1 chosen)
      else none
    | _ => none

/-- The number of threads inside in a role. -/
def insideCount (s : Monitor n) (role : Role) : Nat :=
  slotCount fun t => s.threads t = .inside role

def Free (s : Monitor n) : Prop := s.rdwr.writerWriting = 0 ∧ s.rdwr.readersReading = 0

/-- No thread is inside together with a writer, and the counters are those of the threads
inside. -/
structure Exclusive (s : Monitor n) : Prop where
  alone : ∀ t u role, s.threads t = .inside .writer → s.threads u = .inside role → t = u
  writer : s.rdwr.writerWriting = 0 ∨ s.rdwr.writerWriting = 1
  readers : s.rdwr.readersReading = s.insideCount .reader

/-- While the lock is free a sleeping thread is not alone: another one has been woken, and its
test is a step that can be taken. -/
def NoLostWakeup (s : Monitor n) : Prop :=
  s.Free → ∀ t, Asleep s.threads t →
    ∃ u role, u ≠ t ∧ s.threads u = .woken role ∧ (s.step (.retest u)).isSome

/-- A sleeping reader waits for a writer; any other sleeper waits for a thread inside or for one
that has been woken. -/
structure Consistent (s : Monitor n) : Prop where
  readers : s.rdwr.readersReading = s.insideCount .reader
  writers : s.rdwr.writerWriting = s.insideCount .writer
  exclusive : s.rdwr.writerWriting = 0 ∨
    s.rdwr.writerWriting = 1 ∧ s.rdwr.readersReading = 0
  sleepingReader : ∀ t, s.threads t = .asleep .reader → s.rdwr.writerWriting ≠ 0
  sleeper : ∀ t, Asleep s.threads t →
    s.rdwr.writerWriting ≠ 0 ∨ s.rdwr.readersReading ≠ 0 ∨ ∃ u role, s.threads u = .woken role

theorem Consistent.start : Consistent (Monitor.start : Monitor n) := by
  have hnobody (role : Role) : (Monitor.start : Monitor n).insideCount role = 0 :=
    slotCount_eq_zero fun t ht => by cases ht
  refine ⟨(hnobody .reader).symm, (hnobody .writer).symm, .inl rfl, fun t ht => ?_, fun t ht => ?_⟩
  · cases ht
  · rcases ht with ht | ht
    · cases ht
    · cases ht

variable {s s' : Monitor n} {t : Fin n} {role : Role}

private theorem insideCount_update (rdwr : Rdwr) (t : Fin n) (v : ThreadState) (role : Role) :
    insideCount ⟨rdwr, Function.update s.threads t v⟩ role +
        (if s.threads t = .inside role then 1 else 0) =
      s.insideCount role + if v = .inside role then 1 else 0 :=
  slotCount_update (fun st : ThreadState => st = ThreadState.inside role) s.threads t v

theorem Role.lock_eq_none {r : Rdwr} (h : role.lock r = none) :
    (role = .reader → r.writerWriting ≠ 0) ∧ (r.writerWriting ≠ 0 ∨ r.readersReading ≠ 0) := by
  cases role with
  | reader =>
    simp only [Role.lock, Rdwr.rlock] at h
    split at h
    · rename_i hwriting
      exact ⟨fun _ => hwriting, .inl hwriting⟩
    · cases h
  | writer =>
    simp only [Role.lock, Rdwr.wlock] at h
    split at h
    · rename_i hbusy
      exact ⟨fun heq => (by cases heq), hbusy⟩
    · cases h

theorem Role.lock_eq_some {r r' : Rdwr} (h : role.lock r = some r') :
    r.writerWriting = 0 ∧
      (role = .reader ∧ r' = ⟨r.readersReading + 1, 0⟩ ∨
        role = .writer ∧ r.readersReading = 0 ∧ r' = ⟨0, 1⟩) := by
  cases role with
  | reader =>
    simp only [Role.lock, Rdwr.rlock] at h
    split at h
    · cases h
    · rename_i hwriting
      rw [not_not] at hwriting
      cases h
      exact ⟨hwriting, .inl ⟨rfl, by rw [hwriting]⟩⟩
  | writer =>
    simp only [Role.lock, Rdwr.wlock] at h
    split at h
    · cases h
    · rename_i hidle
      rw [not_or, not_not, not_not] at hidle
      cases h
      exact ⟨hidle.1, .inr ⟨rfl, hidle.2, by rw [hidle.1, hidle.2]⟩⟩

private theorem Consistent.test (h : Consistent s) (hout : ∀ r, s.threads t ≠ .inside r) :
    Consistent (s.test t role) := by
  have hcount (rdwr : Rdwr) (v : ThreadState) (r : Role) :
      insideCount ⟨rdwr, Function.update s.threads t v⟩ r =
        s.insideCount r + if v = .inside r then 1 else 0 := by
    have hmove := @insideCount_update n s rdwr t v r
    rwa [if_neg (hout r)] at hmove
  cases hlock : role.lock s.rdwr with
  | none =>
    have htest : s.test t role =
        ⟨s.rdwr, Function.update s.threads t (.asleep role)⟩ := by
      rw [Monitor.test, hlock]
    rw [htest]
    obtain ⟨hreader, hbusy⟩ := Role.lock_eq_none hlock
    refine ⟨?_, ?_, h.exclusive, fun u hu => ?_, fun u hu => hbusy.imp id .inl⟩
    · rw [hcount, if_neg (by simp)]
      exact h.readers
    · rw [hcount, if_neg (by simp)]
      exact h.writers
    · by_cases hut : u = t
      · have hself := (Function.update_self _ _ _).symm.trans (hut ▸ hu)
        cases hself
        exact hreader rfl
      · exact h.sleepingReader u ((Function.update_of_ne hut _ _).symm.trans hu)
  | some rdwr =>
    have htest : s.test t role = ⟨rdwr, Function.update s.threads t (.inside role)⟩ := by
      rw [Monitor.test, hlock]
    rw [htest]
    obtain ⟨hwriting, ⟨rfl, rfl⟩ | ⟨rfl, hreading, rfl⟩⟩ := Role.lock_eq_some hlock
    · refine ⟨?_, ?_, .inl rfl, fun u hu => ?_, fun u hu => .inr (.inl (Nat.succ_ne_zero _))⟩
      · rw [hcount, if_pos rfl, ← h.readers]
      · rw [hcount, if_neg (by simp), ← h.writers, hwriting]
      · by_cases hut : u = t
        · cases (Function.update_self _ _ _).symm.trans (hut ▸ hu)
        · refine absurd hwriting (h.sleepingReader u ?_)
          exact (Function.update_of_ne hut _ _).symm.trans hu
    · refine ⟨?_, ?_, .inr ⟨rfl, rfl⟩, fun u hu => Nat.one_ne_zero,
        fun u hu => .inl Nat.one_ne_zero⟩
      · rw [hcount, if_neg (by simp), ← h.readers, hreading]
      · rw [hcount, if_pos rfl, ← h.writers, hwriting]

private theorem Consistent.spurious (h : Consistent s) (ht : s.threads t = .asleep role) :
    Consistent { s with threads := Function.update s.threads t (.woken role) } := by
  have hcount (r : Role) :
      insideCount ⟨s.rdwr, Function.update s.threads t (.woken role)⟩ r = s.insideCount r := by
    have hmove := @insideCount_update n s s.rdwr t (.woken role) r
    rwa [if_neg (by simp [ht]), if_neg (by simp)] at hmove
  refine ⟨h.readers.trans (hcount _).symm, h.writers.trans (hcount _).symm, h.exclusive,
    fun u hu => ?_, fun u hu => .inr (.inr ⟨t, role, Function.update_self _ _ _⟩)⟩
  by_cases hut : u = t
  · cases (Function.update_self _ _ _).symm.trans (hut ▸ hu)
  · exact h.sleepingReader u ((Function.update_of_ne hut _ _).symm.trans hu)

private theorem wake_inside (st : ThreadState) (chosen : Bool) (role : Role) :
    (if chosen then st.wake else st) = .inside role ↔ st = .inside role := by
  cases chosen with
  | false => rfl
  | true => cases st <;> simp [ThreadState.wake]

private theorem wake_asleep {st : ThreadState} {chosen : Bool}
    (h : (if chosen then st.wake else st) = .asleep role) : st = .asleep role ∧ chosen = false := by
  cases chosen with
  | false => exact ⟨h, rfl⟩
  | true => cases st <;> simp [ThreadState.wake] at h

private theorem insideCount_leave (rdwr : Rdwr) (chosen : Fin n → Bool)
    (ht : s.threads t = .inside role) (r : Role) :
    (s.leave t rdwr chosen).insideCount r + (if role = r then 1 else 0) = s.insideCount r := by
  have hmove := @insideCount_update n s rdwr t .outside r
  have hwake := slotCount_congr fun u =>
    wake_inside (Function.update s.threads t .outside u) (chosen u) r
  rw [if_neg (by simp : ¬ ThreadState.outside = .inside r), ht] at hmove
  simp only [ThreadState.inside.injEq] at hmove
  exact (congrArg (· + _) hwake).trans hmove

private theorem asleep_of_leave {rdwr : Rdwr} {chosen : Fin n → Bool} {u : Fin n} {r : Role}
    (hu : (s.leave t rdwr chosen).threads u = .asleep r) :
    s.threads u = .asleep r ∧ Function.update s.threads t .outside u = .asleep r ∧
      chosen u = false := by
  obtain ⟨hasleep, hchosen⟩ := wake_asleep hu
  refine ⟨?_, hasleep, hchosen⟩
  by_cases hut : u = t
  · cases (Function.update_self _ _ _).symm.trans (hut ▸ hasleep)
  · exact (Function.update_of_ne hut _ _).symm.trans hasleep

private theorem Consistent.leave_reader (h : Consistent s) (ht : s.threads t = .inside .reader)
    {chosen : Fin n → Bool}
    (hwakes : Wakes s.rdwr.runlock.2.2 (Function.update s.threads t .outside) chosen) :
    Consistent (s.leave t s.rdwr.runlock.2.1 chosen) := by
  have hreaders := insideCount_leave s.rdwr.runlock.2.1 chosen ht .reader
  have hwriters := insideCount_leave s.rdwr.runlock.2.1 chosen ht .writer
  rw [if_pos rfl, ← h.readers] at hreaders
  rw [if_neg (by simp), ← h.writers] at hwriters
  have hreading : s.rdwr.readersReading ≠ 0 := by omega
  have hwriting : s.rdwr.writerWriting = 0 := by
    rcases h.exclusive with h0 | ⟨-, h0⟩
    · exact h0
    · exact absurd h0 hreading
  have hcall : s.rdwr.runlock = (0, ⟨s.rdwr.readersReading - 1, s.rdwr.writerWriting⟩,
      if s.rdwr.readersReading - 1 = 0 then .signal else .nobody) := by
    rw [Rdwr.runlock, if_neg hreading]
  rw [hcall] at hwakes hreaders hwriters ⊢
  refine ⟨?_, ?_, .inl hwriting, fun u hu => ?_, fun u hu => ?_⟩
  · exact (Nat.eq_sub_of_add_eq hreaders).symm
  · exact hwriters.symm
  · exact absurd hwriting (h.sleepingReader u (asleep_of_leave hu).1)
  · by_cases hlast : s.rdwr.readersReading - 1 = 0
    · rw [if_pos hlast] at hwakes
      have hsleeper : Asleep (Function.update s.threads t .outside) u :=
        hu.imp (fun h => (asleep_of_leave h).2.1) fun h => (asleep_of_leave h).2.1
      obtain ⟨v, hv, hchosen⟩ := hwakes ⟨u, hsleeper⟩
      refine .inr (.inr ?_)
      rcases hv with hv | hv
      · exact ⟨v, .reader, by simp [leave, hchosen, hv, ThreadState.wake]⟩
      · exact ⟨v, .writer, by simp [leave, hchosen, hv, ThreadState.wake]⟩
    · exact .inr (.inl hlast)

private theorem Consistent.leave_writer (h : Consistent s) (ht : s.threads t = .inside .writer)
    {chosen : Fin n → Bool}
    (hwakes : Wakes s.rdwr.wunlock.2.2 (Function.update s.threads t .outside) chosen) :
    Consistent (s.leave t s.rdwr.wunlock.2.1 chosen) := by
  have hreaders := insideCount_leave s.rdwr.wunlock.2.1 chosen ht .reader
  have hwriters := insideCount_leave s.rdwr.wunlock.2.1 chosen ht .writer
  rw [if_neg (by simp), ← h.readers] at hreaders
  rw [if_pos rfl, ← h.writers] at hwriters
  have hwriting : s.rdwr.writerWriting ≠ 0 := by omega
  have hone : s.rdwr.writerWriting = 1 := by
    rcases h.exclusive with h0 | ⟨h1, -⟩
    · exact absurd h0 hwriting
    · exact h1
  have hcall : s.rdwr.wunlock = (0, ⟨s.rdwr.readersReading, 0⟩, .broadcast) := by
    rw [Rdwr.wunlock, if_neg hwriting]
  rw [hcall] at hwakes hreaders hwriters ⊢
  have hawake (u : Fin n) (r : Role) :
      (s.leave t ⟨s.rdwr.readersReading, 0⟩ chosen).threads u ≠ .asleep r := by
    intro hu
    cases (hwakes u).symm.trans (asleep_of_leave hu).2.2
  refine ⟨hreaders.symm, ?_, .inl rfl, fun u hu => absurd hu (hawake u _), fun u hu => ?_⟩
  · change 0 = _
    omega
  · rcases hu with hu | hu
    · exact absurd hu (hawake u _)
    · exact absurd hu (hawake u _)

theorem Consistent.step (h : Consistent s) {e : Event n} (hstep : s.step e = some s') :
    Consistent s' := by
  cases e with
  | lock t role =>
    obtain ⟨hout, hnext⟩ := Option.ite_none_right_eq_some.mp hstep
    cases hnext
    exact h.test fun r => by simp [hout]
  | retest t =>
    simp only [Monitor.step] at hstep
    split at hstep
    · rename_i hwoken
      cases hstep
      exact h.test fun r => by simp [hwoken]
    · cases hstep
  | spurious t =>
    simp only [Monitor.step] at hstep
    split at hstep
    · rename_i hasleep
      cases hstep
      exact h.spurious hasleep
    · cases hstep
  | unlock t chosen =>
    simp only [Monitor.step] at hstep
    split at hstep
    · rename_i role hinside
      obtain ⟨hwakes, hnext⟩ := Option.ite_none_right_eq_some.mp hstep
      cases hnext
      cases role with
      | reader => exact h.leave_reader hinside hwakes
      | writer => exact h.leave_writer hinside hwakes
    · cases hstep

private theorem insideCount_ne_zero (ht : s.threads t = .inside role) : s.insideCount role ≠ 0 :=
  fun hzero => slotCount_eq_zero_iff.mp hzero t ht

theorem Consistent.toExclusive (h : Consistent s) : Exclusive s where
  alone := by
    intro t u role ht hu
    have hwriting := insideCount_ne_zero ht
    rw [← h.writers] at hwriting
    obtain ⟨hone, hreading⟩ := h.exclusive.resolve_left hwriting
    cases role with
    | reader => exact absurd (h.readers.symm.trans hreading) (insideCount_ne_zero hu)
    | writer => exact slotCount_unique (h.writers.symm.trans hone).le ht hu
  writer := h.exclusive.imp id And.left
  readers := h.readers

theorem Consistent.noLostWakeup (h : Consistent s) : NoLostWakeup s := by
  intro hfree t ht
  rcases h.sleeper t ht with hwriting | hreading | ⟨u, role, hu⟩
  · exact absurd hfree.1 hwriting
  · exact absurd hfree.2 hreading
  · refine ⟨u, role, ?_, hu, by simp [Monitor.step, hu]⟩
    rintro rfl
    rcases ht with ht | ht
    · cases hu.symm.trans ht
    · cases hu.symm.trans ht

/-- For any number of threads, any interleaving of the sections, any choice of the threads that
a signal wakes and any spurious wake-ups. -/
theorem rdwr_correct (events : List (Event n))
    (hrun : exec Monitor.step Monitor.start events = some s) : Exclusive s ∧ NoLostWakeup s := by
  have hinv := (allSteps_true Monitor.start events).exec_inv
    (fun _ _ _ (h : Consistent _) _ hstep => h.step hstep) Consistent.start hrun
  exact ⟨hinv.toExclusive, hinv.noLostWakeup⟩

/-- A reader leaves while two writers wait, and its signal wakes one of them. -/
theorem rdwr_correct_two_writers :
    ∃ s ∈ exec Monitor.step (Monitor.start : Monitor 3)
        [.lock 0 .reader, .lock 1 .writer, .lock 2 .writer, .unlock 0 fun t => t = 1],
      (s.Free ∧ s.threads 2 = .asleep .writer) ∧ Exclusive s ∧ NoLostWakeup s := by
  have hrun : ∃ s ∈ exec Monitor.step (Monitor.start : Monitor 3)
      [.lock 0 .reader, .lock 1 .writer, .lock 2 .writer, .unlock 0 fun t => t = 1],
      (s.rdwr.writerWriting = 0 ∧ s.rdwr.readersReading = 0) ∧
        s.threads 2 = .asleep .writer := by
    decide
  obtain ⟨s, hs, hstate⟩ := hrun
  exact ⟨s, hs, hstate, rdwr_correct _ hs⟩

end Monitor

end TcpIot.Queue
