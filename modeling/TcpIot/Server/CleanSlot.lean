import TcpIot.Server.Routing
import TcpIot.Server.SlotChange

/-!
# What a connection inherits

`new_sock_thread` writes descriptor, framing, address and, for a known address, the destination
of the slot it takes. The other fields are those of the connection that had the slot before.
-/

namespace TcpIot.Server

open Framework

/-- The fields that an earlier client leaves behind. -/
def Threads.withLeftovers (t old : Threads) : Threads :=
  { t with
    clientName := old.clientName
    dest := old.dest
    dirtyFlag := old.dirtyFlag
    timeStamp := old.timeStamp }

/-- The states differ at most in what an earlier client left in slot `k`. -/
structure SameButLeftovers (k : Fin maxThreads) (s s' : State) : Prop where
  slot : s'.pthreadsList k = (s.pthreadsList k).withLeftovers (s'.pthreadsList k)
  others : ∀ i ≠ k, s'.pthreadsList i = s.pthreadsList i
  noThreads : s'.noThreads = s.noThreads
  highestSock : s'.highestSock = s.highestSock
  winClIndex : s'.winClIndex = s.winClIndex
  clientName : s'.clientName = s.clientName
  buff : s'.buff = s.buff

theorem SameButLeftovers.eq_setSlot {k : Fin maxThreads} {s s' : State}
    (h : SameButLeftovers k s s') :
    s' = s.setSlot k ((s.pthreadsList k).withLeftovers (s'.pthreadsList k)) := by
  have htable : s'.pthreadsList = Function.update s.pthreadsList k
      ((s.pthreadsList k).withLeftovers (s'.pthreadsList k)) := by
    funext i
    by_cases hik : i = k
    · rw [hik, Function.update_self]
      exact h.slot
    · rw [Function.update_of_ne hik]
      exact h.others i hik
  calc s' = ⟨s'.pthreadsList, s'.noThreads, s'.highestSock, s'.winClIndex, s'.clientName,
        s'.buff⟩ := rfl
    _ = { s with pthreadsList := s'.pthreadsList } := by
      rw [h.noThreads, h.highestSock, h.winClIndex, h.clientName, h.buff]
    _ = s.setSlot k ((s.pthreadsList k).withLeftovers (s'.pthreadsList k)) := by
      rw [State.setSlot, ← htable]

/-- Empty name, `dirty_flag` 0 and `time_stamp` 0. -/
def Threads.Clean (t : Threads) : Prop :=
  t.clientName.chars = [] ∧ t.dirtyFlag = 0 ∧ t.timeStamp = 0

instance (t : Threads) : Decidable t.Clean := inferInstanceAs (Decidable (_ ∧ _ ∧ _))

/-- Accepting the connection in either state leads to the same state, whose slot `k` is clean
and has the destination that the address determines. -/
def CleanStart (fixed2 : Int → Nat → List UInt8) (k : Fin maxThreads) (fd : Int)
    (address : List UInt8) (s s' : State) : Prop :=
  step fixed2 s' (.accept fd address) = step fixed2 s (.accept fd address) ∧
  ∃ t ∈ step fixed2 s (.accept fd address), (t.pthreadsList k).Clean ∧
    (t.pthreadsList k).dest = destOf (lastOctet address) (-1)

section Accept

variable {fixed2 : Int → Nat → List UInt8} {s : State} {k : Fin maxThreads}

theorem step_accept_eq (hk : nextSlot s = some k) (fd : Int) (address : List UInt8) :
    step fixed2 s (.accept fd address) =
      some { s.setSlot k (registered (s.pthreadsList k) fd address) with
        highestSock := if fd > s.highestSock then fd else s.highestSock
        noThreads := s.noThreads + 1 } := by
  simp only [step, react, newSockThread, hk, Option.map_some]

theorem registered_clean {t : Threads} {fd : Int} {address : List UInt8} :
    (registered t fd address).Clean ↔ t.Clean := Iff.rfl

theorem withLeftovers_clean {t old : Threads} (ht : t.Clean) (hold : old.Clean)
    (hdest : old.dest = t.dest) : t.withLeftovers old = t := by
  have hname : old.clientName = t.clientName := CString.ext (hold.1.trans ht.1.symm)
  have hflag : old.dirtyFlag = t.dirtyFlag := hold.2.1.trans ht.2.1.symm
  have hstamp : old.timeStamp = t.timeStamp := hold.2.2.trans ht.2.2.symm
  rw [Threads.withLeftovers, hname, hdest, hflag, hstamp]

end Accept

/-- For every two reachable states that differ only in what an earlier client left in the free
slot that the connection gets: the connection starts clean, and the same in both, iff the slot
is clean in both. -/
theorem cleanStart_iff {fixed2 : Int → Nat → List UInt8} {stack stack' : Buffer 100}
    {s s' : State} {k : Fin maxThreads} (fd : Int) (address : List UInt8)
    (hs : Reachable (step fixed2) Feasible (init stack) s)
    (hs' : Reachable (step fixed2) Feasible (init stack') s') (hk : nextSlot s = some k)
    (hfree : ¬ s.Live k) (hsame : SameButLeftovers k s s') :
    CleanStart fixed2 k fd address s s' ↔
      (s.pthreadsList k).Clean ∧ (s'.pthreadsList k).Clean := by
  have hsock : (s'.pthreadsList k).sock = (s.pthreadsList k).sock := by
    rw [hsame.slot]
    rfl
  have hfree' : ¬ s'.Live k := by rwa [State.Live, hsock]
  have hdest := ((reachable_wellformed hs).dead k hfree).2
  have hdest' := ((reachable_wellformed hs').dead k hfree').2
  have hk' : nextSlot s' = some k := by
    rw [nextSlot_eq_some] at hk ⊢
    rw [hsame.noThreads]
    exact hk
  constructor
  · rintro ⟨hstep, t, ht, hclean, -⟩
    have hslot {u : State} (hu : nextSlot u = some k)
        (hut : step fixed2 u (.accept fd address) = some t) : (u.pthreadsList k).Clean := by
      rw [step_accept_eq hu] at hut
      cases hut
      rw [setSlot_same] at hclean
      exact registered_clean.mp hclean
    exact ⟨hslot hk ht, hslot hk' (hstep.trans ht)⟩
  · rintro ⟨hclean, hclean'⟩
    have hequal : s' = s := by
      rw [hsame.eq_setSlot, withLeftovers_clean hclean hclean' (hdest'.trans hdest.symm),
        State.setSlot, Function.update_eq_self]
    subst hequal
    refine ⟨rfl, _, step_accept_eq hk fd address, ?_⟩
    dsimp only
    rw [setSlot_same, registered_clean]
    exact ⟨hclean, congrArg (destOf (lastOctet address)) hdest⟩

/-- 154 connects, registers as `wifi client` and is logged off from the console. -/
def loggedOff : List Event :=
  [.accept 4 (ascii "192.168.88.154"), .listenStart 4 0,
    .command 4 11 (.padded 50 (72 :: 1 :: ascii "wifi client")) 0 0,
    .logoffClient (ascii "wifi client")]

/-- The same, with a report at 600 before the logoff. -/
def reportedAndLoggedOff : List Event :=
  [.accept 4 (ascii "192.168.88.154"), .listenStart 4 0,
    .command 4 11 (.padded 50 (72 :: 1 :: ascii "wifi client")) 0 0,
    .command 4 11 (.padded 50 (62 :: 1 :: ascii "wifi client")) 600 0,
    .logoffClient (ascii "wifi client")]

def stateAfter (es : List Event) : State :=
  (exec (step fun _ _ => ascii "0.00") (init (Buffer.zero 100)) es).getD (init (Buffer.zero 100))

theorem loggedOff_reachable :
    Reachable (step fun _ _ => ascii "0.00") Feasible (init (Buffer.zero 100))
      (stateAfter loggedOff) := ⟨loggedOff, by decide, by decide⟩

theorem reportedAndLoggedOff_reachable :
    Reachable (step fun _ _ => ascii "0.00") Feasible (init (Buffer.zero 100))
      (stateAfter reportedAndLoggedOff) := ⟨reportedAndLoggedOff, by decide, by decide⟩

theorem loggedOff_sameButLeftovers :
    SameButLeftovers 0 (stateAfter loggedOff) (stateAfter reportedAndLoggedOff) :=
  ⟨by decide +kernel, by decide +kernel, by decide, by decide, by decide, by decide +kernel,
    by decide +kernel⟩

/-- 147 gets the slot in which 154 has left its name, in one state with the time of a report. -/
theorem cleanStart_iff_logged_off :
    CleanStart (fun _ _ => ascii "0.00") 0 5 (ascii "192.168.88.147") (stateAfter loggedOff)
        (stateAfter reportedAndLoggedOff) ↔
      ((stateAfter loggedOff).pthreadsList 0).Clean ∧
        ((stateAfter reportedAndLoggedOff).pthreadsList 0).Clean :=
  cleanStart_iff 5 _ loggedOff_reachable reportedAndLoggedOff_reachable (by decide) (by decide)
    loggedOff_sameButLeftovers

/-- 147 starts with the name of the client before it, and in one state with the time of its
last report. -/
theorem leftovers_inherited :
    Reachable (step fun _ _ => ascii "0.00") Feasible (init (Buffer.zero 100))
      (stateAfter loggedOff) ∧
    Reachable (step fun _ _ => ascii "0.00") Feasible (init (Buffer.zero 100))
      (stateAfter reportedAndLoggedOff) ∧
    nextSlot (stateAfter loggedOff) = some 0 ∧ ¬ (stateAfter loggedOff).Live 0 ∧
    SameButLeftovers 0 (stateAfter loggedOff) (stateAfter reportedAndLoggedOff) ∧
    ¬ CleanStart (fun _ _ => ascii "0.00") 0 5 (ascii "192.168.88.147") (stateAfter loggedOff)
      (stateAfter reportedAndLoggedOff) := by
  refine ⟨loggedOff_reachable, reportedAndLoggedOff_reachable, by decide, by decide,
    loggedOff_sameButLeftovers, ?_⟩
  rintro ⟨hstep, -⟩
  have hstamp := congrArg (Option.map fun t => (t.pthreadsList 0).timeStamp) hstep
  exact absurd hstamp (by decide)

end TcpIot.Server
