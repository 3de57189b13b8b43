import TcpIot.Framework.Run
import TcpIot.Server.Dispatch

/-!
# The server as a transition system

A step of the server is one turn of one of its threads: `new_sock_thread` registers an accepted
connection, a `listen_thread` starts or handles a message, `timer_thread` visits a slot, or
`logoff_client` is called by the console or after a bad header. The label carries what the
environment decides: descriptors, addresses, received bytes and the time.
-/

namespace TcpIot.Server

open Framework

def timerVisit (s : State) (i : Fin maxThreads) : Option (State × List Effect) :=
  if i.val < s.noThreads ∧ 0 < (s.pthreadsList i).sock then
    let t := { s.pthreadsList i with dirtyFlag := (s.pthreadsList i).dirtyFlag + 1 }
    let s := s.setSlot i t
    if t.dirtyFlag > 1 then
      (((Buffer.zero 100).strcpy t.clientName.chars).bind
        fun buff => buff.strcat (ascii " logged off")).map
        fun buff => logoffClient { s with buff := buff } t.clientName.chars
    else
      s.buff.cstr.map fun text =>
        (s, [if t.winCl = 1 then
            .sendMsgb t.sock (2 * text.length) s.buff.bytes CmdTypes.sendStatus.code
          else .sendMsg t.sock text.length s.buff.bytes CmdTypes.sendStatus.code])
  else some (s, [])

/-- What a `listen_thread` does before its loop. -/
def listenStart (s : State) (sock now : Int) : State :=
  { s with
    clientName := CString.empty 29
    pthreadsList := fun i =>
      if sock = (s.pthreadsList i).sock then { s.pthreadsList i with orgTimeStamp := now }
      else s.pthreadsList i }

inductive Event where
  | accept (newSocket : Int) (address : List UInt8)
  | listenStart (sock now : Int)
  | command (sock msgLen : Int) (tempx : Buffer 50) (now stray : Int)
  | logoffClient (name : List UInt8)
  | timerVisit (i : Fin maxThreads)
deriving DecidableEq

section Step

variable (fixed2 : Int → Nat → List UInt8)

/-- The state after an event, and what the server sent and closed. -/
def react (s : State) : Event → Option (State × List Effect)
  | .accept newSocket address => (newSockThread s newSocket address).map fun s => (s, [])
  | .listenStart sock now => some (Server.listenStart s sock now, [])
  | .command sock msgLen tempx now stray => listenTurn fixed2 s sock msgLen tempx now stray
  | .logoffClient name => some (Server.logoffClient s name)
  | .timerVisit i => Server.timerVisit s i

def step (s : State) (e : Event) : Option State := (react fixed2 s e).map Prod.fst

/-- A message with a command byte that is known is unpacked and dispatched. -/
theorem react_command {s : State} {tempx : Buffer 50} (hrange : CmdInRange (tempx.get 0))
    (sock msgLen now stray : Int) :
    react fixed2 s (.command sock msgLen tempx now stray) =
      (unpack (s.pthreadsList (lookupIndex s sock)).winCl msgLen tempx).bind fun m =>
        dispatch fixed2 (noteWinClient s (lookupIndex s sock)) (lookupIndex s sock) m.1 m.2.2
          (tempx.get 0) m.2.1 now stray := by
  simp only [react, listenTurn, serve, noteWinClient_pthreadsList, if_pos hrange]

end Step

def threeClients : List Event :=
  [.accept 4 (ascii "192.168.88.154"), .accept 5 (ascii "192.168.88.147"),
    .accept 6 (ascii "192.168.88.146")]

/-- `accept` returns a descriptor that is not open. -/
def Feasible (s : State) : Event → Prop
  | .accept newSocket _ => 0 < newSocket ∧ ∀ i, (s.pthreadsList i).sock ≠ newSocket
  | _ => True

instance (s : State) : DecidablePred (Feasible s)
  | .accept _ _ => inferInstanceAs (Decidable (_ ∧ _))
  | .listenStart _ _ | .command _ _ _ _ _ | .logoffClient _ | .timerVisit _ => isTrue trivial

def FreedBy (s : State) : Event → Fin maxThreads → Prop
  | .command sock _ tempx _ _, i =>
    (tempx.get 0 = CmdTypes.disconnectAll.code ∧ i.val < s.noThreads ∧ s.Live i) ∨
    (tempx.get 0 = CmdTypes.disconnect.code ∧ i.val = getDest s (commandDest s sock tempx).toNat ∧
      i.val < s.noThreads ∧ 0 < lookupIndex s sock ∧ s.Live i)
  | .logoffClient name, i => s.Named name i
  | .timerVisit j, i =>
    j.val < s.noThreads ∧ s.Live j ∧ 0 < (s.pthreadsList j).dirtyFlag ∧
      s.Named (s.pthreadsList j).clientName.chars i
  | _, _ => False

instance (s : State) : (e : Event) → DecidablePred (FreedBy s e)
  | .accept _ _, _ | .listenStart _ _, _ => isFalse id
  | .command _ _ _ _ _, _ => inferInstanceAs (Decidable (_ ∨ _))
  | .logoffClient _, _ => inferInstanceAs (Decidable (State.Named _ _ _))
  | .timerVisit _, _ => inferInstanceAs (Decidable (_ ∧ _))

/-- The event is a `DISCONNECT_ALL`, the one way to clear slots without counting them. -/
def Uncounted : Event → Prop
  | .command _ _ tempx _ _ => tempx.get 0 = CmdTypes.disconnectAll.code
  | _ => False

instance : DecidablePred Uncounted
  | .command _ _ _ _ _ => inferInstanceAs (Decidable (_ = _))
  | .accept _ _ | .listenStart _ _ | .logoffClient _ | .timerVisit _ => isFalse id

/-- `t` is `s` with the slots in `p` cleared and `no_threads` lowered by `n`. -/
structure Freed (p : Fin maxThreads → Prop) (n : Nat) (s t : State) : Prop where
  cleared : ∀ i, p i → (t.pthreadsList i).sock = -1 ∧ (t.pthreadsList i).dest = -1
  kept : ∀ i, ¬ p i → (t.pthreadsList i).sock = (s.pthreadsList i).sock ∧
    (t.pthreadsList i).dest = (s.pthreadsList i).dest
  noThreads : t.noThreads = s.noThreads - n
  highestSock : t.highestSock = s.highestSock

/-- The two states have the same descriptors, destinations and counters. -/
abbrev SameTable (s t : State) : Prop := Freed (fun _ => False) 0 s t

theorem SameTable.refl (s : State) : SameTable s s :=
  ⟨fun _ h => h.elim, fun _ _ => ⟨rfl, rfl⟩, (sub_zero _).symm, rfl⟩

theorem SameTable.trans {s t u : State} (h : SameTable s t) (h' : SameTable t u) :
    SameTable s u := by
  refine ⟨fun _ hi => hi.elim, ?_, ?_, h'.highestSock.trans h.highestSock⟩
  · intro i hi
    exact ⟨(h'.kept i hi).1.trans (h.kept i hi).1, (h'.kept i hi).2.trans (h.kept i hi).2⟩
  · rw [h'.noThreads, h.noThreads]
    omega

theorem SameTable.setSlot {s : State} {i : Fin maxThreads} {t : Threads}
    (hsock : t.sock = (s.pthreadsList i).sock) (hdest : t.dest = (s.pthreadsList i).dest) :
    SameTable s (s.setSlot i t) := by
  refine ⟨fun _ h => h.elim, ?_, (sub_zero _).symm, rfl⟩
  intro j _
  by_cases hji : j = i
  · subst hji
    rw [setSlot_same]
    exact ⟨hsock, hdest⟩
  · rw [setSlot_ne s t hji]
    exact ⟨rfl, rfl⟩

theorem SameTable.freed {p q : Fin maxThreads → Prop} {n : Nat} {s t u : State}
    (h : SameTable s t) (h' : Freed p n t u) (hpq : ∀ i, p i ↔ q i) : Freed q n s u := by
  refine ⟨fun i hi => h'.cleared i ((hpq i).mpr hi), ?_, ?_, h'.highestSock.trans h.highestSock⟩
  · intro i hi
    have hkept := h'.kept i (mt (hpq i).mp hi)
    exact ⟨hkept.1.trans (h.kept i id).1, hkept.2.trans (h.kept i id).2⟩
  · rw [h'.noThreads, h.noThreads]
    omega

private theorem updateStatus_sameTable {fixed2 : Int → Nat → List UInt8} {now stray : Int}
    {is : List (Fin maxThreads)} {s : State} {tempx : Buffer 50} {r : State × List Effect}
    (h : updateStatus fixed2 now stray is s tempx = some r) : SameTable s r.1 := by
  induction is generalizing s tempx r with
  | nil =>
    cases h
    exact .refl s
  | cons i is ih =>
    have hset : SameTable s (s.setSlot i ((s.pthreadsList i).refreshed now)) := .setSlot rfl rfl
    rcases updateStatus_cons h with ⟨-, hnext⟩ | ⟨-, text, sent, hnext, -⟩
    · exact ih hnext
    · have hrec := ih hnext
      exact hset.trans hrec

private theorem setClientName_sameTable {s t : State} {index : Fin maxThreads}
    {tempx : Buffer 50} (h : setClientName s index tempx = some t) : SameTable s t := by
  obtain ⟨name, -, rfl⟩ := Option.map_eq_some_iff.mp h
  have hset : SameTable s (s.setSlot index { s.pthreadsList index with clientName := name }) :=
    .setSlot rfl rfl
  exact ⟨hset.cleared, hset.kept, hset.noThreads, hset.highestSock⟩

private theorem disconnectAll_freed {s : State} {msgLen : Int} {tempx : Buffer 50}
    {r : State × List Effect} (h : disconnectAll s msgLen tempx = some r) :
    Freed (fun i => i.val < s.noThreads ∧ s.Live i) 0 s r.1 := by
  unfold disconnectAll at h
  split at h
  · cases h
    have hslot (i : Fin maxThreads) :=
      congrFun (sweep_fst (BelowLive s) Threads.wiped (List.finRange maxThreads) s.pthreadsList
        (List.nodup_finRange maxThreads)) i
    simp only [List.mem_finRange, true_and] at hslot
    refine ⟨?_, ?_, (sub_zero _).symm, rfl⟩
    · intro i hi
      have hbelow : BelowLive s i (s.pthreadsList i) := hi
      dsimp only
      rw [hslot, if_pos hbelow]
      exact ⟨rfl, rfl⟩
    · intro i hi
      have hbelow : ¬ BelowLive s i (s.pthreadsList i) := hi
      dsimp only
      rw [hslot, if_neg hbelow]
      exact ⟨rfl, rfl⟩
  · cases h

private abbrev disconnectSlot (s : State) (index : Fin maxThreads) (dest : UInt8)
    (i : Fin maxThreads) : Prop :=
  i.val = getDest s dest.toNat ∧ i.val < s.noThreads ∧ 0 < index ∧ s.Live i

private theorem freed_none {p : Fin maxThreads → Prop} [DecidablePred p] {s t : State}
    (hno : ∀ i, ¬ p i) (ht : SameTable s t) : Freed p (slotCount p) s t := by
  rw [slotCount_eq_zero hno]
  exact (SameTable.refl s).freed ht fun i => ⟨False.elim, hno i⟩

private theorem disconnect_freed {s : State} {index : Fin maxThreads} {msgLen : Int}
    {tempx : Buffer 50} {cmd dest : UInt8} {r : State × List Effect}
    (h : disconnect s index msgLen tempx cmd dest = some r) :
    Freed (disconnectSlot s index dest) (slotCount (disconnectSlot s index dest)) s r.1 := by
  simp only [disconnect] at h
  split at h
  · rename_i hguard
    obtain ⟨k, hk, hr⟩ := Option.map_eq_some_iff.mp h
    have hval := slotAt_eq_some.mp hk
    split at hr
    · rename_i hlive
      subst hr
      have hiff (i : Fin maxThreads) : disconnectSlot s index dest i ↔ i = k := by
        constructor
        · intro hi
          exact Fin.ext (hi.1.trans hval.symm)
        · rintro rfl
          exact ⟨hval, hval ▸ hguard.1, hguard.2, hlive⟩
      rw [slotCount_eq_one hiff]
      refine ⟨?_, ?_, rfl, rfl⟩
      · intro i hi
        have hik := (hiff i).mp hi
        subst hik
        simp [State.setSlot, Threads.wiped]
      · intro i hi
        have hne : i ≠ k := mt (hiff i).mpr hi
        simp [State.setSlot, hne]
    · rename_i hdead
      subst hr
      refine freed_none ?_ (.refl s)
      intro i hi
      have hik : i = k := Fin.ext (hi.1.trans hval.symm)
      subst hik
      exact hdead hi.2.2.2
  · rename_i hguard
    cases h
    refine freed_none ?_ (.refl s)
    intro i hi
    exact hguard ⟨hi.1 ▸ hi.2.1, hi.2.2.1⟩

private theorem logoffClient_freed (s : State) (name : List UInt8) :
    Freed (s.Named name) (slotCount (s.Named name)) s (logoffClient s name).1 := by
  refine ⟨?_, ?_, logoffClient_noThreads s name, rfl⟩
  · intro i hi
    rw [logoffClient_slot, if_pos hi]
    exact ⟨rfl, rfl⟩
  · intro i hi
    rw [logoffClient_slot, if_neg hi]
    exact ⟨rfl, rfl⟩

theorem named_setSlot (s : State) (i : Fin maxThreads) (t : Threads) (name : List UInt8)
    (hname : t.clientName = (s.pthreadsList i).clientName)
    (hsock : t.sock = (s.pthreadsList i).sock) (j : Fin maxThreads) :
    (s.setSlot i t).Named name j ↔ s.Named name j := by
  unfold State.Named NamedLive
  by_cases hji : j = i
  · subst hji
    rw [setSlot_same, hname, hsock]
  · rw [setSlot_ne s t hji]

private theorem noteWinClient_sameTable (s : State) (index : Fin maxThreads) :
    SameTable s (noteWinClient s index) := by
  refine ⟨fun _ hi => hi.elim, fun i _ => ?_, ?_, noteWinClient_highestSock s index⟩
  · rw [noteWinClient_pthreadsList]
    exact ⟨rfl, rfl⟩
  · rw [noteWinClient_noThreads]
    exact (sub_zero _).symm

private theorem timerVisit_freed {s : State} {j : Fin maxThreads} {r : State × List Effect}
    (h : timerVisit s j = some r) :
    Freed (FreedBy s (.timerVisit j)) (slotCount (FreedBy s (.timerVisit j))) s r.1 := by
  simp only [timerVisit] at h
  split at h
  · rename_i hvisit
    split at h
    · rename_i hdirty
      obtain ⟨buff, -, rfl⟩ := Option.map_eq_some_iff.mp h
      set t : Threads :=
        { s.pthreadsList j with dirtyFlag := (s.pthreadsList j).dirtyFlag + 1 } with ht
      set u : State := { s.setSlot j t with buff := buff }
      have hset : SameTable s (s.setSlot j t) := .setSlot rfl rfl
      have hu : SameTable s u := ⟨hset.cleared, hset.kept, hset.noThreads, hset.highestSock⟩
      have hnamed (i : Fin maxThreads) :
          u.Named t.clientName.chars i ↔ FreedBy s (.timerVisit j) i := by
        have hset := named_setSlot s j t t.clientName.chars rfl rfl i
        constructor
        · exact fun hi => ⟨hvisit.1, hvisit.2, by omega, hset.mp hi⟩
        · exact fun hi => hset.mpr hi.2.2.2
      rw [← slotCount_congr hnamed]
      exact hu.freed (logoffClient_freed u t.clientName.chars) hnamed
    · rename_i hclean
      obtain ⟨text, -, rfl⟩ := Option.map_eq_some_iff.mp h
      refine freed_none ?_ (.setSlot rfl rfl)
      intro i hi
      have hdirty : 0 < (s.pthreadsList j).dirtyFlag := hi.2.2.1
      omega
  · rename_i hvisit
    cases h
    exact freed_none (fun i hi => hvisit ⟨hi.1, hi.2.1⟩) (.refl s)

private theorem listenTurn_freed {fixed2 : Int → Nat → List UInt8} {s : State}
    {sock msgLen now stray : Int} {tempx : Buffer 50} {r : State × List Effect}
    (h : listenTurn fixed2 s sock msgLen tempx now stray = some r) :
    Freed (FreedBy s (.command sock msgLen tempx now stray))
      (if Uncounted (.command sock msgLen tempx now stray) then 0
        else slotCount (FreedBy s (.command sock msgLen tempx now stray))) s r.1 := by
  set index := lookupIndex s sock with hindex
  set s' := noteWinClient s index with hs'
  set dest := commandDest s sock tempx with hdest
  have hnote : SameTable s s' := noteWinClient_sameTable s index
  have hlive (i : Fin maxThreads) : s'.Live i ↔ s.Live i := by
    rw [State.Live, State.Live, hs', noteWinClient_pthreadsList]
  have hno : s'.noThreads = s.noThreads := noteWinClient_noThreads s index
  have hget : getDest s' dest.toNat = getDest s dest.toNat :=
    getDest_congr _ (noteWinClient_pthreadsList s index) (noteWinClient_highestSock s index)
  have hother (hcmd : tempx.get 0 ≠ CmdTypes.disconnectAll.code)
      (hcmd' : tempx.get 0 ≠ CmdTypes.disconnect.code) (hr : SameTable s r.1) :
      Freed (FreedBy s (.command sock msgLen tempx now stray))
        (if Uncounted (.command sock msgLen tempx now stray) then 0
          else slotCount (FreedBy s (.command sock msgLen tempx now stray))) s r.1 := by
    rw [if_neg (show ¬ Uncounted (.command sock msgLen tempx now stray) from hcmd)]
    refine freed_none (fun i hi => ?_) hr
    rcases hi with hi | hi
    · exact hcmd hi.1
    · exact hcmd' hi.1
  rcases listenTurn_cases h with ⟨hrange, rfl⟩ | ⟨len, text, -, -, hdispatch⟩
  · refine hother ?_ ?_ hnote
    · rintro hcmd
      exact hrange (hcmd ▸ by decide)
    · rintro hcmd
      exact hrange (hcmd ▸ by decide)
  rcases dispatch_cases hdispatch with ⟨hcmd, hr⟩ | ⟨hcmd, hr⟩ | ⟨hcmd, hr⟩ | ⟨hcmd, hr⟩ |
    ⟨hcmd, hr⟩
  · refine hother (by rw [hcmd]; decide) (by rw [hcmd]; decide) ?_
    exact hnote.trans (setClientName_sameTable hr)
  · refine hother (by rw [hcmd]; decide) (by rw [hcmd]; decide) ?_
    exact hnote.trans (updateStatus_sameTable hr)
  · have hall : Uncounted (.command sock msgLen tempx now stray) := hcmd
    rw [if_pos hall]
    refine hnote.freed (disconnectAll_freed hr) fun i => ?_
    rw [hlive, hno]
    constructor
    · exact fun hi => .inl ⟨hcmd, hi⟩
    · rintro (hi | hi)
      · exact hi.2
      · exact absurd (hcmd.symm.trans hi.1) (by decide)
  · have hone : ¬ Uncounted (.command sock msgLen tempx now stray) :=
      fun hc => absurd (hcmd.symm.trans hc) (by decide)
    have hiff (i : Fin maxThreads) : disconnectSlot s' index dest i ↔
        FreedBy s (.command sock msgLen tempx now stray) i := by
      rw [disconnectSlot, hlive, hno, hget]
      constructor
      · exact fun hi => .inr ⟨hcmd, hi⟩
      · rintro (hi | hi)
        · exact absurd (hcmd.symm.trans hi.1) (by decide)
        · exact hi.2
    rw [if_neg hone, ← slotCount_congr hiff]
    exact hnote.freed (disconnect_freed hr) hiff
  · refine hother (fun hc => hcmd (.inr (.inr (.inl hc))))
      (fun hc => hcmd (.inr (.inr (.inr hc)))) ?_
    rw [hr]
    exact hnote

/-- A step that is not an accept clears the slots of `FreedBy`, counts them off unless it is a
`DISCONNECT_ALL`, and leaves every other descriptor and destination alone. -/
theorem step_freed {fixed2 : Int → Nat → List UInt8} {s t : State} {e : Event}
    (hstep : step fixed2 s e = some t) (he : ∀ fd address, e ≠ .accept fd address) :
    Freed (FreedBy s e) (if Uncounted e then 0 else slotCount (FreedBy s e)) s t := by
  obtain ⟨r, hr, rfl⟩ := Option.map_eq_some_iff.mp hstep
  cases e with
  | accept fd address => exact absurd rfl (he fd address)
  | listenStart sock now =>
    cases hr
    have hnone (i : Fin maxThreads) : ¬ FreedBy s (.listenStart sock now) i := id
    rw [slotCount_eq_zero hnone, ite_self]
    refine ⟨fun i hi => (hnone i hi).elim, fun i _ => ?_, (sub_zero _).symm, rfl⟩
    simp only [Server.listenStart]
    split <;> exact ⟨rfl, rfl⟩
  | command sock msgLen tempx now stray => exact listenTurn_freed hr
  | logoffClient name =>
    cases hr
    exact logoffClient_freed s name
  | timerVisit i => exact timerVisit_freed hr

theorem Freed.sock {p : Fin maxThreads → Prop} {n : Nat} {s t : State} (h : Freed p n s t)
    (k : Fin maxThreads) : (t.pthreadsList k).sock = (s.pthreadsList k).sock ∨
      (t.pthreadsList k).sock = -1 := by
  by_cases hk : p k
  · exact .inr (h.cleared k hk).1
  · exact .inl (h.kept k hk).1

theorem serve_sock {fixed2 : Int → Nat → List UInt8} {s : State} {index : Fin maxThreads}
    {msgLen now stray : Int} {tempx : Buffer 50} {r : State × List Effect}
    (h : serve fixed2 s index msgLen tempx now stray = some r) (k : Fin maxThreads) :
    (r.1.pthreadsList k).sock = (s.pthreadsList k).sock ∨ (r.1.pthreadsList k).sock = -1 := by
  simp only [serve] at h
  split at h
  · obtain ⟨⟨len, dest, text⟩, -, hdispatch⟩ := Option.bind_eq_some_iff.mp h
    rcases dispatch_cases hdispatch with ⟨-, hr⟩ | ⟨-, hr⟩ | ⟨-, hr⟩ | ⟨-, hr⟩ | ⟨-, hr⟩
    · exact (setClientName_sameTable hr).sock k
    · exact (updateStatus_sameTable hr).sock k
    · exact (disconnectAll_freed hr).sock k
    · exact (disconnect_freed hr).sock k
    · exact .inl (by rw [hr])
  · cases h
    exact .inl rfl

/-- `t` is `s` after the connection `fd` was registered in slot `k`. -/
structure Accepted (k : Fin maxThreads) (fd : Int) (address : List UInt8) (s t : State) :
    Prop where
  next : s.noThreads = k
  noThreads : t.noThreads = s.noThreads + 1
  highestSock : t.highestSock = max fd s.highestSock
  filled : t.pthreadsList k = registered (s.pthreadsList k) fd address
  kept : ∀ i ≠ k, t.pthreadsList i = s.pthreadsList i

theorem step_accept {fixed2 : Int → Nat → List UInt8} {s t : State} {fd : Int}
    {address : List UInt8} (hstep : step fixed2 s (.accept fd address) = some t) :
    ∃ k, Accepted k fd address s t := by
  obtain ⟨r, hr, rfl⟩ := Option.map_eq_some_iff.mp hstep
  obtain ⟨u, hu, rfl⟩ := Option.map_eq_some_iff.mp hr
  obtain ⟨k, hk, rfl⟩ := Option.map_eq_some_iff.mp hu
  refine ⟨k, nextSlot_eq_some.mp hk, rfl, ?_, setSlot_same s k _, fun i hi => setSlot_ne s _ hi⟩
  dsimp only
  split <;> omega

theorem Accepted.live {k : Fin maxThreads} {fd : Int} {address : List UInt8} {s t : State}
    (h : Accepted k fd address s t) (hfd : 0 < fd) (i : Fin maxThreads) :
    t.Live i ↔ i = k ∨ s.Live i := by
  unfold State.Live
  by_cases hik : i = k
  · subst hik
    rw [h.filled]
    simpa [registered] using hfd
  · rw [h.kept i hik]
    simp [hik]

/-- Descriptors and counters fit together: cleared slots have no destination, live descriptors
differ, `highest_sock` bounds them, and `no_threads` counts at least the live slots. -/
structure Wellformed (s : State) : Prop where
  dead : ∀ i, ¬ s.Live i → (s.pthreadsList i).sock = -1 ∧ (s.pthreadsList i).dest = -1
  distinct : ∀ i j, s.Live i → (s.pthreadsList j).sock = (s.pthreadsList i).sock → j = i
  highest : ∀ i, (s.pthreadsList i).sock ≤ s.highestSock
  counted : (slotCount s.Live : Int) ≤ s.noThreads
  inTable : s.noThreads ≤ maxThreads

theorem init_wellformed (stack : Buffer 100) : Wellformed (init stack) := by
  have hdead (i : Fin maxThreads) : ¬ (init stack).Live i := by
    show ¬ (0 : Int) < -1
    decide
  refine ⟨fun _ _ => ⟨rfl, rfl⟩, fun i _ hi => (hdead i hi).elim, fun i => ?_, ?_, ?_⟩
  · show (-1 : Int) ≤ 0
    decide
  · rw [slotCount_eq_zero hdead]
    exact le_refl (0 : Int)
  · show (0 : Int) ≤ 7
    decide

theorem freedBy_live {s : State} {e : Event} {i : Fin maxThreads} (h : FreedBy s e i) :
    s.Live i := by
  cases e with
  | accept fd address => exact h.elim
  | listenStart sock now => exact h.elim
  | command sock msgLen tempx now stray =>
    rcases h with h | h
    · exact h.2.2
    · exact h.2.2.2.2
  | logoffClient name => exact h.2
  | timerVisit j => exact h.2.2.2.2

theorem Freed.live {p : Fin maxThreads → Prop} {n : Nat} {s t : State} (h : Freed p n s t)
    (i : Fin maxThreads) : t.Live i ↔ s.Live i ∧ ¬ p i := by
  unfold State.Live
  by_cases hi : p i
  · rw [(h.cleared i hi).1]
    simp [hi]
  · rw [(h.kept i hi).1]
    simp [hi]

theorem Freed.slotCount {s t : State} {e : Event} {n : Nat} (h : Freed (FreedBy s e) n s t) :
    slotCount t.Live + slotCount (FreedBy s e) = slotCount s.Live := by
  rw [← slotCount_split s.Live (FreedBy s e), slotCount_congr h.live, add_comm]
  congr 1
  apply slotCount_congr
  intro i
  exact ⟨fun hi => ⟨freedBy_live hi, hi⟩, fun hi => hi.2⟩

theorem Accepted.wellformed {k : Fin maxThreads} {fd : Int} {address : List UInt8} {s t : State}
    (hacc : Accepted k fd address s t) (hs : Wellformed s) (hfd : 0 < fd)
    (hfresh : ∀ i, (s.pthreadsList i).sock ≠ fd) : Wellformed t := by
  have hlive := hacc.live hfd
  have hsock : (t.pthreadsList k).sock = fd := by rw [hacc.filled]; rfl
  refine ⟨?_, ?_, ?_, ?_, ?_⟩
  · intro i hi
    have hik : i ≠ k := fun h => hi ((hlive i).mpr (.inl h))
    rw [hacc.kept i hik]
    exact hs.dead i fun h => hi ((hlive i).mpr (.inr h))
  · intro i j hi hij
    by_cases hik : i = k
    · by_cases hjk : j = k
      · exact hjk.trans hik.symm
      · rw [hik, hsock, hacc.kept j hjk] at hij
        exact absurd hij (hfresh j)
    · by_cases hjk : j = k
      · rw [hjk, hsock, hacc.kept i hik] at hij
        exact absurd hij.symm (hfresh i)
      · rw [hacc.kept i hik, hacc.kept j hjk] at hij
        exact hs.distinct i j (((hlive i).mp hi).resolve_left hik) hij
  · intro i
    rw [hacc.highestSock]
    by_cases hik : i = k
    · rw [hik, hsock]
      exact le_max_left _ _
    · rw [hacc.kept i hik]
      exact (hs.highest i).trans (le_max_right _ _)
  · have hinsert := slotCount_insert hlive
    have hcounted := hs.counted
    rw [hacc.noThreads]
    omega
  · have hk := k.isLt
    rw [hacc.noThreads, hacc.next]
    omega

theorem Freed.wellformed {s t : State} {e : Event} {n : Nat} (hfreed : Freed (FreedBy s e) n s t)
    (hs : Wellformed s) (hn : n ≤ Framework.slotCount (FreedBy s e)) : Wellformed t := by
  have hlive := hfreed.live
  refine ⟨?_, ?_, ?_, ?_, ?_⟩
  · intro i hi
    by_cases hp : FreedBy s e i
    · exact hfreed.cleared i hp
    · rw [(hfreed.kept i hp).1, (hfreed.kept i hp).2]
      exact hs.dead i fun h => hi ((hlive i).mpr ⟨h, hp⟩)
  · intro i j hi hij
    obtain ⟨hlive', hp⟩ := (hlive i).mp hi
    rw [(hfreed.kept i hp).1] at hij
    by_cases hpj : FreedBy s e j
    · rw [(hfreed.cleared j hpj).1] at hij
      rw [State.Live] at hlive'
      omega
    · rw [(hfreed.kept j hpj).1] at hij
      exact hs.distinct i j hlive' hij
  · intro i
    have hi := hs.highest i
    rw [hfreed.highestSock]
    by_cases hp : FreedBy s e i
    · have hpos : 0 < (s.pthreadsList i).sock := freedBy_live hp
      rw [(hfreed.cleared i hp).1]
      omega
    · rw [(hfreed.kept i hp).1]
      exact hi
  · have hsplit := hfreed.slotCount
    have hcounted := hs.counted
    rw [hfreed.noThreads]
    omega
  · have hin := hs.inTable
    rw [hfreed.noThreads]
    omega

theorem Wellformed.step {fixed2 : Int → Nat → List UInt8} {s t : State} {e : Event}
    (hs : Wellformed s) (hfeas : Feasible s e) (hstep : step fixed2 s e = some t) :
    Wellformed t := by
  by_cases he : ∃ fd address, e = .accept fd address
  · obtain ⟨fd, address, rfl⟩ := he
    obtain ⟨k, hacc⟩ := step_accept hstep
    exact hacc.wellformed hs hfeas.1 hfeas.2
  · have hfreed := step_freed hstep fun fd address h => he ⟨fd, address, h⟩
    refine hfreed.wellformed hs ?_
    split
    · exact Nat.zero_le _
    · exact le_refl _

end TcpIot.Server
