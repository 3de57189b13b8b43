import TcpIot.Server.System

/-!
# The heartbeat

`timer_thread` counts its visits to a client in `dirty_flag`, `UPDATE_STATUS` resets the count
of every slot that carries the client's name, and a client found with a count is logged off by
its name. A ghost record of each connection says which of them have answered in time.
-/

namespace TcpIot.Server

open Framework

/-- What happened to the connection in a slot: the name it registered, whether a `SEND_STATUS`
is unanswered, and whether the timer came back before an answer. -/
structure Watch where
  registered : Option (List UInt8)
  awaiting : Bool
  missed : Bool
deriving DecidableEq

def Watch.fresh : Watch := ⟨none, false, false⟩

def messageText (s : State) (sock msgLen : Int) (tempx : Buffer 50) : Option (List UInt8) :=
  (unpack (s.pthreadsList (lookupIndex s sock)).winCl msgLen tempx).bind fun m => m.2.2.cstr

/-- Record an event. A message counts for the connection whose slot the thread uses. -/
def track (s : State) (g : Fin maxThreads → Watch) : Event → Fin maxThreads → Watch
  | .accept _ _ => fun k => if nextSlot s = some k then .fresh else g k
  | .command sock msgLen tempx _ _ => fun k =>
    if k = lookupIndex s sock then
      if tempx.get 0 = CmdTypes.setClientName.code then
        { g k with registered := messageText s sock msgLen tempx }
      else if tempx.get 0 = CmdTypes.updateStatus.code ∧ (g k).registered.isSome ∧
          (g k).registered = messageText s sock msgLen tempx then
        { g k with awaiting := false }
      else g k
    else g k
  | .timerVisit i => fun k =>
    if k = i ∧ i.val < s.noThreads ∧ s.Live i then
      { g k with awaiting := true, missed := (g k).missed || (g k).awaiting }
    else g k
  | _ => g

def watchStep (fixed2 : Int → Nat → List UInt8) (s : State × (Fin maxThreads → Watch))
    (e : Event) : Option (State × (Fin maxThreads → Watch)) :=
  (step fixed2 s.1 e).map fun t => (t, track s.1 s.2 e)

def DistinctNames (s : State × (Fin maxThreads → Watch)) : Prop :=
  ∀ i j, s.1.Live i → s.1.Live j → (s.2 i).registered.isSome →
    (s.2 i).registered = (s.2 j).registered → i = j

instance (s : State × (Fin maxThreads → Watch)) : Decidable (DistinctNames s) :=
  inferInstanceAs (Decidable (∀ i j, _ → _ → _ → _ → i = j))

/-- The connection in slot `k` has answered every `SEND_STATUS` before the timer came back, up
to the visit to slot `i` that is about to happen. -/
def AnsweredInTime (s : State × (Fin maxThreads → Watch)) (i k : Fin maxThreads) : Prop :=
  (s.2 k).missed = false ∧ (k = i → (s.2 k).awaiting = false)

instance (s : State × (Fin maxThreads → Watch)) (i k : Fin maxThreads) :
    Decidable (AnsweredInTime s i k) := inferInstanceAs (Decidable (_ ∧ _))

/-- A timer visit logs off no client that has answered in time. -/
def SparesAnswering (s : State × (Fin maxThreads → Watch)) : Event → Prop
  | .timerVisit i => ∀ k, AnsweredInTime s i k → ¬ FreedBy s.1 (.timerVisit i) k
  | _ => True

instance (s : State × (Fin maxThreads → Watch)) : DecidablePred (SparesAnswering s)
  | .timerVisit _ => inferInstanceAs (Decidable (∀ _, _ → ¬ _))
  | .accept _ _ | .listenStart _ _ | .command _ _ _ _ _ | .logoffClient _ => isTrue trivial

/-- A connection gets a slot with a clean flag; an `UPDATE_STATUS` with the name in the sender's
slot meets no lower slot of that name that has reported before; a timed-out name is carried by
no other live slot. -/
def Undisturbed (s : State) : Event → Prop
  | .accept _ _ => ∀ k, nextSlot s = some k → (s.pthreadsList k).dirtyFlag = 0
  | .command sock msgLen tempx _ _ =>
    tempx.get 0 = CmdTypes.updateStatus.code →
      messageText s sock msgLen tempx =
        some (s.pthreadsList (lookupIndex s sock)).clientName.chars →
      ∀ i < lookupIndex s sock,
        (s.pthreadsList i).clientName = (s.pthreadsList (lookupIndex s sock)).clientName →
        (s.pthreadsList i).timeStamp ≤ 0
  | .timerVisit i =>
    i.val < s.noThreads → s.Live i → 0 < (s.pthreadsList i).dirtyFlag →
      ∀ k, s.Named (s.pthreadsList i).clientName.chars k → k = i
  | _ => True

instance (s : State) : DecidablePred (Undisturbed s)
  | .accept _ _ => inferInstanceAs (Decidable (∀ _, _ → _))
  | .command _ _ _ _ _ => inferInstanceAs (Decidable (_ → _ → ∀ _, _ → _ → _))
  | .timerVisit _ => inferInstanceAs (Decidable (_ → _ → _ → ∀ _, _ → _))
  | .listenStart _ _ | .logoffClient _ => isTrue trivial

theorem sameText_iff {name : CString 30} {tempx : Buffer 50} :
    SameText name tempx ↔ tempx.cstr = some name.chars := by
  rw [Buffer.cstr_eq_some]
  constructor
  · rintro ⟨rest, hrest⟩
    refine ⟨name.noNul, rest, ?_⟩
    rw [← hrest, List.append_assoc]
    rfl
  · rintro ⟨-, rest, hrest⟩
    refine ⟨rest, ?_⟩
    rw [hrest, List.append_assoc]
    rfl

section Slots

variable {fixed2 : Int → Nat → List UInt8} {s : State} {now stray : Int}

theorem updateStatus_slot {is : List (Fin maxThreads)} {tempx : Buffer 50}
    {r : State × List Effect} (h : updateStatus fixed2 now stray is s tempx = some r)
    (k : Fin maxThreads) : r.1.pthreadsList k = s.pthreadsList k ∨
      r.1.pthreadsList k = (s.pthreadsList k).refreshed now := by
  induction is generalizing s tempx r with
  | nil =>
    cases h
    exact .inl rfl
  | cons i is ih =>
    rcases updateStatus_cons h with ⟨-, hnext⟩ | ⟨-, text, sent, hnext, -⟩
    · exact ih hnext
    · have hrec := ih hnext
      by_cases hki : k = i
      · subst hki
        rw [setSlot_same] at hrec
        exact .inr (hrec.elim id id)
      · rwa [setSlot_ne s _ hki] at hrec

/-- The sender's own flag is reset when no lower slot changes the text before its turn. -/
private theorem updateStatus_clears {is : List (Fin maxThreads)} {tempx : Buffer 50}
    {r : State × List Effect} (h : updateStatus fixed2 now stray is s tempx = some r)
    (hsorted : is.Pairwise (· < ·)) {k : Fin maxThreads} (hk : k ∈ is)
    (hname : SameText (s.pthreadsList k).clientName tempx)
    (hlower : ∀ i ∈ is, i < k → SameText (s.pthreadsList i).clientName tempx →
      (s.pthreadsList i).timeStamp ≤ 0) :
    (r.1.pthreadsList k).dirtyFlag = 0 := by
  induction is generalizing s tempx r with
  | nil => cases hk
  | cons i is ih =>
    obtain ⟨hhead, htail⟩ := List.pairwise_cons.mp hsorted
    rcases updateStatus_cons h with ⟨hi, hnext⟩ | ⟨hi, text, sent, hnext, htext⟩
    · have hki : k ≠ i := by
        rintro rfl
        exact hi hname
      have hmem : k ∈ is := (List.mem_cons.mp hk).resolve_left hki
      exact ih hnext htail hmem hname fun j hj => hlower j (List.mem_cons_of_mem i hj)
    · by_cases hki : k = i
      · subst hki
        have hslot := updateStatus_slot hnext k
        rw [setSlot_same] at hslot
        rcases hslot with hslot | hslot
        · rw [hslot]
          rfl
        · rw [hslot]
          rfl
      · have hmem : k ∈ is := (List.mem_cons.mp hk).resolve_left hki
        have hkeep := htext.1 (hlower i List.mem_cons_self (hhead k hmem) hi)
        subst hkeep
        refine ih (r := (r.1, sent)) hnext htail hmem ?_ ?_
        · rwa [setSlot_ne s _ hki]
        · intro j hj hjk hsame
          have hji : j ≠ i := fun heq => absurd (hhead j hj) (heq ▸ lt_irrefl i)
          rw [setSlot_ne s _ hji] at hsame ⊢
          exact hlower j (List.mem_cons_of_mem i hj) hjk hsame

theorem disconnect_slot {index : Fin maxThreads} {msgLen : Int} {tempx : Buffer 50}
    {cmd dest : UInt8} {r : State × List Effect}
    (h : disconnect s index msgLen tempx cmd dest = some r) (k : Fin maxThreads) :
    r.1.pthreadsList k = s.pthreadsList k ∨ r.1.pthreadsList k = (s.pthreadsList k).wiped := by
  simp only [disconnect] at h
  split at h
  · obtain ⟨i, -, hr⟩ := Option.map_eq_some_iff.mp h
    split at hr
    · subst hr
      by_cases hki : k = i
      · subst hki
        exact .inr (setSlot_same s k _)
      · exact .inl (setSlot_ne s _ hki)
    · subst hr
      exact .inl rfl
  · cases h
    exact .inl rfl

theorem disconnectAll_slot {msgLen : Int} {tempx : Buffer 50} {r : State × List Effect}
    (h : disconnectAll s msgLen tempx = some r) (k : Fin maxThreads) :
    r.1.pthreadsList k = s.pthreadsList k ∨ r.1.pthreadsList k = (s.pthreadsList k).wiped := by
  unfold disconnectAll at h
  split at h
  · cases h
    have hslot := congrFun (sweep_fst (BelowLive s) Threads.wiped (List.finRange maxThreads)
      s.pthreadsList (List.nodup_finRange maxThreads)) k
    simp only [List.mem_finRange, true_and] at hslot
    dsimp only
    rw [hslot]
    split
    · exact .inr rfl
    · exact .inl rfl
  · cases h

theorem setClientName_slot {t : State} {index : Fin maxThreads} {tempx : Buffer 50}
    (h : setClientName s index tempx = some t) :
    ∃ name : CString 30, tempx.cstr = some name.chars ∧
      t.pthreadsList index = { s.pthreadsList index with clientName := name } ∧
      ∀ k ≠ index, t.pthreadsList k = s.pthreadsList k := by
  obtain ⟨name, hname, rfl⟩ := Option.map_eq_some_iff.mp h
  obtain ⟨chars, hchars, hfits⟩ := Option.bind_eq_some_iff.mp hname
  rw [CString.ofChars_eq_some] at hfits
  exact ⟨name, hchars.trans (congrArg some hfits.symm), setSlot_same s index _,
    fun k hk => setSlot_ne s _ hk⟩

variable {sock msgLen : Int} {tempx : Buffer 50} {r : State × List Effect}

/-- A message names the sender's slot, refreshes a slot, wipes it or leaves it alone. -/
theorem command_slot (h : listenTurn fixed2 s sock msgLen tempx now stray = some r)
    (k : Fin maxThreads) :
    (tempx.get 0 = CmdTypes.setClientName.code ∧ k = lookupIndex s sock ∧
      ∃ name : CString 30, messageText s sock msgLen tempx = some name.chars ∧
        r.1.pthreadsList k = { s.pthreadsList k with clientName := name }) ∨
    ((tempx.get 0 = CmdTypes.setClientName.code → k ≠ lookupIndex s sock) ∧
      (r.1.pthreadsList k = s.pthreadsList k ∨
        (tempx.get 0 = CmdTypes.updateStatus.code ∧
          r.1.pthreadsList k = (s.pthreadsList k).refreshed now) ∨
        r.1.pthreadsList k = (s.pthreadsList k).wiped)) := by
  rcases listenTurn_cases h with ⟨hrange, rfl⟩ | ⟨len, text, -, hunpack, hdispatch⟩
  · refine .inr ⟨fun hcmd => absurd (hcmd ▸ hrange) (by decide), .inl ?_⟩
    exact congrFun (noteWinClient_pthreadsList s _) k
  rcases dispatch_cases hdispatch with ⟨hcmd, hr⟩ | ⟨hcmd, hr⟩ | ⟨hcmd, hr⟩ | ⟨hcmd, hr⟩ |
    ⟨hcmd, hr⟩
  · obtain ⟨name, hname, hslot, hkeep⟩ := setClientName_slot hr
    rw [noteWinClient_pthreadsList] at hslot hkeep
    by_cases hki : k = lookupIndex s sock
    · subst hki
      refine .inl ⟨hcmd, rfl, name, ?_, hslot⟩
      rw [messageText, hunpack]
      exact hname
    · exact .inr ⟨fun _ => hki, .inl (hkeep k hki)⟩
  · have hslot := updateStatus_slot hr k
    rw [noteWinClient_pthreadsList] at hslot
    refine .inr ⟨fun hset => absurd (hcmd.symm.trans hset) (by decide), ?_⟩
    exact hslot.imp_right fun hnew => .inl ⟨hcmd, hnew⟩
  · have hslot := disconnectAll_slot hr k
    rw [noteWinClient_pthreadsList] at hslot
    exact .inr ⟨fun hset => absurd (hcmd.symm.trans hset) (by decide), hslot.imp_right .inr⟩
  · have hslot := disconnect_slot hr k
    rw [noteWinClient_pthreadsList] at hslot
    exact .inr ⟨fun hset => absurd (hcmd.symm.trans hset) (by decide), hslot.imp_right .inr⟩
  · refine .inr ⟨fun hset => absurd (.inl hset) hcmd, .inl ?_⟩
    rw [hr, noteWinClient_pthreadsList]

private theorem command_clears (h : listenTurn fixed2 s sock msgLen tempx now stray = some r)
    (hcmd : tempx.get 0 = CmdTypes.updateStatus.code)
    (hname : messageText s sock msgLen tempx =
      some (s.pthreadsList (lookupIndex s sock)).clientName.chars)
    (hok : Undisturbed s (.command sock msgLen tempx now stray)) :
    (r.1.pthreadsList (lookupIndex s sock)).dirtyFlag = 0 := by
  rcases listenTurn_cases h with ⟨hrange, rfl⟩ | ⟨len, text, -, hunpack, hdispatch⟩
  · exact absurd (hcmd ▸ hrange) (by decide)
  have htext : text.cstr = some (s.pthreadsList (lookupIndex s sock)).clientName.chars := by
    rwa [messageText, hunpack] at hname
  rcases dispatch_cases hdispatch with ⟨hother, -⟩ | ⟨-, hr⟩ | ⟨hother, -⟩ | ⟨hother, -⟩ |
    ⟨hother, -⟩
  · exact absurd (hcmd.symm.trans hother) (by decide)
  · refine updateStatus_clears hr (List.pairwise_lt_finRange maxThreads)
      (List.mem_finRange _) ?_ ?_
    · rw [noteWinClient_pthreadsList]
      exact sameText_iff.mpr htext
    · intro i _ hi hsame
      rw [noteWinClient_pthreadsList] at hsame ⊢
      refine hok hcmd hname i hi (CString.ext ?_)
      exact Option.some.inj ((sameText_iff.mp hsame).symm.trans htext)
  · exact absurd (hcmd.symm.trans hother) (by decide)
  · exact absurd (hcmd.symm.trans hother) (by decide)
  · exact absurd (.inr (.inl hcmd)) hother

end Slots

/-- A live slot with a raised flag belongs to a connection that owes an answer, and carries the
name its connection registered. -/
def Watched (t : Threads) (w : Watch) : Prop :=
  0 < t.sock → (0 < t.dirtyFlag → w.awaiting = true ∨ w.missed = true) ∧
    ∀ name, w.registered = some name → t.clientName.chars = name

def AllWatched (s : State × (Fin maxThreads → Watch)) : Prop :=
  ∀ k, Watched (s.1.pthreadsList k) (s.2 k)

theorem init_allWatched (stack : Buffer 100) : AllWatched (init stack, fun _ => .fresh) := by
  intro k hlive
  have hdead : ¬ (0 : Int) < -1 := by decide
  exact absurd hlive hdead

section Invariant

variable {fixed2 : Int → Nat → List UInt8} {s t : State} {g : Fin maxThreads → Watch}

private theorem accept_watched {fd : Int} {address : List UInt8} (hs : AllWatched (s, g))
    (hok : Undisturbed s (.accept fd address))
    (hstep : step fixed2 s (.accept fd address) = some t) :
    AllWatched (t, track s g (.accept fd address)) := by
  obtain ⟨k, hacc⟩ := step_accept hstep
  have hnext : nextSlot s = some k := nextSlot_eq_some.mpr hacc.next
  intro i
  simp only [track]
  by_cases hik : i = k
  · subst hik
    have hclean := hok i hnext
    rw [if_pos hnext, hacc.filled]
    intro _
    refine ⟨fun hdirty => ?_, fun name hname => by cases hname⟩
    simp only [registered, hclean] at hdirty
    exact absurd hdirty (by decide)
  · have hne : ¬ nextSlot s = some i := fun h => hik (Option.some.inj (h.symm.trans hnext))
    rw [if_neg hne, hacc.kept i hik]
    exact hs i

private theorem command_watched {sock msgLen now stray : Int} {tempx : Buffer 50}
    {r : State × List Effect} (hs : AllWatched (s, g))
    (hok : Undisturbed s (.command sock msgLen tempx now stray))
    (h : listenTurn fixed2 s sock msgLen tempx now stray = some r) :
    AllWatched (r.1, track s g (.command sock msgLen tempx now stray)) := by
  intro k
  show Watched (r.1.pthreadsList k) (track s g (.command sock msgLen tempx now stray) k)
  intro hlive
  have hold : Watched (s.pthreadsList k) (g k) := hs k
  rcases command_slot h k with ⟨hcmd, hk, name, hname, hslot⟩ | ⟨hcmd, hchange⟩
  · simp only [track, if_pos hk, if_pos hcmd]
    simp only [hslot] at hlive ⊢
    refine ⟨(hold hlive).1, fun name' hname' => ?_⟩
    rw [hname] at hname'
    exact Option.some.inj hname'
  have hslot : r.1.pthreadsList k = s.pthreadsList k ∨
      r.1.pthreadsList k = (s.pthreadsList k).refreshed now := by
    rcases hchange with hsame | ⟨-, hnew⟩ | hwiped
    · exact .inl hsame
    · exact .inr hnew
    · rw [hwiped] at hlive
      exact absurd hlive (by simp [Threads.wiped])
  have hbefore : 0 < (s.pthreadsList k).sock := by
    rcases hslot with hslot | hslot
    · rwa [hslot] at hlive
    · rw [hslot] at hlive
      exact hlive
  have hsame : (r.1.pthreadsList k).clientName = (s.pthreadsList k).clientName := by
    rcases hslot with hslot | hslot <;> rw [hslot]
    rfl
  obtain ⟨hdirty, hregistered⟩ := hold hbefore
  by_cases hanswer : k = lookupIndex s sock ∧ tempx.get 0 = CmdTypes.updateStatus.code ∧
      (g k).registered.isSome ∧ (g k).registered = messageText s sock msgLen tempx
  · obtain ⟨hk, hupdate, hsome, htext⟩ := hanswer
    obtain ⟨name, hname⟩ := Option.isSome_iff_exists.mp hsome
    have hclear : (r.1.pthreadsList k).dirtyFlag = 0 := by
      rw [hk] at hname hregistered htext ⊢
      refine command_clears h hupdate ?_ hok
      rw [← htext, hname, hregistered name hname]
    have htrack : (track s g (.command sock msgLen tempx now stray) k).registered =
        (g k).registered := by
      simp only [track, if_pos hk]
      rw [if_neg fun hset => hcmd hset hk]
      split <;> rfl
    rw [htrack, hsame]
    refine ⟨fun hpos => ?_, hregistered⟩
    rw [hclear] at hpos
    exact absurd hpos (by decide)
  · have htrack : track s g (.command sock msgLen tempx now stray) k = g k := by
      simp only [track]
      split
      · rename_i hk
        rw [if_neg fun hset => hcmd hset hk, if_neg fun hupdate => hanswer ⟨hk, hupdate⟩]
      · rfl
    rw [htrack, hsame]
    refine ⟨fun hpos => hdirty ?_, hregistered⟩
    rcases hslot with hslot | hslot
    · rwa [hslot] at hpos
    · rw [hslot] at hpos
      exact absurd hpos (lt_irrefl (0 : Int))

private theorem logoff_watched {name : List UInt8} (hs : AllWatched (s, g)) :
    AllWatched ((logoffClient s name).1, g) := by
  intro k hlive
  simp only [logoffClient_slot] at hlive ⊢
  split at hlive
  · exact absurd hlive (by simp [Threads.closed])
  · rename_i hkept
    rw [if_neg hkept]
    exact hs k hlive

private theorem timerVisit_watched {i : Fin maxThreads} {r : State × List Effect}
    (hs : AllWatched (s, g)) (h : timerVisit s i = some r) :
    AllWatched (r.1, track s g (.timerVisit i)) := by
  simp only [timerVisit] at h
  split at h
  · rename_i hvisit
    set u := s.setSlot i
      { s.pthreadsList i with dirtyFlag := (s.pthreadsList i).dirtyFlag + 1 } with hu
    have hwatched : AllWatched (u, track s g (.timerVisit i)) := by
      intro k hlive
      simp only [track]
      by_cases hki : k = i
      · subst hki
        rw [if_pos ⟨rfl, hvisit⟩]
        rw [hu, setSlot_same] at hlive ⊢
        exact ⟨fun _ => .inl rfl, (hs k hlive).2⟩
      · rw [if_neg fun hk => hki hk.1]
        rw [hu, setSlot_ne s _ hki] at hlive ⊢
        exact hs k hlive
    split at h
    · obtain ⟨buff, -, rfl⟩ := Option.map_eq_some_iff.mp h
      have hbuff : AllWatched ({ u with buff := buff }, track s g (.timerVisit i)) := hwatched
      exact logoff_watched hbuff
    · obtain ⟨text, -, rfl⟩ := Option.map_eq_some_iff.mp h
      exact hwatched
  · rename_i hvisit
    cases h
    have htrack : track s g (.timerVisit i) = g := by
      funext k
      simp only [track]
      rw [if_neg fun hk => hvisit hk.2]
    rw [htrack]
    exact hs

private theorem watchStep_inv {e : Event} {u : State × (Fin maxThreads → Watch)}
    (hs : AllWatched (s, g)) (hok : Undisturbed s e) (h : watchStep fixed2 (s, g) e = some u) :
    AllWatched u := by
  obtain ⟨t, ht, rfl⟩ := Option.map_eq_some_iff.mp h
  cases e with
  | accept fd address => exact accept_watched hs hok ht
  | listenStart sock now =>
    cases ht
    intro k hlive
    simp only [listenStart, track] at hlive ⊢
    split at hlive
    · rename_i hmine
      rw [if_pos hmine]
      exact hs k hlive
    · rename_i hother
      rw [if_neg hother]
      exact hs k hlive
  | command sock msgLen tempx now stray =>
    obtain ⟨r, hr, rfl⟩ := Option.map_eq_some_iff.mp ht
    exact command_watched hs hok hr
  | logoffClient name =>
    cases ht
    exact logoff_watched hs
  | timerVisit i =>
    obtain ⟨r, hr, rfl⟩ := Option.map_eq_some_iff.mp ht
    exact timerVisit_watched hs hr

private theorem sparesAnswering {e : Event} (hs : AllWatched (s, g)) (hok : Undisturbed s e) :
    SparesAnswering (s, g) e := by
  cases e with
  | timerVisit i =>
    rintro k ⟨hmissed, hawaiting⟩ ⟨hbelow, hlive, hdirty, hnamed⟩
    have hki := hok hbelow hlive hdirty k hnamed
    subst hki
    rcases (hs k hlive).1 hdirty with hwait | hmiss
    · rw [hawaiting rfl] at hwait
      cases hwait
    · rw [hmissed] at hmiss
      cases hmiss
  | _ => trivial

end Invariant

/-- In every run whose steps are undisturbed, whatever the clients do and however often they
reconnect, no timer visit logs off a client that has answered in time. -/
theorem answering_never_loggedOff (fixed2 : Int → Nat → List UInt8) (stack : Buffer 100)
    (es : List Event)
    (hok : AllSteps (watchStep fixed2) (fun s e => Undisturbed s.1 e)
      (init stack, fun _ => .fresh) es) :
    AllSteps (watchStep fixed2) SparesAnswering (init stack, fun _ => .fresh) es :=
  hok.of_inv (fun _ _ _ hs hgood hstep => watchStep_inv hs hgood hstep)
    (fun _ _ hs hgood => sparesAnswering hs hgood) (init_allWatched stack)

def registerA : List Event :=
  [.accept 4 (ascii "192.168.88.154"),
    .command 4 1 ⟨[72, 1, 65] ++ List.replicate 47 0, rfl⟩ 0 0]

/-- `A` answers the first `SEND_STATUS` before the second visit. -/
theorem answering_never_loggedOff_one_round :
    AllSteps (watchStep fun _ _ => ascii "0.00") SparesAnswering
      (init (Buffer.zero 100), fun _ => .fresh) (registerA ++
        [.timerVisit 0, .command 4 1 ⟨[62, 1, 65] ++ List.replicate 47 0, rfl⟩ 600 0,
          .timerVisit 0]) :=
  answering_never_loggedOff _ _ _ (by decide)

/-- `A` is logged off and reconnects in the same slot under the same name. -/
def registerAgain : List Event :=
  registerA ++ [.timerVisit 0, .timerVisit 0] ++ registerA ++ [.timerVisit 0]

/-- The visit after the reconnection logs `A` off before any `SEND_STATUS` was sent to it. -/
theorem reconnected_loggedOff :
    AllSteps (watchStep fun _ _ => ascii "0.00")
      (fun s e => Feasible s.1 e ∧ (step (fun _ _ => ascii "0.00") s.1 e).isSome ∧
        DistinctNames s)
      (init (Buffer.zero 100), fun _ => .fresh)
      registerAgain ∧
    ¬ AllSteps (watchStep fun _ _ => ascii "0.00") SparesAnswering
      (init (Buffer.zero 100), fun _ => .fresh)
      registerAgain := by
  decide

end TcpIot.Server
