import TcpIot.Server.SlotCount
import TcpIot.Server.Routing

/-!
# Where the server sends its frames

Every frame goes to the descriptor of a slot, and the function that writes it should fit the
client in that slot. The timer looks at the slot before it chooses; the commands do not, and the
reports for the Windows client use an index that is set once and never checked again.
-/

namespace TcpIot.Server

open Framework

/-- A frame that the server sends, by `send_msgb` or by `send_msg`, and the index of the slot
whose descriptor the code takes. -/
structure SendSite where
  wide : Bool
  index : Int
deriving DecidableEq

/-- `pthreads_list[i].sock`, which outside the table gives `stray`. -/
def sockAt (s : State) (stray i : Int) : Int :=
  if h : 0 ≤ i ∧ i < maxThreads then (s.pthreadsList ⟨i.toNat, by omega⟩).sock else stray

def SendSite.frame (s : State) (stray : Int) (p : SendSite) : Bool × Int :=
  (p.wide, sockAt s stray p.index)

/-- The function and the descriptor of a frame. -/
def Effect.frame : Effect → Option (Bool × Int)
  | .sendMsg sock _ _ _ => some (false, sock)
  | .sendMsgb sock _ _ _ => some (true, sock)
  | .close _ => none

section Sites

variable (fixed2 : Int → Nat → List UInt8)

def sendClientListSites (s : State) (is : List (Fin maxThreads)) : List SendSite :=
  (is.filter fun i => 0 < (s.pthreadsList i).sock ∧ (s.pthreadsList i).winCl = 0).map
    fun _ => ⟨true, s.winClIndex⟩

def updateStatusSites (now : Int) :
    List (Fin maxThreads) → State → Buffer 50 → List SendSite
  | [], _, _ => []
  | i :: is, s, tempx =>
    let t := s.pthreadsList i
    if SameText t.clientName tempx then
      let s := s.setSlot i (t.refreshed now)
      if 0 < t.timeStamp then
        match appendUptime fixed2 (now - t.orgTimeStamp) tempx with
        | none => []
        | some tempx => ⟨true, s.winClIndex⟩ :: updateStatusSites now is s tempx
      else updateStatusSites now is s tempx
    else updateStatusSites now is s tempx

def disconnectAllSites (s : State) : List SendSite :=
  ((List.finRange maxThreads).filter fun i => BelowLive s i (s.pthreadsList i)).map
    fun i => ⟨false, i.val⟩

def disconnectSites (s : State) (index : Fin maxThreads) (dest : UInt8) : List SendSite :=
  let i := getDest s dest.toNat
  if i < s.noThreads ∧ 0 < index then
    ((slotAt i).toList.filter fun k => 0 < (s.pthreadsList k).sock).map fun k => ⟨false, k.val⟩
  else []

def relaySites (s : State) (index : Fin maxThreads) (dest : UInt8) : List SendSite :=
  let i := getDest s dest.toNat
  if i < s.noThreads ∧ 0 < (s.pthreadsList index).sock ∧ 0 < index then
    (slotAt i).toList.map fun k => ⟨false, k.val⟩
  else []

/-- The send sites of `dispatch`, branch by branch. -/
def dispatchSites (s : State) (index : Fin maxThreads) (tempx : Buffer 50) (cmd dest : UInt8)
    (now : Int) : List SendSite :=
  if cmd = CmdTypes.setClientName.code then []
  else if cmd = CmdTypes.sendClientList.code ∧ 0 < s.winClIndex then
    sendClientListSites s (List.finRange maxThreads)
  else if cmd = CmdTypes.updateStatus.code then
    updateStatusSites fixed2 now (List.finRange maxThreads) s tempx
  else if cmd = CmdTypes.sendIotValues.code then []
  else if cmd = CmdTypes.disconnectAll.code then disconnectAllSites s
  else if cmd = CmdTypes.disconnect.code then disconnectSites s index dest
  else if cmd = CmdTypes.sendIotCmd.code then []
  else relaySites s index dest

def timerSites (s : State) (i : Fin maxThreads) : List SendSite :=
  if i.val < s.noThreads ∧ 0 < (s.pthreadsList i).sock ∧ (s.pthreadsList i).dirtyFlag ≤ 0 then
    [⟨(s.pthreadsList i).winCl = 1, i.val⟩]
  else []

/-- The frames that an event makes the server send. -/
def sites (s : State) : Event → List SendSite
  | .command sock msgLen tempx now _ =>
    let index := lookupIndex s sock
    if CmdInRange (tempx.get 0) then
      ((unpack (s.pthreadsList index).winCl msgLen tempx).toList).flatMap fun (_, dest, text) =>
        dispatchSites fixed2 (noteWinClient s index) index text (tempx.get 0) dest now
    else []
  | .timerVisit i => timerSites s i
  | _ => []

end Sites

section Frames

variable {fixed2 : Int → Nat → List UInt8} {s : State}

theorem sockAt_fin (s : State) (stray : Int) (k : Fin maxThreads) :
    sockAt s stray k.val = (s.pthreadsList k).sock := by
  have hk : 0 ≤ (k.val : Int) ∧ (k.val : Int) < maxThreads := ⟨by omega, by omega⟩
  rw [sockAt, dif_pos hk]
  congr 2

theorem sockAt_setSlot {s : State} {k : Fin maxThreads} {t : Threads}
    (h : t.sock = (s.pthreadsList k).sock) (stray i : Int) :
    sockAt (s.setSlot k t) stray i = sockAt s stray i := by
  unfold sockAt
  split
  · rename_i hi
    by_cases hk : (⟨i.toNat, by omega⟩ : Fin maxThreads) = k
    · rw [hk, setSlot_same, h]
    · rw [setSlot_ne s t hk]
  · rfl

theorem sendClientList_frames {cmd : UInt8} {stray : Int} {is : List (Fin maxThreads)}
    {tempx : Buffer 50} {sent : List Effect}
    (h : sendClientList s cmd stray is tempx = some sent) :
    sent.filterMap Effect.frame = (sendClientListSites s is).map (SendSite.frame s stray) := by
  induction is generalizing tempx sent with
  | nil =>
    cases h
    rfl
  | cons i is ih =>
    simp only [sendClientList] at h
    by_cases hi : 0 < (s.pthreadsList i).sock ∧ (s.pthreadsList i).winCl = 0
    · rw [if_pos hi] at h
      obtain ⟨text, -, h⟩ := Option.bind_eq_some_iff.mp h
      obtain ⟨rest, hrest, rfl⟩ := Option.map_eq_some_iff.mp h
      have hnext := ih hrest
      simp only [sendClientListSites] at hnext ⊢
      rw [List.filterMap_cons, List.filter_cons_of_pos (by simpa using hi), List.map_cons,
        List.map_cons, ← hnext]
      rfl
    · rw [if_neg hi] at h
      have hnext := ih h
      simp only [sendClientListSites] at hnext ⊢
      rw [List.filter_cons_of_neg (by simpa using hi), hnext]

theorem updateStatus_frames {now stray : Int} {is : List (Fin maxThreads)} {tempx : Buffer 50}
    {r : State × List Effect} (h : updateStatus fixed2 now stray is s tempx = some r) :
    r.2.filterMap Effect.frame =
      (updateStatusSites fixed2 now is s tempx).map (SendSite.frame s stray) := by
  induction is generalizing s tempx r with
  | nil =>
    cases h
    rfl
  | cons i is ih =>
    have hsame (p : SendSite) : p.frame (s.setSlot i ((s.pthreadsList i).refreshed now)) stray =
        p.frame s stray := by
      rw [SendSite.frame, SendSite.frame, sockAt_setSlot]
      rfl
    simp only [updateStatus, updateStatusSites] at h ⊢
    by_cases hname : SameText (s.pthreadsList i).clientName tempx
    · rw [if_pos hname] at h ⊢
      by_cases hstamp : 0 < (s.pthreadsList i).timeStamp
      · rw [if_pos hstamp] at h ⊢
        obtain ⟨longer, hlonger, h⟩ := Option.bind_eq_some_iff.mp h
        obtain ⟨text, -, h⟩ := Option.bind_eq_some_iff.mp h
        obtain ⟨next, hnext, rfl⟩ := Option.map_eq_some_iff.mp h
        have hrest := ih hnext
        rw [List.map_congr_left fun p _ => hsame p] at hrest
        have hhead : (true, winClientSock (s.setSlot i ((s.pthreadsList i).refreshed now)) stray) =
            SendSite.frame s stray ⟨true, s.winClIndex⟩ := hsame ⟨true, s.winClIndex⟩
        rw [hlonger]
        simp only [List.filterMap_cons, Effect.frame, List.map_cons, hrest]
        rw [hhead]
        rfl
      · rw [if_neg hstamp] at h ⊢
        rw [ih h, List.map_congr_left fun p _ => hsame p]
    · rw [if_neg hname] at h ⊢
      exact ih h

private theorem filterMap_disconnectAll (msgLen : Int) (tempx : Buffer 50) (stray : Int)
    (is : List (Fin maxThreads)) :
    (is.flatMap fun i =>
      [Effect.sendMsg (s.pthreadsList i).sock msgLen.toNat tempx.bytes CmdTypes.disconnect.code,
        .close (s.pthreadsList i).sock]).filterMap Effect.frame =
      is.map fun i => SendSite.frame s stray ⟨false, i.val⟩ := by
  induction is with
  | nil => rfl
  | cons i is ih =>
    rw [List.flatMap_cons, List.filterMap_append, ih, List.map_cons, SendSite.frame, sockAt_fin]
    rfl

theorem disconnectAll_frames {msgLen : Int} {tempx : Buffer 50} {r : State × List Effect}
    (h : disconnectAll s msgLen tempx = some r) (stray : Int) :
    r.2.filterMap Effect.frame = (disconnectAllSites s).map (SendSite.frame s stray) := by
  unfold disconnectAll at h
  split at h
  · cases h
    dsimp only
    rw [filterMap_disconnectAll msgLen tempx stray,
      sweep_snd _ _ _ _ (List.nodup_finRange maxThreads), disconnectAllSites, List.map_map]
    rfl
  · cases h

theorem disconnect_frames {index : Fin maxThreads} {msgLen : Int} {tempx : Buffer 50}
    {cmd dest : UInt8} {r : State × List Effect}
    (h : disconnect s index msgLen tempx cmd dest = some r) (stray : Int) :
    r.2.filterMap Effect.frame = (disconnectSites s index dest).map (SendSite.frame s stray) := by
  simp only [disconnect, disconnectSites] at h ⊢
  split at h
  · rename_i hguard
    obtain ⟨k, hk, hr⟩ := Option.map_eq_some_iff.mp h
    rw [if_pos hguard, hk, Option.toList_some]
    split at hr
    · rename_i hlive
      subst hr
      simp [hlive, Effect.frame, SendSite.frame, sockAt_fin]
    · rename_i hdead
      subst hr
      simp [hdead]
  · rename_i hguard
    cases h
    rw [if_neg hguard]
    rfl

theorem relay_frames {index : Fin maxThreads} {msgLen : Int} {tempx : Buffer 50}
    {cmd dest : UInt8} {sent : List Effect}
    (h : relay s index msgLen tempx cmd dest = some sent) (stray : Int) :
    sent.filterMap Effect.frame = (relaySites s index dest).map (SendSite.frame s stray) := by
  simp only [relay, relaySites] at h ⊢
  split at h
  · rename_i hguard
    obtain ⟨k, hk, rfl⟩ := Option.map_eq_some_iff.mp h
    rw [if_pos hguard, hk, Option.toList_some]
    simp [Effect.frame, SendSite.frame, sockAt_fin]
  · rename_i hguard
    cases h
    rw [if_neg hguard]
    rfl

theorem dispatch_frames {index : Fin maxThreads} {msgLen : Int} {tempx : Buffer 50}
    {cmd dest : UInt8} {now stray : Int} {r : State × List Effect}
    (h : dispatch fixed2 s index msgLen tempx cmd dest now stray = some r) :
    r.2.filterMap Effect.frame =
      (dispatchSites fixed2 s index tempx cmd dest now).map (SendSite.frame s stray) := by
  unfold dispatch at h
  unfold dispatchSites
  split at h
  · rename_i hcmd
    obtain ⟨t, -, rfl⟩ := Option.map_eq_some_iff.mp h
    rw [if_pos hcmd]
    rfl
  rename_i hname
  rw [if_neg hname]
  split at h
  · rename_i hcmd
    obtain ⟨sent, hsent, rfl⟩ := Option.map_eq_some_iff.mp h
    rw [if_pos hcmd]
    exact sendClientList_frames hsent
  rename_i hlist
  rw [if_neg hlist]
  split at h
  · rename_i hcmd
    rw [if_pos hcmd]
    exact updateStatus_frames h
  rename_i hupdate
  rw [if_neg hupdate]
  split at h
  · rename_i hcmd
    obtain ⟨text, -, rfl⟩ := Option.map_eq_some_iff.mp h
    rw [if_pos hcmd]
    rfl
  rename_i hvalues
  rw [if_neg hvalues]
  split at h
  · rename_i hcmd
    rw [if_pos hcmd]
    exact disconnectAll_frames h stray
  rename_i hall
  rw [if_neg hall]
  split at h
  · rename_i hcmd
    rw [if_pos hcmd]
    exact disconnect_frames h stray
  rename_i hone
  rw [if_neg hone]
  split at h
  · rename_i hcmd
    obtain ⟨text, -, rfl⟩ := Option.map_eq_some_iff.mp h
    rw [if_pos hcmd]
    rfl
  rename_i hiot
  obtain ⟨sent, hsent, rfl⟩ := Option.map_eq_some_iff.mp h
  rw [if_neg hiot]
  exact relay_frames hsent stray

theorem timerVisit_frames {i : Fin maxThreads} {r : State × List Effect}
    (h : timerVisit s i = some r) (stray : Int) :
    r.2.filterMap Effect.frame = (timerSites s i).map (SendSite.frame s stray) := by
  simp only [timerVisit] at h
  unfold timerSites
  split at h
  · rename_i hvisit
    split at h
    · rename_i hdirty
      obtain ⟨buff, -, rfl⟩ := Option.map_eq_some_iff.mp h
      rw [if_neg (by omega)]
      simp [logoffClient, List.filterMap_map, Effect.frame, Function.comp_def]
    · rename_i hclean
      obtain ⟨text, -, rfl⟩ := Option.map_eq_some_iff.mp h
      have hsite : i.val < s.noThreads ∧ 0 < (s.pthreadsList i).sock ∧
          (s.pthreadsList i).dirtyFlag ≤ 0 := ⟨hvisit.1, hvisit.2, by omega⟩
      rw [if_pos hsite, List.map_singleton, SendSite.frame, sockAt_fin]
      by_cases hwide : (s.pthreadsList i).winCl = 1
      · simp only [hwide, decide_true]
        rfl
      · simp only [hwide, decide_false]
        rfl
  · rename_i hvisit
    cases h
    rw [if_neg fun hv => hvisit ⟨hv.1, hv.2.1⟩]
    rfl

/-- What the environment puts behind the table. -/
def Event.stray : Event → Int
  | .command _ _ _ _ stray => stray
  | _ => 0

/-- The listed sites are the frames the server sends, in their order. -/
theorem react_frames {e : Event} {r : State × List Effect} (h : react fixed2 s e = some r) :
    r.2.filterMap Effect.frame = (sites fixed2 s e).map (SendSite.frame s e.stray) := by
  cases e with
  | accept fd address =>
    obtain ⟨t, -, rfl⟩ := Option.map_eq_some_iff.mp h
    rfl
  | listenStart sock now =>
    cases h
    rfl
  | logoffClient name =>
    cases h
    simp [logoffClient, sites, List.filterMap_map, Effect.frame, Function.comp_def]
  | timerVisit i => exact timerVisit_frames h 0
  | command sock msgLen tempx now stray =>
    have hsock (p : SendSite) :
        p.frame (noteWinClient s (lookupIndex s sock)) stray = p.frame s stray := by
      simp only [SendSite.frame, sockAt, noteWinClient_pthreadsList]
    simp only [sites]
    rcases listenTurn_cases h with ⟨hrange, rfl⟩ | ⟨len, text, hrange, hunpack, hdispatch⟩
    · rw [if_neg hrange]
      rfl
    · rw [if_pos hrange, hunpack, Option.toList_some, List.flatMap_singleton,
        dispatch_frames hdispatch]
      exact List.map_congr_left fun p _ => hsock p

end Frames

/-- The index lies in the table, the slot is live, and `send_msgb` is used exactly for a slot
with `win_cl` 1. -/
def SendSite.Fits (s : State) (p : SendSite) : Prop :=
  ∃ k : Fin maxThreads, p.index = k.val ∧ s.Live k ∧
    (p.wide = true ↔ (s.pthreadsList k).winCl = 1)

instance (s : State) (p : SendSite) : Decidable (p.Fits s) :=
  inferInstanceAs (Decidable (∃ _ : Fin maxThreads, _ ∧ _ ∧ _))

def FramesFit (fixed2 : Int → Nat → List UInt8) (s : State) (e : Event) : Prop :=
  ∀ p ∈ sites fixed2 s e, p.Fits s

instance (fixed2 : Int → Nat → List UInt8) (s : State) (e : Event) :
    Decidable (FramesFit fixed2 s e) := inferInstanceAs (Decidable (∀ _ ∈ _, _))

/-- `win_cl_index` is the index of a live slot of a Windows client. -/
def WindowsClientKnown (s : State) : Prop :=
  ∃ k : Fin maxThreads, s.winClIndex = k.val ∧ s.Live k ∧ (s.pthreadsList k).winCl = 1

instance (s : State) : Decidable (WindowsClientKnown s) :=
  inferInstanceAs (Decidable (∃ _ : Fin maxThreads, _))

/-- The command has something to say to the Windows client: a list entry, or the uptime of a
slot that has reported before. -/
def ReportDue (s : State) (tempx : Buffer 50) (cmd : UInt8) : Prop :=
  (cmd = CmdTypes.sendClientList.code ∧ 0 < s.winClIndex ∧
    ∃ i, s.Live i ∧ (s.pthreadsList i).winCl = 0) ∨
  (cmd = CmdTypes.updateStatus.code ∧
    ∃ i, SameText (s.pthreadsList i).clientName tempx ∧ 0 < (s.pthreadsList i).timeStamp)

instance (s : State) (tempx : Buffer 50) (cmd : UInt8) : Decidable (ReportDue s tempx cmd) :=
  inferInstanceAs (Decidable (_ ∨ _))

/-- The command is passed on to slot `k`, or tells it to disconnect. -/
def Addressed (s : State) (index : Fin maxThreads) (cmd dest : UInt8) (k : Fin maxThreads) :
    Prop :=
  (cmd = CmdTypes.disconnectAll.code ∧ k.val < s.noThreads ∧ s.Live k) ∨
  (k.val = getDest s dest.toNat ∧ k.val < s.noThreads ∧ 0 < index ∧
    (cmd = CmdTypes.disconnect.code ∧ s.Live k ∨ FallsThrough s cmd ∧ s.Live index))

instance (s : State) (index : Fin maxThreads) (cmd dest : UInt8) :
    DecidablePred (Addressed s index cmd dest) := fun _ => inferInstanceAs (Decidable (_ ∨ _))

/-- Reports are due only while the Windows client is known, and no command is passed on to a
Windows client. -/
def Conforms (s : State) : Event → Prop
  | .command sock msgLen tempx _ _ =>
    let index := lookupIndex s sock
    CmdInRange (tempx.get 0) → ∀ m ∈ unpack (s.pthreadsList index).winCl msgLen tempx,
      (ReportDue (noteWinClient s index) m.2.2 (tempx.get 0) →
        WindowsClientKnown (noteWinClient s index)) ∧
      ∀ k, Addressed (noteWinClient s index) index (tempx.get 0) m.2.1 k →
        (s.pthreadsList k).winCl ≠ 1
  | _ => True

instance (s : State) : DecidablePred (Conforms s)
  | .command _ _ _ _ _ => inferInstanceAs (Decidable (_ → ∀ _ ∈ _, _))
  | .accept _ _ | .listenStart _ _ | .logoffClient _ | .timerVisit _ => isTrue trivial

section Fitting

variable {fixed2 : Int → Nat → List UInt8} {s : State}

theorem mem_sendClientListSites {p : SendSite} :
    p ∈ sendClientListSites s (List.finRange maxThreads) ↔
      p = ⟨true, s.winClIndex⟩ ∧ ∃ i, s.Live i ∧ (s.pthreadsList i).winCl = 0 := by
  simp only [sendClientListSites, List.mem_map, List.mem_filter, List.mem_finRange, true_and,
    decide_eq_true_eq]
  constructor
  · rintro ⟨i, hi, rfl⟩
    exact ⟨rfl, i, hi⟩
  · rintro ⟨rfl, i, hi⟩
    exact ⟨i, hi, rfl⟩

theorem mem_updateStatusSites {now stray : Int} {is : List (Fin maxThreads)} {tempx : Buffer 50}
    {r : State × List Effect} (h : updateStatus fixed2 now stray is s tempx = some r)
    (hn : is.Nodup) {p : SendSite} :
    p ∈ updateStatusSites fixed2 now is s tempx ↔ p = ⟨true, s.winClIndex⟩ ∧
      ∃ i ∈ is, SameText (s.pthreadsList i).clientName tempx ∧
        0 < (s.pthreadsList i).timeStamp := by
  induction is generalizing s tempx r with
  | nil => simp [updateStatusSites]
  | cons i is ih =>
    obtain ⟨hi, hn⟩ := List.nodup_cons.mp hn
    set u := s.setSlot i ((s.pthreadsList i).refreshed now) with hu
    have hkeep (j : Fin maxThreads) (hj : j ∈ is) : u.pthreadsList j = s.pthreadsList j :=
      setSlot_ne s _ fun hji => hi (hji ▸ hj)
    simp only [updateStatus, updateStatusSites] at h ⊢
    by_cases hname : SameText (s.pthreadsList i).clientName tempx
    · rw [if_pos hname] at h ⊢
      by_cases hstamp : 0 < (s.pthreadsList i).timeStamp
      · rw [if_pos hstamp] at h ⊢
        obtain ⟨longer, hlonger, h⟩ := Option.bind_eq_some_iff.mp h
        obtain ⟨text, -, h⟩ := Option.bind_eq_some_iff.mp h
        obtain ⟨next, hnext, -⟩ := Option.map_eq_some_iff.mp h
        rw [hlonger]
        simp only [List.mem_cons, ih hnext hn]
        constructor
        · rintro (rfl | ⟨rfl, -⟩)
          · exact ⟨rfl, i, .inl rfl, hname, hstamp⟩
          · exact ⟨rfl, i, .inl rfl, hname, hstamp⟩
        · exact fun hp => .inl hp.1
      · have hsilent : ¬ (SameText (s.pthreadsList i).clientName tempx ∧
            0 < (s.pthreadsList i).timeStamp) := fun hsame => hstamp hsame.2
        rw [if_neg hstamp] at h ⊢
        rw [ih h hn, List.exists_mem_cons_iff, or_iff_right hsilent]
        refine and_congr_right fun _ => exists_congr fun j => and_congr_right fun hj => ?_
        rw [hkeep j hj]
    · have hsilent : ¬ (SameText (s.pthreadsList i).clientName tempx ∧
          0 < (s.pthreadsList i).timeStamp) := fun hsame => hname hsame.1
      rw [if_neg hname] at h ⊢
      rw [ih h hn, List.exists_mem_cons_iff, or_iff_right hsilent]

theorem mem_disconnectAllSites {p : SendSite} :
    p ∈ disconnectAllSites s ↔
      ∃ k : Fin maxThreads, p = ⟨false, k.val⟩ ∧ k.val < s.noThreads ∧ s.Live k := by
  simp only [disconnectAllSites, List.mem_map, List.mem_filter, List.mem_finRange, true_and,
    decide_eq_true_eq]
  constructor
  · rintro ⟨k, hk, rfl⟩
    exact ⟨k, rfl, hk⟩
  · rintro ⟨k, rfl, hk⟩
    exact ⟨k, hk, rfl⟩

theorem mem_disconnectSites {index : Fin maxThreads} {dest : UInt8} {p : SendSite} :
    p ∈ disconnectSites s index dest ↔ ∃ k : Fin maxThreads, p = ⟨false, k.val⟩ ∧
      k.val = getDest s dest.toNat ∧ k.val < s.noThreads ∧ 0 < index ∧ s.Live k := by
  simp only [disconnectSites]
  split
  · rename_i hguard
    simp only [List.mem_map, List.mem_filter, Option.mem_toList, slotAt_eq_some,
      decide_eq_true_eq]
    constructor
    · rintro ⟨k, ⟨hk, hlive⟩, rfl⟩
      exact ⟨k, rfl, hk, by rw [hk]; exact hguard.1, hguard.2, hlive⟩
    · rintro ⟨k, rfl, hk, -, -, hlive⟩
      exact ⟨k, ⟨hk, hlive⟩, rfl⟩
  · rename_i hguard
    simp only [List.not_mem_nil, false_iff]
    rintro ⟨k, -, hk, hlt, hpos, -⟩
    exact hguard ⟨by rw [← hk]; exact hlt, hpos⟩

theorem mem_relaySites {index : Fin maxThreads} {dest : UInt8} {p : SendSite} :
    p ∈ relaySites s index dest ↔ ∃ k : Fin maxThreads, p = ⟨false, k.val⟩ ∧
      k.val = getDest s dest.toNat ∧ k.val < s.noThreads ∧ 0 < index ∧ s.Live index := by
  simp only [relaySites]
  split
  · rename_i hguard
    simp only [List.mem_map, Option.mem_toList, slotAt_eq_some]
    constructor
    · rintro ⟨k, hk, rfl⟩
      exact ⟨k, rfl, hk, by rw [hk]; exact hguard.1, hguard.2.2, hguard.2.1⟩
    · rintro ⟨k, rfl, hk, -⟩
      exact ⟨k, hk, rfl⟩
  · rename_i hguard
    simp only [List.not_mem_nil, false_iff]
    rintro ⟨k, -, hk, hlt, hpos, hlive⟩
    exact hguard ⟨by rw [← hk]; exact hlt, hlive, hpos⟩

theorem mem_dispatchSites {index : Fin maxThreads} {msgLen : Int} {tempx : Buffer 50}
    {cmd dest : UInt8} {now stray : Int} {r : State × List Effect} (hrange : CmdInRange cmd)
    (h : dispatch fixed2 s index msgLen tempx cmd dest now stray = some r) {p : SendSite} :
    p ∈ dispatchSites fixed2 s index tempx cmd dest now ↔
      (p = ⟨true, s.winClIndex⟩ ∧ ReportDue s tempx cmd) ∨
      ∃ k : Fin maxThreads, p = ⟨false, k.val⟩ ∧ Addressed s index cmd dest k := by
  unfold dispatch at h
  unfold dispatchSites
  by_cases hname : cmd = CmdTypes.setClientName.code
  · subst hname
    simp +decide [ReportDue, Addressed, FallsThrough]
  rw [if_neg hname] at h ⊢
  by_cases hlist : cmd = CmdTypes.sendClientList.code ∧ 0 < s.winClIndex
  · obtain ⟨rfl, hpos⟩ := hlist
    rw [if_pos ⟨rfl, hpos⟩, mem_sendClientListSites]
    simp +decide [ReportDue, Addressed, FallsThrough, hpos]
  rw [if_neg hlist] at h ⊢
  by_cases hupdate : cmd = CmdTypes.updateStatus.code
  · subst hupdate
    rw [if_pos rfl] at h ⊢
    rw [mem_updateStatusSites h (List.nodup_finRange maxThreads)]
    simp +decide [ReportDue, Addressed, FallsThrough]
  rw [if_neg hupdate] at h ⊢
  have hsilent : ¬ ReportDue s tempx cmd := by
    rintro (hdue | hdue)
    · exact hlist ⟨hdue.1, hdue.2.1⟩
    · exact hupdate hdue.1
  by_cases hvalues : cmd = CmdTypes.sendIotValues.code
  · subst hvalues
    simp +decide [hsilent, Addressed, FallsThrough]
  rw [if_neg hvalues] at h ⊢
  by_cases hall : cmd = CmdTypes.disconnectAll.code
  · subst hall
    rw [if_pos rfl, mem_disconnectAllSites]
    simp +decide [hsilent, Addressed, FallsThrough]
  rw [if_neg hall] at h ⊢
  by_cases hone : cmd = CmdTypes.disconnect.code
  · subst hone
    rw [if_pos rfl, mem_disconnectSites]
    simp +decide [hsilent, Addressed, FallsThrough]
  rw [if_neg hone] at h ⊢
  by_cases hiot : cmd = CmdTypes.sendIotCmd.code
  · subst hiot
    simp +decide [hsilent, Addressed, FallsThrough]
  rw [if_neg hiot, mem_relaySites]
  have hfalls : FallsThrough s cmd :=
    ⟨hrange, by simp [ChangesTable, hname, hupdate, hall, hone], hvalues, hiot, hlist⟩
  simp [hsilent, Addressed, hall, hone, hfalls]

theorem Addressed.live (hs : Wellformed s) {index k : Fin maxThreads} {cmd dest : UInt8}
    (h : Addressed s index cmd dest k) : s.Live k := by
  rcases h with ⟨-, -, hlive⟩ | ⟨hk, -, -, h⟩
  · exact hlive
  · by_contra hdead
    have hcleared := (hs.dead k hdead).2
    rcases getDest_cases s dest.toNat hs.highest with ⟨i, hi, -, hget⟩ | ⟨-, hget⟩
    · have hik : i = k := Fin.ext (hget.symm.trans hk.symm)
      rw [hik] at hi
      omega
    · have hlt := k.isLt
      omega

theorem dispatchSites_fit_iff (hs : Wellformed s) {index : Fin maxThreads} {msgLen : Int}
    {tempx : Buffer 50} {cmd dest : UInt8} {now stray : Int} {r : State × List Effect}
    (hrange : CmdInRange cmd)
    (h : dispatch fixed2 s index msgLen tempx cmd dest now stray = some r) :
    (∀ p ∈ dispatchSites fixed2 s index tempx cmd dest now, p.Fits s) ↔
      (ReportDue s tempx cmd → WindowsClientKnown s) ∧
      ∀ k, Addressed s index cmd dest k → (s.pthreadsList k).winCl ≠ 1 := by
  have hmem (p : SendSite) := mem_dispatchSites hrange h (p := p)
  constructor
  · intro hfit
    refine ⟨fun hdue => ?_, fun k hk => ?_⟩
    · obtain ⟨k, hindex, hlive, hwide⟩ := hfit _ ((hmem _).mpr (.inl ⟨rfl, hdue⟩))
      exact ⟨k, hindex, hlive, hwide.mp rfl⟩
    · obtain ⟨j, hindex, -, hwide⟩ := hfit _ ((hmem _).mpr (.inr ⟨k, rfl, hk⟩))
      have hkj : k = j := Fin.ext (Int.ofNat.inj hindex)
      subst hkj
      exact fun hwin => Bool.false_ne_true (hwide.mpr hwin)
  · rintro ⟨hreport, haddressed⟩ p hp
    rcases (hmem p).mp hp with ⟨rfl, hdue⟩ | ⟨k, rfl, hk⟩
    · obtain ⟨k, hindex, hlive, hwide⟩ := hreport hdue
      exact ⟨k, hindex, hlive, fun _ => hwide, fun _ => rfl⟩
    · refine ⟨k, rfl, hk.live hs, ?_⟩
      simpa using haddressed k hk

theorem Wellformed.noteWinClient (hs : Wellformed s) (index : Fin maxThreads) :
    Wellformed (noteWinClient s index) := by
  unfold Server.noteWinClient
  split
  · exact ⟨hs.dead, hs.distinct, hs.highest, hs.counted, hs.inTable⟩
  · exact hs

theorem framesFit_iff {e : Event} (hs : Wellformed s) (h : Happens fixed2 s e) :
    FramesFit fixed2 s e ↔ Conforms s e := by
  cases e with
  | accept fd address => simp [FramesFit, sites, Conforms]
  | listenStart sock now => simp [FramesFit, sites, Conforms]
  | logoffClient name => simp [FramesFit, sites, Conforms]
  | timerVisit i =>
    refine iff_of_true (fun p hp => ?_) trivial
    simp only [sites, timerSites] at hp
    split at hp
    · rename_i hvisit
      rw [List.mem_singleton] at hp
      subst hp
      exact ⟨i, rfl, hvisit.2.1, decide_eq_true_iff⟩
    · cases hp
  | command sock msgLen tempx now stray =>
    obtain ⟨t, ht⟩ := Option.isSome_iff_exists.mp h
    obtain ⟨r, hr, -⟩ := Option.map_eq_some_iff.mp ht
    simp only [FramesFit, sites, Conforms]
    rcases listenTurn_cases hr with ⟨hrange, -⟩ | ⟨len, text, hrange, hunpack, hdispatch⟩
    · simp [hrange]
    · have hfit (p : SendSite) :
          p.Fits s ↔ p.Fits (noteWinClient s (lookupIndex s sock)) := by
        simp only [SendSite.Fits, State.Live, noteWinClient_pthreadsList]
      have hiff := dispatchSites_fit_iff (hs.noteWinClient (lookupIndex s sock)) hrange hdispatch
      rw [if_pos hrange, hunpack, Option.toList_some, List.flatMap_singleton]
      simp only [hfit, hiff, noteWinClient_pthreadsList, hrange, true_implies,
        Option.mem_some_iff, forall_eq']

end Fitting

/-- For every run, with Windows and other clients coming and going in any order: all frames go
to live slots in the framing of their clients iff every step of the run conforms. -/
theorem allFramesFit_iff (fixed2 : Int → Nat → List UInt8) (stack : Buffer 100)
    (es : List Event) (hrun : AllSteps (step fixed2) (Happens fixed2) (init stack) es) :
    AllSteps (step fixed2) (FramesFit fixed2) (init stack) es ↔
      AllSteps (step fixed2) Conforms (init stack) es := by
  refine allSteps_iff_of_inv (fun s e hs he => framesFit_iff hs he) ?_ hrun
    (init_wellformed stack)
  intro s e t hs he _ hstep
  exact hs.step he.feasible hstep

/-- The Windows client registers, and 154 reports twice. -/
def reportToWindows : List Event :=
  [.accept 4 (ascii "192.168.88.158"),
    .command 4 8 (.padded 50 [72, 0, 0, 0, 87, 0, 0, 0]) 0 0,
    .accept 5 (ascii "192.168.88.154"),
    .command 5 1 (.padded 50 [72, 1, 65]) 0 0,
    .command 5 1 (.padded 50 [62, 1, 65]) 600 0,
    .command 5 1 (.padded 50 [62, 1, 65]) 900 0]

theorem allFramesFit_iff_report :
    AllSteps (step fun _ _ => ascii "0.00") (FramesFit fun _ _ => ascii "0.00")
      (init (Buffer.zero 100)) reportToWindows ↔
    AllSteps (step fun _ _ => ascii "0.00") Conforms (init (Buffer.zero 100)) reportToWindows :=
  allFramesFit_iff _ _ _ (by decide)

/-- The same two reports without a Windows client. -/
def reportToNobody : List Event :=
  [.accept 4 (ascii "192.168.88.154"),
    .command 4 1 (.padded 50 [72, 1, 65]) 0 0,
    .command 4 1 (.padded 50 [62, 1, 65]) 600 0,
    .command 4 1 (.padded 50 [62, 1, 65]) 900 0]

/-- The second report is written to the descriptor in `pthreads_list[-1]`. -/
theorem report_before_table :
    AllSteps (step fun _ _ => ascii "0.00") (Happens fun _ _ => ascii "0.00")
      (init (Buffer.zero 100)) reportToNobody ∧
    ¬ AllSteps (step fun _ _ => ascii "0.00") (FramesFit fun _ _ => ascii "0.00")
      (init (Buffer.zero 100)) reportToNobody := by
  decide

end TcpIot.Server
