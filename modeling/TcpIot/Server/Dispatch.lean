import TcpIot.Server.Receive

/-!
# Dispatching a command in the server

The second half of a turn of `listen_thread`: what each command does to the connection table
and which frames it sends. A step that overruns a buffer or leaves the table is undefined and
yields `none`. `fixed2 d unit` stands for the text that `printf("%.2f")` gives for `d / unit`.
-/

namespace TcpIot.Server

open Framework

/-- `pthreads_list[win_cl_index].sock`; with no Windows client the index is outside the table
and the read gives `stray`. -/
def winClientSock (s : State) (stray : Int) : Int :=
  if h : 0 ≤ s.winClIndex ∧ s.winClIndex < maxThreads then
    (s.pthreadsList ⟨s.winClIndex.toNat, by omega⟩).sock
  else stray

def ascii (text : String) : List UInt8 := text.toList.map fun c => UInt8.ofNat c.toNat

/-- `"%d"`. -/
def decimal (n : Int) : List UInt8 := ascii (toString n)

/-- `"%d %s %d"` of a slot. -/
def clientEntry (t : Threads) : List UInt8 :=
  decimal t.dest ++ [32] ++ t.ipadd ++ [32] ++ decimal t.sock

/-- The loop of `SEND_CLIENT_LIST` from the listed slots on. -/
def sendClientList (s : State) (cmd : UInt8) (stray : Int) :
    List (Fin maxThreads) → Buffer 50 → Option (List Effect)
  | [], _ => some []
  | i :: is, tempx =>
    if 0 < (s.pthreadsList i).sock ∧ (s.pthreadsList i).winCl = 0 then
      let entry := clientEntry (s.pthreadsList i)
      (tempx.strcpy entry).bind fun tempx =>
        (sendClientList s cmd stray is tempx).map fun rest =>
          .sendMsgb (winClientSock s stray) (2 * entry.length) tempx.bytes cmd :: rest
    else sendClientList s cmd stray is tempx

/-- `pthreads_list[i]` for an index that came out of `get_dest`. -/
def slotAt (i : Nat) : Option (Fin maxThreads) := if h : i < maxThreads then some ⟨i, h⟩ else none

theorem slotAt_eq_some {i : Nat} {k : Fin maxThreads} : slotAt i = some k ↔ k.val = i := by
  unfold slotAt
  constructor
  · intro h
    split at h
    · cases h
      rfl
    · cases h
  · rintro rfl
    rw [dif_pos k.isLt]

/-- The last branch: pass the command on to the slot with its destination. -/
def relay (s : State) (index : Fin maxThreads) (msgLen : Int) (tempx : Buffer 50)
    (cmd dest : UInt8) : Option (List Effect) :=
  let i := getDest s dest.toNat
  if i < s.noThreads ∧ 0 < (s.pthreadsList index).sock ∧ 0 < index then
    (slotAt i).map fun k => [.sendMsg (s.pthreadsList k).sock msgLen.toNat tempx.bytes cmd]
  else some []

/-- `SET_CLIENT_NAME`: both `strcpy` calls. -/
def setClientName (s : State) (index : Fin maxThreads) (tempx : Buffer 50) : Option State :=
  (tempx.cstr.bind (CString.ofChars 30)).map fun name =>
    { s.setSlot index { s.pthreadsList index with clientName := name } with clientName := name }

/-- `strcmp(client_name, tempx) == 0`; the name ends inside its array, so the comparison never
runs past `tempx`. -/
def SameText (name : CString 30) (tempx : Buffer 50) : Prop := name.chars ++ [0] <+: tempx.bytes

instance (name : CString 30) (tempx : Buffer 50) : Decidable (SameText name tempx) :=
  inferInstanceAs (Decidable (_ <+: _))

/-- `dirty_flag = 0; time_stamp = now;` -/
def Threads.refreshed (t : Threads) (now : Int) : Threads :=
  { t with dirtyFlag := 0, timeStamp := now }

section UpdateStatus

variable (fixed2 : Int → Nat → List UInt8)

def uptime (diff : Int) : List UInt8 :=
  if diff < 120 then fixed2 diff 1 ++ ascii " seconds"
  else if diff > 120 ∧ diff < 3600 then fixed2 diff 60 ++ ascii " minutes"
  else if diff > 3600 ∧ diff < 86400 then fixed2 diff 3600 ++ ascii " hours"
  else fixed2 diff 86400 ++ ascii " days"

/-- `sprintf` the uptime into `tempx2` and append it to `tempx`. -/
def appendUptime (diff : Int) (tempx : Buffer 50) : Option (Buffer 50) :=
  ((Buffer.zero 50).strcpy (uptime fixed2 diff)).bind fun tempx2 =>
    (tempx.strcat [32]).bind fun tempx => tempx2.cstr.bind tempx.strcat

/-- The loop of `UPDATE_STATUS` from the listed slots on. A slot that has reported before gets
its uptime sent to the Windows client, in the same `tempx` that later names are compared
with. -/
def updateStatus (now stray : Int) :
    List (Fin maxThreads) → State → Buffer 50 → Option (State × List Effect)
  | [], s, _ => some (s, [])
  | i :: is, s, tempx =>
    let t := s.pthreadsList i
    if SameText t.clientName tempx then
      let s := s.setSlot i (t.refreshed now)
      if 0 < t.timeStamp then
        (appendUptime fixed2 (now - t.orgTimeStamp) tempx).bind fun tempx =>
          tempx.cstr.bind fun text =>
            (updateStatus now stray is s tempx).map fun (next, rest) =>
              (next, .sendMsgb (winClientSock s stray) (2 * text.length) tempx.bytes
                CmdTypes.sendMessage2.code :: rest)
      else updateStatus now stray is s tempx
    else updateStatus now stray is s tempx

end UpdateStatus

def BelowLive (s : State) (i : Fin maxThreads) (t : Threads) : Prop :=
  i.val < s.noThreads ∧ 0 < t.sock

instance (s : State) (i : Fin maxThreads) (t : Threads) : Decidable (BelowLive s i t) :=
  inferInstanceAs (Decidable (_ ∧ _))

/-- `DISCONNECT_ALL`; undefined when `no_threads` lies beyond the table. -/
def disconnectAll (s : State) (msgLen : Int) (tempx : Buffer 50) : Option (State × List Effect) :=
  if s.noThreads ≤ maxThreads then
    let r := sweep (BelowLive s) Threads.wiped (List.finRange maxThreads) s.pthreadsList
    some ({ s with pthreadsList := r.1 }, r.2.flatMap fun i =>
      [.sendMsg (s.pthreadsList i).sock msgLen.toNat tempx.bytes CmdTypes.disconnect.code,
        .close (s.pthreadsList i).sock])
  else none

/-- `DISCONNECT`: close the slot with the destination. -/
def disconnect (s : State) (index : Fin maxThreads) (msgLen : Int) (tempx : Buffer 50)
    (cmd dest : UInt8) : Option (State × List Effect) :=
  let i := getDest s dest.toNat
  if i < s.noThreads ∧ 0 < index then
    (slotAt i).map fun k =>
      if 0 < (s.pthreadsList k).sock then
        ({ s.setSlot k (s.pthreadsList k).wiped with noThreads := s.noThreads - 1 },
          [.sendMsg (s.pthreadsList k).sock msgLen.toNat tempx.bytes cmd,
            .close (s.pthreadsList k).sock])
      else (s, [])
  else some (s, [])

def dispatch (fixed2 : Int → Nat → List UInt8) (s : State) (index : Fin maxThreads)
    (msgLen : Int) (tempx : Buffer 50) (cmd dest : UInt8) (now stray : Int) :
    Option (State × List Effect) :=
  if cmd = CmdTypes.setClientName.code then
    (setClientName s index tempx).map fun s => (s, [])
  else if cmd = CmdTypes.sendClientList.code ∧ 0 < s.winClIndex then
    (sendClientList s cmd stray (List.finRange maxThreads) tempx).map fun sent => (s, sent)
  else if cmd = CmdTypes.updateStatus.code then
    updateStatus fixed2 now stray (List.finRange maxThreads) s tempx
  else if cmd = CmdTypes.sendIotValues.code then tempx.cstr.map fun _ => (s, [])
  else if cmd = CmdTypes.disconnectAll.code then disconnectAll s msgLen tempx
  else if cmd = CmdTypes.disconnect.code then disconnect s index msgLen tempx cmd dest
  else if cmd = CmdTypes.sendIotCmd.code then tempx.cstr.map fun _ => (s, [])
  else (relay s index msgLen tempx cmd dest).map fun sent => (s, sent)

/-- `win_cl_index = index` the first time the Windows client is served. -/
def noteWinClient (s : State) (index : Fin maxThreads) : State :=
  if (s.pthreadsList index).winCl = 1 ∧ s.winClIndex < 0 then { s with winClIndex := index }
  else s

@[simp] theorem noteWinClient_pthreadsList (s : State) (index : Fin maxThreads) :
    (noteWinClient s index).pthreadsList = s.pthreadsList := by
  unfold noteWinClient
  split <;> rfl

@[simp] theorem noteWinClient_noThreads (s : State) (index : Fin maxThreads) :
    (noteWinClient s index).noThreads = s.noThreads := by
  unfold noteWinClient
  split <;> rfl

@[simp] theorem noteWinClient_highestSock (s : State) (index : Fin maxThreads) :
    (noteWinClient s index).highestSock = s.highestSock := by
  unfold noteWinClient
  split <;> rfl

/-- Unpack a message: its length, destination and text. -/
def unpack (winCl msgLen : Int) (tempx : Buffer 50) : Option (Int × UInt8 × Buffer 50) :=
  if winCl = 1 then
    (unpackWide msgLen tempx).map fun text => (wideLen msgLen, tempx.get 2, text)
  else (unpackNarrow msgLen tempx).map fun text => (msgLen, tempx.get 1, text)

/-- What follows the reads in a turn: test the command byte, unpack and dispatch. -/
def serve (fixed2 : Int → Nat → List UInt8) (s : State) (index : Fin maxThreads) (msgLen : Int)
    (tempx : Buffer 50) (now stray : Int) : Option (State × List Effect) :=
  let cmd := tempx.get 0
  if CmdInRange cmd then
    (unpack (s.pthreadsList index).winCl msgLen tempx).bind fun (msgLen, dest, text) =>
      dispatch fixed2 s index msgLen text cmd dest now stray
  else some (s, [])

/-- A turn of the `listen_thread` that was started with `sock`, after its reads left `msg_len`
and `tempx`. -/
def listenTurn (fixed2 : Int → Nat → List UInt8) (s : State) (sock msgLen : Int)
    (tempx : Buffer 50) (now stray : Int) : Option (State × List Effect) :=
  let index := lookupIndex s sock
  serve fixed2 (noteWinClient s index) index msgLen tempx now stray

def commandDest (s : State) (sock : Int) (tempx : Buffer 50) : UInt8 :=
  if (s.pthreadsList (lookupIndex s sock)).winCl = 1 then tempx.get 2 else tempx.get 1

def ChangesTable (cmd : UInt8) : Prop :=
  cmd = CmdTypes.setClientName.code ∨ cmd = CmdTypes.updateStatus.code ∨
    cmd = CmdTypes.disconnectAll.code ∨ cmd = CmdTypes.disconnect.code

instance (cmd : UInt8) : Decidable (ChangesTable cmd) := inferInstanceAs (Decidable (_ ∨ _))

section Cases

variable {fixed2 : Int → Nat → List UInt8} {s : State} {msgLen now stray : Int}
  {tempx : Buffer 50} {r : State × List Effect}

theorem updateStatus_cons {i : Fin maxThreads} {is : List (Fin maxThreads)}
    (h : updateStatus fixed2 now stray (i :: is) s tempx = some r) :
    (¬ SameText (s.pthreadsList i).clientName tempx ∧
      updateStatus fixed2 now stray is s tempx = some r) ∨
    (SameText (s.pthreadsList i).clientName tempx ∧ ∃ text sent,
      updateStatus fixed2 now stray is (s.setSlot i ((s.pthreadsList i).refreshed now)) text =
        some (r.1, sent) ∧
      ((s.pthreadsList i).timeStamp ≤ 0 → text = tempx) ∧
      (0 < (s.pthreadsList i).timeStamp →
        appendUptime fixed2 (now - (s.pthreadsList i).orgTimeStamp) tempx = some text)) := by
  simp only [updateStatus] at h
  by_cases hname : SameText (s.pthreadsList i).clientName tempx
  · rw [if_pos hname] at h
    by_cases hstamp : 0 < (s.pthreadsList i).timeStamp
    · rw [if_pos hstamp] at h
      obtain ⟨longer, hlonger, h⟩ := Option.bind_eq_some_iff.mp h
      obtain ⟨text, -, h⟩ := Option.bind_eq_some_iff.mp h
      obtain ⟨next, hnext, rfl⟩ := Option.map_eq_some_iff.mp h
      exact .inr ⟨hname, longer, next.2, hnext, fun hold => absurd hstamp (not_lt.mpr hold),
        fun _ => hlonger⟩
    · rw [if_neg hstamp] at h
      exact .inr ⟨hname, tempx, r.2, h, fun _ => rfl, fun hnew => absurd hnew hstamp⟩
  · rw [if_neg hname] at h
    exact .inl ⟨hname, h⟩

/-- Four commands change the table; every other one leaves the state as it is. -/
theorem dispatch_cases {index : Fin maxThreads} {cmd dest : UInt8}
    (h : dispatch fixed2 s index msgLen tempx cmd dest now stray = some r) :
    (cmd = CmdTypes.setClientName.code ∧ setClientName s index tempx = some r.1) ∨
    (cmd = CmdTypes.updateStatus.code ∧
      updateStatus fixed2 now stray (List.finRange maxThreads) s tempx = some r) ∨
    (cmd = CmdTypes.disconnectAll.code ∧ disconnectAll s msgLen tempx = some r) ∨
    (cmd = CmdTypes.disconnect.code ∧ disconnect s index msgLen tempx cmd dest = some r) ∨
    (¬ ChangesTable cmd ∧ r.1 = s) := by
  unfold dispatch at h
  by_cases hname : cmd = CmdTypes.setClientName.code
  · rw [if_pos hname] at h
    obtain ⟨t, ht, rfl⟩ := Option.map_eq_some_iff.mp h
    exact .inl ⟨hname, ht⟩
  rw [if_neg hname] at h
  by_cases hlist : cmd = CmdTypes.sendClientList.code ∧ 0 < s.winClIndex
  · rw [if_pos hlist] at h
    obtain ⟨sent, -, rfl⟩ := Option.map_eq_some_iff.mp h
    rw [hlist.1]
    exact .inr (.inr (.inr (.inr ⟨by decide, rfl⟩)))
  rw [if_neg hlist] at h
  by_cases hupdate : cmd = CmdTypes.updateStatus.code
  · rw [if_pos hupdate] at h
    exact .inr (.inl ⟨hupdate, h⟩)
  rw [if_neg hupdate] at h
  by_cases hvalues : cmd = CmdTypes.sendIotValues.code
  · rw [if_pos hvalues] at h
    obtain ⟨text, -, rfl⟩ := Option.map_eq_some_iff.mp h
    rw [hvalues]
    exact .inr (.inr (.inr (.inr ⟨by decide, rfl⟩)))
  rw [if_neg hvalues] at h
  by_cases hall : cmd = CmdTypes.disconnectAll.code
  · rw [if_pos hall] at h
    exact .inr (.inr (.inl ⟨hall, h⟩))
  rw [if_neg hall] at h
  by_cases hone : cmd = CmdTypes.disconnect.code
  · rw [if_pos hone] at h
    exact .inr (.inr (.inr (.inl ⟨hone, h⟩)))
  rw [if_neg hone] at h
  have hkeep : ¬ ChangesTable cmd := by
    rintro (hcmd | hcmd | hcmd | hcmd)
    · exact hname hcmd
    · exact hupdate hcmd
    · exact hall hcmd
    · exact hone hcmd
  refine .inr (.inr (.inr (.inr ⟨hkeep, ?_⟩)))
  split at h
  · obtain ⟨text, -, rfl⟩ := Option.map_eq_some_iff.mp h
    rfl
  · obtain ⟨sent, -, rfl⟩ := Option.map_eq_some_iff.mp h
    rfl

theorem unpack_dest {sock len : Int} {dest : UInt8} {text : Buffer 50}
    (h : unpack (s.pthreadsList (lookupIndex s sock)).winCl msgLen tempx = some (len, dest, text)) :
    dest = commandDest s sock tempx := by
  unfold unpack at h
  unfold commandDest
  split at h
  · rename_i hwide
    obtain ⟨_, -, heq⟩ := Option.map_eq_some_iff.mp h
    cases heq
    rw [if_pos hwide]
  · rename_i hnarrow
    obtain ⟨_, -, heq⟩ := Option.map_eq_some_iff.mp h
    cases heq
    rw [if_neg hnarrow]

theorem listenTurn_cases {sock : Int}
    (h : listenTurn fixed2 s sock msgLen tempx now stray = some r) :
    (¬ CmdInRange (tempx.get 0) ∧ r = (noteWinClient s (lookupIndex s sock), [])) ∨
    ∃ len text, CmdInRange (tempx.get 0) ∧
      unpack (s.pthreadsList (lookupIndex s sock)).winCl msgLen tempx =
        some (len, commandDest s sock tempx, text) ∧
      dispatch fixed2 (noteWinClient s (lookupIndex s sock)) (lookupIndex s sock) len text
        (tempx.get 0) (commandDest s sock tempx) now stray = some r := by
  simp only [listenTurn, serve, noteWinClient_pthreadsList] at h
  split at h
  · rename_i hrange
    obtain ⟨⟨len, dest, text⟩, hunpack, hdispatch⟩ := Option.bind_eq_some_iff.mp h
    have hdest := unpack_dest hunpack
    subst hdest
    exact .inr ⟨len, text, hrange, hunpack, hdispatch⟩
  · rename_i hrange
    exact .inl ⟨hrange, (Option.some.inj h).symm⟩

end Cases

end TcpIot.Server
