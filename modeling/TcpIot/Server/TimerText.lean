import TcpIot.Server.SlotChange
import TcpIot.StatusReply

/-!
# What the timer sends

The text of the heartbeat is the buffer of `timer_thread`, which starts as `timer ` and keeps the
farewell of the client that was logged off last. In no run does the timer leave that buffer, and
what it sends always fits the buffers of the clients.
-/

namespace TcpIot.Server

open Framework

/-- Some `SET_CLIENT_NAME` among the events carries the name. -/
def Registered (events : List Event) (name : CString 30) : Prop :=
  ∃ sock msgLen tempx now stray winCl, .command sock msgLen tempx now stray ∈ events ∧
    tempx.get 0 = CmdTypes.setClientName.code ∧
    (unpack winCl msgLen tempx).bind (fun m => m.2.2.cstr) = some name.chars

/-- `" logged off"` behind the name. -/
def farewell (name : CString 30) : List UInt8 := name.chars ++ ascii " logged off"

/-- The text of the timer, with the names that clients have had. -/
def TimerText (names : CString 30 → Prop) (text : List UInt8) : Prop :=
  text = ascii "timer " ∨ ∃ name, names name ∧ text = farewell name

structure TimerInv (names : CString 30 → Prop) (s : State) : Prop where
  slots : ∀ i, names (s.pthreadsList i).clientName
  text : ∃ text, s.buff.cstr = some text ∧ TimerText names text

/-- What a visit does to sockets while the buffer holds `text`. -/
inductive VisitEffect (s : State) (text : List UInt8) : Effect → Prop
  | close (sock : Int) : VisitEffect s text (.close sock)
  | status (sock : Int) :
    VisitEffect s text (.sendMsg sock text.length s.buff.bytes CmdTypes.sendStatus.code)
  | statusb (sock : Int) :
    VisitEffect s text (.sendMsgb sock (2 * text.length) s.buff.bytes CmdTypes.sendStatus.code)

section Steps

variable {fixed2 : Int → Nat → List UInt8} {s t : State} {names : CString 30 → Prop}

theorem TimerText.length_le {text : List UInt8} (h : TimerText names text) : text.length ≤ 40 := by
  rcases h with rfl | ⟨name, -, rfl⟩
  · decide
  · have hfits := name.fits
    have hlength : (ascii " logged off").length = 11 := rfl
    rw [farewell, List.length_append, hlength]
    omega

theorem updateStatus_buff {now stray : Int} {is : List (Fin maxThreads)} {tempx : Buffer 50}
    {r : State × List Effect} (h : updateStatus fixed2 now stray is s tempx = some r) :
    r.1.buff = s.buff := by
  induction is generalizing s tempx r with
  | nil =>
    cases h
    rfl
  | cons i is ih =>
    obtain ⟨-, hrest⟩ | ⟨-, text, sent, hrest, -⟩ := updateStatus_cons h
    · exact ih hrest
    · have hnext := ih hrest
      exact hnext

theorem noteWinClient_buff (s : State) (index : Fin maxThreads) :
    (noteWinClient s index).buff = s.buff := by
  unfold noteWinClient
  split
  · rfl
  · rfl

theorem disconnectAll_buff {msgLen : Int} {tempx : Buffer 50} {r : State × List Effect}
    (h : disconnectAll s msgLen tempx = some r) : r.1.buff = s.buff := by
  unfold disconnectAll at h
  split at h
  · cases h
    rfl
  · cases h

theorem disconnect_buff {index : Fin maxThreads} {msgLen : Int} {tempx : Buffer 50}
    {cmd dest : UInt8} {r : State × List Effect}
    (h : disconnect s index msgLen tempx cmd dest = some r) : r.1.buff = s.buff := by
  simp only [disconnect] at h
  split at h
  · obtain ⟨k, -, rfl⟩ := Option.map_eq_some_iff.mp h
    split
    · rfl
    · rfl
  · cases h
    rfl

theorem listenTurn_buff {sock msgLen now stray : Int} {tempx : Buffer 50}
    {r : State × List Effect} (h : listenTurn fixed2 s sock msgLen tempx now stray = some r) :
    r.1.buff = s.buff := by
  have hnote := noteWinClient_buff s (lookupIndex s sock)
  obtain ⟨-, rfl⟩ | ⟨len, text, -, -, hdispatch⟩ := listenTurn_cases h
  · exact hnote
  · rcases dispatch_cases hdispatch with ⟨-, hr⟩ | ⟨-, hr⟩ | ⟨-, hr⟩ | ⟨-, hr⟩ | ⟨-, hr⟩
    · obtain ⟨name, -, hname⟩ := Option.map_eq_some_iff.mp hr
      rw [← hname]
      exact hnote
    · exact (updateStatus_buff hr).trans hnote
    · exact (disconnectAll_buff hr).trans hnote
    · exact (disconnect_buff hr).trans hnote
    · rw [hr]
      exact hnote

/-- A visit is never undefined; the buffer keeps its text or gets the farewell of a slot. -/
theorem timerVisit_text {text : List UInt8} (htext : s.buff.cstr = some text)
    (i : Fin maxThreads) :
    ∃ r, timerVisit s i = some r ∧ (∀ e ∈ r.2, VisitEffect s text e) ∧
      (r.1.buff = s.buff ∨ r.1.buff.cstr = some (farewell (s.pthreadsList i).clientName)) := by
  simp only [timerVisit]
  split
  · split
    · have hfits := (s.pthreadsList i).clientName.fits
      have hlength : (ascii " logged off").length = 11 := rfl
      obtain ⟨copied, hcopied, hname⟩ := (Buffer.zero 100).strcpy_fits
        (show (s.pthreadsList i).clientName.chars.length < 100 by omega)
      rw [Buffer.takeWhile_noNul (s.pthreadsList i).clientName.noNul] at hname
      obtain ⟨buff, hbuff, hfarewell⟩ := Buffer.strcat_fits hname (t := ascii " logged off")
        (by decide) (by omega)
      rw [hcopied, Option.bind_some, hbuff]
      refine ⟨_, rfl, ?_, .inr hfarewell⟩
      intro e he
      obtain ⟨k, -, rfl⟩ := List.mem_map.mp he
      exact .close _
    · have hkept : ∀ t, (s.setSlot i t).buff.cstr = some text := fun _ => htext
      rw [hkept]
      refine ⟨_, rfl, ?_, .inl rfl⟩
      intro e he
      rw [List.mem_singleton.mp he]
      split
      · exact .statusb _
      · exact .status _
  · exact ⟨_, rfl, fun _ he => absurd he List.not_mem_nil, .inl rfl⟩

theorem step_buff {e : Event} (h : step fixed2 s e = some t) {text : List UInt8}
    (htext : s.buff.cstr = some text) :
    t.buff = s.buff ∨ ∃ i, t.buff.cstr = some (farewell (s.pthreadsList i).clientName) := by
  cases e with
  | accept fd address =>
    obtain ⟨r, hr, rfl⟩ := Option.map_eq_some_iff.mp h
    obtain ⟨u, hu, rfl⟩ := Option.map_eq_some_iff.mp hr
    obtain ⟨k, -, rfl⟩ := Option.map_eq_some_iff.mp hu
    exact .inl rfl
  | listenStart sock now =>
    cases h
    exact .inl rfl
  | command sock msgLen tempx now stray =>
    obtain ⟨r, hr, rfl⟩ := Option.map_eq_some_iff.mp h
    exact .inl (listenTurn_buff hr)
  | logoffClient name =>
    cases h
    exact .inl rfl
  | timerVisit i =>
    obtain ⟨r, hr, rfl⟩ := Option.map_eq_some_iff.mp h
    obtain ⟨r', hr', -, hbuff⟩ := timerVisit_text htext i
    cases hr.symm.trans hr'
    exact hbuff.imp_right fun hfarewell => ⟨i, hfarewell⟩

theorem step_name {e : Event} (h : step fixed2 s e = some t) (i : Fin maxThreads) :
    (t.pthreadsList i).clientName = (s.pthreadsList i).clientName ∨
      (t.pthreadsList i).clientName = CString.empty 29 ∨
        Registered [e] (t.pthreadsList i).clientName := by
  cases e with
  | command sock msgLen tempx now stray =>
    obtain ⟨r, hr, rfl⟩ := Option.map_eq_some_iff.mp h
    obtain ⟨hcmd, -, name, hname, hslot⟩ | ⟨-, hslot | ⟨-, hslot⟩ | hslot⟩ := command_slot hr i
    · rw [hslot]
      exact .inr (.inr ⟨sock, msgLen, tempx, now, stray, _, List.mem_singleton_self _, hcmd, hname⟩)
    · rw [hslot]
      exact .inl rfl
    · rw [hslot]
      exact .inl rfl
    · rw [hslot]
      exact .inr (.inl rfl)
  | accept fd address =>
    obtain ⟨k, hacc⟩ := step_accept h
    left
    by_cases hik : i = k
    · rw [hik, hacc.filled]
      rfl
    · rw [hacc.kept i hik]
  | listenStart sock now =>
    cases h
    left
    simp only [listenStart]
    split
    · rfl
    · rfl
  | logoffClient name =>
    cases h
    left
    rw [logoffClient_slot]
    split
    · rfl
    · rfl
  | timerVisit j =>
    obtain ⟨r, hr, rfl⟩ := Option.map_eq_some_iff.mp h
    have hname : (if i = j then (s.pthreadsList j).counted else s.pthreadsList i).clientName =
        (s.pthreadsList i).clientName := by
      split
      · rename_i hij
        rw [hij]
        rfl
      · rfl
    left
    obtain ⟨-, hslot⟩ | ⟨-, -, -, hslot⟩ | ⟨-, -, -, hslot⟩ := timerVisit_slot hr i
    · rw [hslot]
    · rw [hslot]
      exact hname
    · split at hslot
      · rw [hslot]
        exact hname
      · rw [hslot]

namespace TimerInv

theorem start {stack : Buffer 100} (hnames : names (CString.empty 29)) :
    TimerInv names (init stack) where
  slots _ := hnames
  text := ⟨ascii "timer ", Buffer.cstr_of_append rfl (by decide), .inl rfl⟩

theorem step {e : Event} (hs : TimerInv names s) (hempty : names (CString.empty 29))
    (hnames : ∀ name, Registered [e] name → names name) (h : step fixed2 s e = some t) :
    TimerInv names t where
  slots i := by
    obtain hname | hname | hname := step_name h i
    · rw [hname]
      exact hs.slots i
    · rw [hname]
      exact hempty
    · exact hnames _ hname
  text := by
    obtain ⟨text, htext, hknown⟩ := hs.text
    obtain hbuff | ⟨i, hbuff⟩ := step_buff h htext
    · exact ⟨text, by rw [hbuff, htext], hknown⟩
    · exact ⟨_, hbuff, .inr ⟨_, hs.slots i, rfl⟩⟩

end TimerInv

end Steps

/-- A client without a name, or one that has sent it. -/
def KnownName (events : List Event) (name : CString 30) : Prop :=
  name = CString.empty 29 ∨ Registered events name

theorem Registered.mono {e : Event} {events : List Event} {name : CString 30}
    (h : Registered [e] name) (he : e ∈ events) : Registered events name := by
  obtain ⟨sock, msgLen, tempx, now, stray, winCl, hmem, hcmd, hname⟩ := h
  rw [← List.mem_singleton.mp hmem] at he
  exact ⟨sock, msgLen, tempx, now, stray, winCl, he, hcmd, hname⟩

/-- In every run of the server the timer's next visit stays inside its buffer, whatever slot it is
for. What it sends is the start text, the farewell of a name that some client has sent, or that of
no name, taken from inside the buffer; it fits the receive buffer of a Linux client, and an ESP32
answers it. -/
theorem timer_visits_safe (fixed2 : Int → Nat → List UInt8) (stack : Buffer 100)
    (events : List Event) (s : State) (hrun : exec (step fixed2) (init stack) events = some s) :
    ∃ text, TimerText (KnownName events) text ∧
      (∀ i, ∃ r, timerVisit s i = some r ∧ ∀ e ∈ r.2, VisitEffect s text e) ∧
      2 * text.length + 1 ≤ s.buff.bytes.length ∧
      (sendMsg text.length s.buff.bytes CmdTypes.sendStatus.code).flatten =
        frame (CmdTypes.sendStatus.code, text) ∧
      (∀ stale tempx rest,
        (Client.receive stale tempx (frame (CmdTypes.sendStatus.code, text) ++ rest)).isSome) ∧
      ∀ (sd : Nat) stale tempx rest,
        Esp32.statusReply sd stale tempx (frame (CmdTypes.sendStatus.code, text) ++ rest) =
          some (Client.frame (CmdTypes.updateStatus.code, 5, Esp32.clientName)) := by
  have hinv : TimerInv (KnownName events) s := by
    refine (allSteps_of_forall (fun _ he => he) _).exec_inv (fun _ e _ hs he hstep => ?_)
      (TimerInv.start (.inl rfl)) hrun
    exact hs.step (.inl rfl) (fun name hname => .inr (hname.mono he)) hstep
  obtain ⟨text, htext, hknown⟩ := hinv.text
  have hlength := hknown.length_le
  obtain ⟨-, behind, hbytes⟩ := Buffer.cstr_eq_some.mp htext
  have htake : s.buff.bytes.take text.length = text := by
    rw [hbytes, List.take_left]
  refine ⟨text, hknown, fun i => ?_, ?_, ?_, fun stale tempx rest => ?_,
    fun sd stale tempx rest => ?_⟩
  · obtain ⟨r, hr, heffects, -⟩ := timerVisit_text htext i
    exact ⟨r, hr, heffects⟩
  · rw [s.buff.bytes_length]
    omega
  · simp [frame, sendMsg, htake]
  · obtain ⟨received, hreceive, -⟩ := Client.receive_frame stale tempx CmdTypes.sendStatus.code text
      rest (by omega)
    rw [hreceive]
    rfl
  · exact Esp32.statusReply_frame sd stale tempx rest (by omega)

/-- A client connects, gives its name and is logged off. -/
def silentClient : List Event :=
  [.accept 4 (ascii "192.168.88.154"),
    .command 4 3 (.padded 50 (CmdTypes.setClientName.code :: 0 :: ascii "154")) 0 0,
    .timerVisit 0, .timerVisit 0]

theorem timer_visits_safe_silent :
    ∃ s ∈ exec (step fun _ _ => []) (init (.zero 100)) silentClient,
      s.buff.cstr = some (ascii "154 logged off") ∧ ∀ i, ∃ r, timerVisit s i = some r := by
  have hend : (exec (step fun _ _ => []) (init (.zero 100)) silentClient).map
      (fun s => s.buff.cstr) = some (some (ascii "154 logged off")) := by
    decide +kernel
  obtain ⟨s, hrun, htext⟩ := Option.map_eq_some_iff.mp hend
  obtain ⟨text, -, hvisits, -⟩ := timer_visits_safe (fun _ _ => []) (.zero 100) silentClient s hrun
  refine ⟨s, hrun, htext, fun i => ?_⟩
  obtain ⟨r, hr, -⟩ := hvisits i
  exact ⟨r, hr⟩

end TcpIot.Server
