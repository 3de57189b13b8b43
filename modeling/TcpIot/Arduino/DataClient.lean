import TcpIot.Server.Heartbeat
import TcpIot.Server.Text
import TcpIot.Server.Truncation

/-!
# A client that sends values

The sketch `data_xfer_client2` gives the server its name and then sends a text with a growing
number for ever. The number is printed into five bytes. The server stores the name and only
prints the texts.
-/

namespace TcpIot.Arduino.DataClient

open Framework Server

/-- The sketch's `send_msg`: the list of its `write` calls. -/
def sendMsg (msgLen : Nat) (msg : List UInt8) (msgType dest : UInt8) : List (List UInt8) :=
  [prePreamble, [lenLow msgLen, lenHigh msgLen, msgType, dest]] ++ sendBytes msgLen msg

def clientText : List UInt8 := ascii "wifi client"

/-- `send_msg` of the text in `tempx`, to destination 5. -/
def sendText (tempx : Buffer 30) (msgType : UInt8) : Option (List (List UInt8)) :=
  tempx.cstr.map fun text => sendMsg text.length tempx.bytes msgType 5

/-- What `TCP_Client_A` does once it is connected, up to its loop. -/
def sendName (stack : Buffer 30) : Option (List (List UInt8)) :=
  (stack.strcpy clientText).bind fun tempx => sendText tempx 72

/-- A turn of its loop; `itoa` writes into `tempx2`. -/
def sendValue (i : UInt16) : Option (List (List UInt8)) :=
  ((Buffer.zero 30).strcpy (ascii "test asdf ")).bind fun tempx =>
    ((Buffer.zero 5).strcpy (decimal i.toNat)).bind fun tempx2 =>
      tempx2.cstr.bind fun digits => (tempx.strcat digits).bind fun tempx => sendText tempx 73

/-- All that is written until the loop has made `n` turns; `none` when it has left an array. -/
def written (stack : Buffer 30) : Nat → Option (List (List UInt8))
  | 0 => sendName stack
  | n + 1 => (written stack n).bind fun calls =>
    (sendValue (UInt16.ofNat n)).map fun more => calls ++ more

theorem sendMsg_flatten (msg : List UInt8) (msgLen : Nat) (msgType dest : UInt8) :
    (sendMsg msgLen msg msgType dest).flatten =
      (Client.sendMsg msgLen msg msgType dest).flatten := by
  simp [sendMsg, Client.sendMsg]

theorem sendText_frame {tempx : Buffer 30} {text : List UInt8} (h : tempx.cstr = some text)
    (msgType : UInt8) :
    ∃ calls, sendText tempx msgType = some calls ∧
      calls.flatten = Client.frame (msgType, 5, text) := by
  obtain ⟨-, after, hbytes⟩ := Buffer.cstr_eq_some.mp h
  have htake : tempx.bytes.take text.length = text := by
    rw [hbytes, List.take_left]
  refine ⟨_, by rw [sendText, h, Option.map_some], ?_⟩
  rw [sendMsg_flatten]
  simp [Client.frame, Client.sendMsg, htake]

/-- The text of a turn. -/
def valueText (i : Nat) : List UInt8 := ascii "test asdf " ++ decimal i

theorem valueText_noNul (i : Nat) : 0 ∉ valueText i := by
  rw [valueText, List.mem_append, not_or]
  exact ⟨by decide, decimal_noNul i⟩

theorem toNat_ofNat_lt {i : Nat} (h : i < 65536) : (UInt16.ofNat i).toNat = i := by
  rw [UInt16.toNat_ofNat']
  exact Nat.mod_eq_of_lt h

theorem decimal_short_iff {i : Nat} : (decimal i).length < 5 ↔ i < 10000 := by
  rw [Nat.lt_succ_iff]
  exact decimal_natCast_length_le (by decide)

theorem sendValue_frame {i : Nat} (h : i < 10000) :
    ∃ calls, sendValue (UInt16.ofNat i) = some calls ∧
      calls.flatten = Client.frame (CmdTypes.sendIotValues.code, 5, valueText i) := by
  have hdigits : (decimal i).length < 5 := decimal_short_iff.mpr h
  obtain ⟨tempx, htempx, htext⟩ :=
    Buffer.strcpy_fits (Buffer.zero 30) (s := ascii "test asdf ") (by decide)
  obtain ⟨tempx2, htempx2, hnumber⟩ := Buffer.strcpy_fits (Buffer.zero 5) hdigits
  rw [Buffer.takeWhile_noNul (decimal_noNul i)] at hnumber
  have hroom : (ascii "test asdf ").length + (decimal i).length < 30 :=
    Nat.lt_trans (Nat.add_lt_add_left hdigits _) (by decide)
  obtain ⟨whole, hwhole, hboth⟩ := Buffer.strcat_fits htext (decimal_noNul i) hroom
  obtain ⟨calls, hcalls, hframe⟩ := sendText_frame hboth 73
  refine ⟨calls, ?_, hframe⟩
  simp only [sendValue, htempx, toNat_ofNat_lt (Nat.lt_trans h (by decide)), htempx2, hnumber,
    hwhole, hcalls, Option.bind_some]

theorem sendValue_overruns : sendValue (UInt16.ofNat 10000) = none := by
  obtain ⟨tempx, htempx, -⟩ :=
    Buffer.strcpy_fits (Buffer.zero 30) (s := ascii "test asdf ") (by decide)
  have hdigits : ¬ (decimal (10000 : Nat)).length < 5 := by
    rw [decimal_short_iff]
    exact Nat.lt_irrefl 10000
  simp only [sendValue, htempx, toNat_ofNat_lt (by decide : 10000 < 65536), Option.bind_some,
    Buffer.strcpy_overruns (Buffer.zero 5) (Nat.le_of_not_lt hdigits), Option.bind_none]

/-- The commands and texts that are sent until the loop has made `n` turns. -/
def messages (n : Nat) : List (UInt8 × List UInt8) :=
  (CmdTypes.setClientName.code, clientText) ::
    (List.range n).map fun i => (CmdTypes.sendIotValues.code, valueText i)

def framed (ms : List (UInt8 × List UInt8)) : List UInt8 :=
  ms.flatMap fun m => Client.frame (m.1, 5, m.2)

theorem written_frames (stack : Buffer 30) {n : Nat} (h : n ≤ 10000) :
    ∃ calls, written stack n = some calls ∧ calls.flatten = framed (messages n) := by
  induction n with
  | zero =>
    obtain ⟨tempx, htempx, htext⟩ := Buffer.strcpy_fits stack (s := clientText) (by decide)
    obtain ⟨calls, hcalls, hframe⟩ := sendText_frame htext 72
    refine ⟨calls, ?_, ?_⟩
    · simp only [written, sendName, htempx, hcalls, Option.bind_some]
    · exact hframe.trans (List.append_nil _).symm
  | succ n ih =>
    obtain ⟨calls, hcalls, hbytes⟩ := ih (Nat.le_of_succ_le h)
    obtain ⟨more, hmore, hframe⟩ := sendValue_frame h
    refine ⟨calls ++ more, ?_, ?_⟩
    · simp only [written, hcalls, hmore, Option.bind_some, Option.map_some]
    · rw [List.flatten_append, hbytes, hframe]
      simp [framed, messages, List.range_succ]

theorem written_overruns (stack : Buffer 30) {n : Nat} (h : 10000 < n) :
    written stack n = none := by
  induction n with
  | zero => cases h
  | succ n ih =>
    by_cases hn : n = 10000
    · rw [hn, written, sendValue_overruns]
      simp
    · rw [written, ih (by omega), Option.bind_none]

/-- A turn of the client's own `listen_thread`. -/
def OwnTurn (sock : Int) : WireEvent → Prop
  | .turn t => t.sock = sock
  | _ => False

instance (sock : Int) : DecidablePred (OwnTurn sock)
  | .turn t => inferInstanceAs (Decidable (t.sock = sock))
  | .accept _ _ _ | .listenStart _ _ | .logoffClient _ | .timerVisit _ =>
    inferInstanceAs (Decidable False)

/-- The slot and the descriptor that a thread finds, and what it reads from them. -/
structure Connected (w : Wired) (sock : Int) (index : Fin maxThreads) (fd : Nat)
    (stream : List UInt8) : Prop where
  lookup : lookupIndex w.table sock = index
  socket : (w.table.pthreadsList index).sock = fd
  narrow : (w.table.pthreadsList index).winCl ≠ 1
  delivers : w.streams fd = stream

section Serving

variable {fixed2 : Int → Nat → List UInt8} {w w' : Wired} {sock : Int} {index : Fin maxThreads}
  {fd : Nat} {stream rest : List UInt8}

theorem turn_frame {t : Reading} {cmd dest : UInt8} {payload : List UInt8}
    (h : Connected w sock index fd (Client.frame (cmd, dest, payload) ++ rest))
    (ht : t.sock = sock) (hcmd : CmdInRange cmd) (hfit : payload.length ≤ 48)
    (htext : 0 ∉ payload) :
    ∃ text : Buffer 50, text.cstr = some payload ∧
      turn fixed2 w t = (dispatch fixed2 w.table index payload.length text cmd dest t.now
        t.stray).map fun r => (⟨r.1, Function.update w.streams fd rest⟩, r.2) := by
  have hindex : w.index t = index := by
    rw [Wired.index, ht, h.lookup]
  have hfd : w.fd t = fd := by
    rw [Wired.fd, hindex, h.socket]
  have hturn : Ordinary w t := by
    rw [Ordinary, hindex]
    exact h.narrow
  have hstream : w.stream t = Client.frame (cmd, dest, payload) ++ rest := by
    rw [Wired.stream, hfd, h.delivers]
  obtain ⟨r, hr, hlen, -, hrest, hbytes⟩ :=
    receiveNarrow_frame fd t.stale cmd dest payload rest hfit
  obtain ⟨text, after, hunpack, htextBytes⟩ := unpackNarrow_eq hbytes
  have hget : r.tempx.get 0 = cmd := by
    rw [Buffer.get_eq_getD, hbytes]
    rfl
  have hdest : r.tempx.get 1 = dest := by
    rw [Buffer.get_eq_getD, hbytes]
    rfl
  refine ⟨text, Buffer.cstr_of_append htextBytes htext, ?_⟩
  rw [turn, if_pos hturn, turnNarrow, hfd, hstream, hr, Option.bind_some]
  simp only [hlen, ge_iff_le, Int.natCast_nonneg, if_true, hindex, serve, hget, if_pos hcmd,
    unpack, if_neg h.narrow, hunpack, hdest, hrest, Option.map_some, Option.bind_some,
    List.nil_append]

theorem lookupIndex_congr {s s' : State}
    (h : ∀ i, (s'.pthreadsList i).sock = (s.pthreadsList i).sock) :
    lookupIndex s' sock = lookupIndex s sock := by
  simp only [lookupIndex, h]

/-- A name, or a text that the server only prints. -/
structure Served (m : UInt8 × List UInt8) : Prop where
  cmd : m.1 = CmdTypes.setClientName.code ∨ m.1 = CmdTypes.sendIotValues.code
  short : m.2.length < 30
  text : 0 ∉ m.2

theorem Served.inRange {m : UInt8 × List UInt8} (h : Served m) : CmdInRange m.1 := by
  obtain hcmd | hcmd := h.cmd
  · rw [hcmd]
    decide
  · rw [hcmd]
    decide

theorem messages_served {n : Nat} (h : n ≤ 10000) : ∀ m ∈ messages n, Served m := by
  intro m hm
  obtain rfl | hm := List.mem_cons.mp hm
  · exact ⟨.inl rfl, by decide, by decide⟩
  · obtain ⟨i, hi, rfl⟩ := List.mem_map.mp hm
    have hdigits : (decimal i).length < 5 :=
      decimal_short_iff.mpr ((List.mem_range.mp hi).trans_le h)
    have htext : (ascii "test asdf ").length = 10 := rfl
    refine ⟨.inr rfl, ?_, valueText_noNul i⟩
    rw [valueText, List.length_append, htext]
    omega

/-- The name of the slot after these messages. -/
def nameAfter (name : List UInt8) (ms : List (UInt8 × List UInt8)) : List UInt8 :=
  ms.foldl (fun name m => if m.1 = CmdTypes.setClientName.code then m.2 else name) name

theorem setClientName_connected {text : Buffer 50} {payload : List UInt8}
    (h : Connected w sock index fd stream) (htext : text.cstr = some payload)
    (hfit : payload.length < 30) :
    ∃ table, setClientName w.table index text = some table ∧
      Connected ⟨table, Function.update w.streams fd rest⟩ sock index fd rest ∧
      (table.pthreadsList index).clientName.chars = payload := by
  have hnul := (Buffer.cstr_eq_some.mp htext).1
  have hname : CString.ofChars 30 payload = some ⟨payload, hfit, hnul⟩ :=
    CString.ofChars_eq_some.mpr rfl
  have hset : (setClientName w.table index text).isSome := by
    simp [setClientName, htext, hname]
  obtain ⟨table, htable⟩ := Option.isSome_iff_exists.mp hset
  obtain ⟨name, hchars, hslot, hothers⟩ := setClientName_slot htable
  refine ⟨table, htable, ⟨?_, ?_, ?_, Function.update_self _ _ _⟩, ?_⟩
  · rw [← h.lookup]
    apply lookupIndex_congr
    intro i
    by_cases hi : i = index
    · rw [hi, hslot]
    · rw [hothers i hi]
  · rw [hslot]
    exact h.socket
  · rw [hslot]
    exact h.narrow
  · rw [hslot]
    exact Option.some.inj (hchars.symm.trans htext)

theorem turn_served {t : Reading} {m : UInt8 × List UInt8} {ms : List (UInt8 × List UInt8)}
    (h : Connected w sock index fd (framed (m :: ms) ++ rest)) (hm : Served m)
    (ht : t.sock = sock) :
    ∃ w', turn fixed2 w t = some (w', []) ∧ Connected w' sock index fd (framed ms ++ rest) ∧
      (w'.table.pthreadsList index).clientName.chars =
        nameAfter (w.table.pthreadsList index).clientName.chars [m] := by
  obtain ⟨cmd, payload⟩ := m
  have hframe : framed ((cmd, payload) :: ms) ++ rest =
      Client.frame (cmd, 5, payload) ++ (framed ms ++ rest) := List.append_assoc _ _ _
  have hshort : payload.length < 30 := hm.short
  have hrange : CmdInRange cmd := hm.inRange
  rw [hframe] at h
  obtain ⟨text, htext, hturn⟩ :=
    @turn_frame fixed2 w sock index fd _ t cmd 5 payload h ht hrange (by omega) hm.text
  by_cases hcmd : cmd = CmdTypes.setClientName.code
  · obtain ⟨table, htable, hconnected, hname⟩ :=
      @setClientName_connected w sock index fd _ (framed ms ++ rest) text payload h htext hshort
    refine ⟨⟨table, Function.update w.streams fd (framed ms ++ rest)⟩, ?_, hconnected, ?_⟩
    · rw [hturn, dispatch, if_pos hcmd, htable]
      rfl
    · simp [nameAfter, hcmd, hname]
  · have hvalue : cmd = CmdTypes.sendIotValues.code := hm.cmd.resolve_left hcmd
    subst hvalue
    refine ⟨⟨w.table, Function.update w.streams fd (framed ms ++ rest)⟩, ?_,
      ⟨h.lookup, h.socket, h.narrow, Function.update_self _ _ _⟩, ?_⟩
    · rw [hturn, dispatch, htext]
      rfl
    · simp [nameAfter, hcmd]

/-- The slot that a thread finds. -/
def slotOf (w : Wired) (sock : Int) : Threads := w.table.pthreadsList (lookupIndex w.table sock)

/-- What a thread finds is still what it found before. -/
structure Undisturbed (sock : Int) (w w' : Wired) : Prop where
  lookup : lookupIndex w'.table sock = lookupIndex w.table sock
  socket : (slotOf w' sock).sock = (slotOf w sock).sock
  winCl : (slotOf w' sock).winCl = (slotOf w sock).winCl
  name : (slotOf w' sock).clientName = (slotOf w sock).clientName
  delivers : w'.streams (slotOf w sock).sock = w.streams (slotOf w sock).sock

/-- An event of the client's own thread, or one that leaves its slot and its stream alone. -/
def Calm (fixed2 : Int → Nat → List UInt8) (sock : Int) (w : Wired) (e : WireEvent) : Prop :=
  OwnTurn sock e ∨ ∀ w', wireStep fixed2 w e = some w' → Undisturbed sock w w'

/-- The client's own turns stay inside all arrays, and nothing is sent in them. -/
def Noiseless (fixed2 : Int → Nat → List UInt8) (sock : Int) (w : Wired) : WireEvent → Prop
  | .turn t => t.sock = sock → ∃ w', turn fixed2 w t = some (w', [])
  | _ => True

theorem Undisturbed.connected (h : Undisturbed sock w w')
    (hw : Connected w sock index fd stream) : Connected w' sock index fd stream ∧
      (w'.table.pthreadsList index).clientName = (w.table.pthreadsList index).clientName := by
  obtain ⟨hlookup, hsocket, hwinCl, hname, hdelivers⟩ := h
  simp only [slotOf, hlookup, hw.lookup] at hsocket hwinCl hname hdelivers
  refine ⟨⟨hlookup.trans hw.lookup, hsocket.trans hw.socket, ?_, ?_⟩, hname⟩
  · rw [hwinCl]
    exact hw.narrow
  · rw [← hw.socket, hdelivers, hw.socket, hw.delivers]

/-- After `k` turns of its own thread the client's first `k` messages have been taken. -/
theorem run_served {ms : List (UInt8 × List UInt8)} {events : List WireEvent}
    (hms : ∀ m ∈ ms, Served m) (h : Connected w sock index fd (framed ms ++ rest))
    (hcalm : AllSteps (wireStep fixed2) (Calm fixed2 sock) w events)
    (hcount : events.countP (OwnTurn sock) ≤ ms.length)
    (hrun : exec (wireStep fixed2) w events = some w') :
    AllSteps (wireStep fixed2) (Noiseless fixed2 sock) w events ∧
      Connected w' sock index fd (framed (ms.drop (events.countP (OwnTurn sock))) ++ rest) ∧
      (w'.table.pthreadsList index).clientName.chars =
        nameAfter (w.table.pthreadsList index).clientName.chars
          (ms.take (events.countP (OwnTurn sock))) := by
  induction events generalizing w ms with
  | nil =>
    cases hrun
    exact ⟨trivial, h, rfl⟩
  | cons e events ih =>
    obtain ⟨u, hu, hrest⟩ := Option.bind_eq_some_iff.mp hrun
    obtain ⟨hgood, hcalm⟩ := hcalm
    by_cases hown : OwnTurn sock e
    · have hk : (e :: events).countP (OwnTurn sock) = events.countP (OwnTurn sock) + 1 := by
        simp [hown]
      rw [hk] at hcount ⊢
      cases ms with
      | nil => cases hcount
      | cons m ms =>
        cases e with
        | turn t =>
          obtain ⟨v, hv, hconnected, hname⟩ :=
            @turn_served fixed2 w sock index fd rest t m ms h (hms m List.mem_cons_self) hown
          have huv : u = v := by
            rw [wireStep, hv, Option.map_some] at hu
            exact (Option.some.inj hu).symm
          subst huv
          obtain ⟨hquiet, hend, hnames⟩ := @ih u ms
            (fun m' hm' => hms m' (List.mem_cons_of_mem m hm')) hconnected (hcalm u hu)
            (Nat.le_of_succ_le_succ hcount) hrest
          refine ⟨⟨fun _ => ⟨u, hv⟩, fun x hx => ?_⟩, hend, ?_⟩
          · rw [hu] at hx
            cases hx
            exact hquiet
          · rw [hnames, hname]
            rfl
        | accept newSocket address stream => cases hown
        | listenStart sock' now => cases hown
        | logoffClient name => cases hown
        | timerVisit i => cases hown
    · have hk : (e :: events).countP (OwnTurn sock) = events.countP (OwnTurn sock) := by
        simp [hown]
      rw [hk] at hcount ⊢
      obtain ⟨hconnected, hname⟩ := (hgood.resolve_left hown u hu).connected h
      obtain ⟨hquiet, hend, hnames⟩ := ih hms hconnected (hcalm u hu) hcount hrest
      refine ⟨⟨?_, fun x hx => ?_⟩, hend, ?_⟩
      · cases e with
        | turn t => exact fun ht => absurd ht hown
        | _ => trivial
      · rw [hu] at hx
        cases hx
        exact hquiet
      · rw [hnames, hname]

end Serving

theorem nameAfter_messages (name : List UInt8) (n k : Nat) :
    nameAfter name ((messages n).take (k + 1)) = clientText := by
  have hvalues (l : List Nat) (name : List UInt8) :
      nameAfter name (l.map fun i => (CmdTypes.sendIotValues.code, valueText i)) = name := by
    induction l with
    | nil => rfl
    | cons i l ih => exact ih
  rw [messages, List.take_succ_cons, ← List.map_take]
  exact hvalues _ _

/-- The sketch leaves `tempx2` in the turn that prints 10000, and never before. Until then its
bytes are the frames of the name and of the values. Whatever else the server does, as long as it
leaves the client's slot and stream alone: after `k` turns of its thread the first `k` messages
have been taken, the slot has the name, and no turn has sent anything to anyone. -/
theorem values_arrive (stack : Buffer 30) (n : Nat) :
    ((written stack n).isSome ↔ n ≤ 10000) ∧
    ∀ calls, written stack n = some calls →
      calls.flatten = framed (messages n) ∧
      ∀ (fixed2 : Int → Nat → List UInt8) (sock : Int) (index : Fin maxThreads) (fd : Nat)
        (rest : List UInt8) (w w' : Wired) (events : List WireEvent),
        Connected w sock index fd (calls.flatten ++ rest) →
        AllSteps (wireStep fixed2) (Calm fixed2 sock) w events →
        events.countP (OwnTurn sock) ≤ n + 1 → exec (wireStep fixed2) w events = some w' →
        AllSteps (wireStep fixed2) (Noiseless fixed2 sock) w events ∧
          w'.streams fd = framed ((messages n).drop (events.countP (OwnTurn sock))) ++ rest ∧
          (0 < events.countP (OwnTurn sock) →
            (w'.table.pthreadsList index).clientName.chars = clientText) := by
  have hfits : (written stack n).isSome → n ≤ 10000 := by
    intro h
    by_contra hn
    rw [written_overruns stack (Nat.lt_of_not_le hn)] at h
    cases h
  constructor
  · refine ⟨hfits, fun hn => ?_⟩
    obtain ⟨calls, hcalls, -⟩ := written_frames stack hn
    rw [hcalls]
    rfl
  · intro calls hcalls
    have hn : n ≤ 10000 := hfits (hcalls ▸ rfl)
    obtain ⟨calls', hcalls', hbytes⟩ := written_frames stack hn
    rw [hcalls] at hcalls'
    cases hcalls'
    refine ⟨hbytes, fun fixed2 sock index fd rest w w' events h hcalm hcount hrun => ?_⟩
    rw [hbytes] at h
    have hlength : (messages n).length = n + 1 := by
      simp [messages]
    obtain ⟨hquiet, hend, hname⟩ :=
      run_served (messages_served hn) h hcalm (hlength ▸ hcount) hrun
    refine ⟨hquiet, hend.delivers, fun hpos => ?_⟩
    obtain ⟨k, hk⟩ := Nat.exists_eq_succ_of_ne_zero hpos.ne'
    rw [hname, hk]
    exact nameAfter_messages _ n k

/-- The client's connection is the only one. -/
def connectedServer : Wired where
  table := { (init (.zero 100)).setSlot 0 { emptySlot with sock := 4 } with noThreads := 1 }
  streams := fun _ => framed (messages 1)

def nextReading : Reading := ⟨4, ⟨.zero 10, 0, 0⟩, ⟨.zero 20, 0, 0⟩, [], 0, 0⟩

theorem values_arrive_first :
    ∃ w', exec (wireStep fun _ _ => []) connectedServer
        [.timerVisit 0, .turn nextReading, .turn nextReading] = some w' ∧
      w'.streams 4 = [] ∧ (w'.table.pthreadsList 0).clientName.chars = clientText := by
  have hwritten := values_arrive (.zero 30) 1
  obtain ⟨calls, hcalls⟩ := Option.isSome_iff_exists.mp (hwritten.1.mpr (by decide))
  obtain ⟨hbytes, hserver⟩ := hwritten.2 calls hcalls
  have hend : (exec (wireStep fun _ _ => []) connectedServer
      [.timerVisit 0, .turn nextReading, .turn nextReading]).isSome := by
    decide
  obtain ⟨w', hw'⟩ := Option.isSome_iff_exists.mp hend
  have hconnected : Connected connectedServer 4 0 4 (calls.flatten ++ []) := by
    rw [hbytes, List.append_nil]
    exact ⟨rfl, rfl, by decide, rfl⟩
  have hcalm : AllSteps (wireStep fun _ _ => []) (Calm (fun _ _ => []) 4) connectedServer
      [.timerVisit 0, .turn nextReading, .turn nextReading] := by
    refine ⟨.inr fun u hu => ?_, fun u _ => ⟨.inl rfl, fun v _ => ⟨.inl rfl, fun _ _ => trivial⟩⟩⟩
    cases hu
    exact ⟨rfl, rfl, rfl, rfl, rfl⟩
  obtain ⟨-, hstream, hname⟩ :=
    hserver _ 4 0 4 [] connectedServer w' _ hconnected hcalm (by decide) hw'
  exact ⟨w', hw', hstream, hname (by decide)⟩

end TcpIot.Arduino.DataClient
