import TcpIot.Framework.SharedStream
import TcpIot.StatusReply

/-!
# The two tasks of the ESP32

`tcp_client` creates `read_sock_task` and then goes on sending on the same socket, so the answers
to heartbeats may fall between the `send` calls of a name or a value.
-/

namespace TcpIot.Esp32

open Framework

/-- `"testing IOT"`. -/
def testingIot : List UInt8 := [116, 101, 115, 116, 105, 110, 103, 32, 73, 79, 84]

/-- The `send` calls of `tcp_client` until its loop has made `turns` turns, when none fails. The
loop takes the length from the name. -/
def tcpClient (stack : Buffer 30) (turns : Nat) : Option (List (List UInt8)) :=
  (stack.strcpy clientName).bind fun name =>
    name.cstr.bind fun text =>
      (name.strcpy testingIot).map fun value =>
        let call (tempx : Buffer 30) (msgType : UInt8) :=
          (sendMsg (fun _ => true) text.length tempx.bytes msgType 5).2
        call name 72 ++ (List.replicate turns (call value 73)).flatten

/-- The `send` calls of the turns of `read_sock_task`, when none fails; every `get_msg` finds other
stack contents. `none` when the loop ends or `tempx` is overrun. -/
def readSockLoop (sd : Nat) :
    List (Stale 10) → Buffer 100 → List UInt8 → Option (List (List UInt8))
  | [], _, _ => some []
  | stale :: stales, tempx, stream =>
    (receive sd stale tempx stream).bind fun (msgLen, tempx, rest) =>
      (readSockTurn (fun _ => true) msgLen tempx).bind fun (tempx, calls) =>
        (readSockLoop sd stales tempx rest).map (calls ++ ·)

/-- The task deletes itself before its loop when the number of the socket is above 100. -/
def readSock (sock : Nat) (stales : List (Stale 10)) (tempx : Buffer 100) (stream : List UInt8) :
    Option (List (List UInt8)) :=
  if 100 < sock then some [] else readSockLoop sock stales tempx stream

/-- The `send` calls of a frame. -/
def sends (m : UInt8 × UInt8 × List UInt8) : List (List UInt8) :=
  (sendMsg (fun _ => true) m.2.2.length m.2.2 m.1 m.2.1).2

theorem flatten_sends (m : UInt8 × UInt8 × List UInt8) : (sends m).flatten = Client.frame m :=
  frame_eq_client m

theorem sendMsg_eq_sends {msgLen : Nat} {msg : List UInt8} (h : msgLen ≤ msg.length)
    (msgType dest : UInt8) :
    (sendMsg (fun _ => true) msgLen msg msgType dest).2 =
      sends (msgType, dest, msg.take msgLen) := by
  have hbytes : sendBytes (msg.take msgLen).length (msg.take msgLen) = sendBytes msgLen msg := by
    rw [sendBytes, sendBytes, List.take_length]
  rw [sends, sendMsg, sendMsg]
  dsimp only
  rw [hbytes, List.length_take_of_le h]

def nameMessage : UInt8 × UInt8 × List UInt8 := (CmdTypes.setClientName.code, 5, clientName)

def valueMessage : UInt8 × UInt8 × List UInt8 := (CmdTypes.sendIotValues.code, 5, testingIot)

def statusMessage : UInt8 × UInt8 × List UInt8 := (CmdTypes.updateStatus.code, 5, clientName)

/-- What the loop of `read_sock_task` answers to the commands of the server. -/
def answers (cmds : List UInt8) : List (UInt8 × UInt8 × List UInt8) :=
  (cmds.filter (· = CmdTypes.sendStatus.code)).map fun _ => statusMessage

def taskAnswers (sock : Nat) (cmds : List UInt8) : List (UInt8 × UInt8 × List UInt8) :=
  if 100 < sock then [] else answers cmds

theorem tcpClient_sends (stack : Buffer 30) (turns : Nat) :
    tcpClient stack turns =
      some ((nameMessage :: List.replicate turns valueMessage).flatMap sends) := by
  obtain ⟨name, hname, hnameBytes⟩ := stack.strcpy_bytes (show clientName.length < 30 by decide)
  obtain ⟨value, hvalue, hvalueBytes⟩ := name.strcpy_bytes (show testingIot.length < 30 by decide)
  have htext : name.cstr = some clientName := Buffer.cstr_of_append hnameBytes (by decide)
  have hlong (b : Buffer 30) : clientName.length ≤ b.bytes.length := by
    rw [b.bytes_length]
    decide
  have hfirst : name.bytes.take clientName.length = clientName := by
    rw [hnameBytes, List.take_left]
  have hnext : value.bytes.take clientName.length = testingIot := by
    rw [hvalueBytes]
    exact @List.take_left _ testingIot _
  simp only [tcpClient, hname, htext, hvalue, Option.bind_some, Option.map_some,
    sendMsg_eq_sends (hlong _), hfirst, hnext]
  rw [List.flatMap_cons, List.flatMap_replicate]
  rfl

theorem readSockTurn_sends (tempx : Buffer 100) {cmd : UInt8} {payload after : List UInt8}
    (hbytes : tempx.bytes = cmd :: payload ++ after) :
    ∃ tempx', readSockTurn (fun _ => true) (payload.length : Nat) tempx =
      some (tempx', (answers [cmd]).flatMap sends) := by
  have hcmd : tempx.get 0 = cmd := by
    rw [Buffer.get_eq_getD, hbytes]
    rfl
  have hsplit : tempx.bytes = [cmd] ++ (payload ++ after) := hbytes
  obtain ⟨text, after', htext, -⟩ := Buffer.shiftDown_eq_some hsplit (by simp)
  have hunpack : unpack payload.length tempx = some text := htext
  simp only [readSockTurn, hunpack, hcmd, Option.bind_some]
  by_cases hstatus : cmd = CmdTypes.sendStatus.code
  · obtain ⟨reply, hcopy, hreply⟩ := text.strcpy_bytes (show clientName.length < 100 by decide)
    have hname : reply.bytes.take clientName.length = clientName := by
      rw [hreply, List.take_left]
    rw [if_pos hstatus, hcopy, Option.map_some,
      sendMsg_eq_sends (by rw [reply.bytes_length]; decide), hname]
    exact ⟨reply, by simp [answers, hstatus, statusMessage]⟩
  · rw [if_neg hstatus]
    exact ⟨text, by simp [answers, hstatus]⟩

theorem readSockLoop_sends (sd : Nat) (downs : List (Stale 10 × UInt8 × List UInt8))
    (hfit : ∀ d ∈ downs, d.2.2.length ≤ 99) (tempx : Buffer 100) (rest : List UInt8) :
    readSockLoop sd (downs.map Prod.fst) tempx
        (downs.flatMap (fun d => Server.frame d.2) ++ rest) =
      some ((answers (downs.map fun d => d.2.1)).flatMap sends) := by
  induction downs generalizing tempx with
  | nil => rfl
  | cons d downs ih =>
    obtain ⟨stale, cmd, payload⟩ := d
    have hpayload : payload.length ≤ 99 := hfit _ List.mem_cons_self
    rw [List.flatMap_cons, List.append_assoc]
    obtain ⟨received, hreceive, hbytes⟩ := receive_frame sd stale tempx cmd payload
      (downs.flatMap (fun d => Server.frame d.2) ++ rest) hpayload
    obtain ⟨tempx', hturn⟩ := readSockTurn_sends received hbytes
    have hrest := ih (fun d hd => hfit d (List.mem_cons_of_mem _ hd)) tempx'
    have hanswers : answers (cmd :: downs.map fun d => d.2.1) =
        answers [cmd] ++ answers (downs.map fun d => d.2.1) := by
      rw [answers, answers, answers, ← List.map_append, ← List.filter_append]
      rfl
    simp only [List.map_cons, readSockLoop, hreceive, hturn, Option.bind_some, hrest,
      Option.map_some]
    rw [hanswers, List.flatMap_append]

theorem readSock_sends (sock : Nat) (downs : List (Stale 10 × UInt8 × List UInt8))
    (hfit : ∀ d ∈ downs, d.2.2.length ≤ 99) (tempx : Buffer 100) (rest : List UInt8) :
    readSock sock (downs.map Prod.fst) tempx
        (downs.flatMap (fun d => Server.frame d.2) ++ rest) =
      some ((taskAnswers sock (downs.map fun d => d.2.1)).flatMap sends) := by
  unfold readSock taskAnswers
  split
  · rfl
  · exact readSockLoop_sends sock downs hfit tempx rest

/-- The frames towards the server, whose length bytes are nibbles. -/
theorem upFrames (sd : Nat) (stale : Stale 10) :
    LengthPrefixed (Server.nextFrame sd stale) Client.frame
      (fun m => prePreamble ++ m.1 :: m.2.1 :: m.2.2) (fun b => b.toNat < 16) 2 where
  shrinking := Server.nextFrame_shrinking sd stale
  sent m := by
    refine ⟨[lenLow m.2.2.length, lenHigh m.2.2.length], ?_, rfl, lens_small _⟩
    rw [Client.frame_eq]
    exact lens_perm _ _ _
  read s m rest hs := by
    obtain ⟨low, high, body, rfl, hlen, hparse⟩ :=
      (takeFrame_eq_some (Server.getMsg_readsHeader sd stale) (by decide)).mp hs
    match body, hparse with
    | msgType :: dest :: payload, hparse =>
      cases hparse
      refine ⟨_, rfl, [low, high], lens_perm low high _, rfl, fun hsmall => ?_⟩
      have hpayload : decodeLen low high = payload.length :=
        (Nat.succ.inj (Nat.succ.inj hlen)).symm
      obtain ⟨rfl, rfl⟩ := lens_of_decodeLen (hsmall low (by simp)) (hsmall high (by simp)) hpayload
      rw [Client.frame_eq]

theorem preambles_ne_frames (rest : List UInt8) {order : List (UInt8 × UInt8 × List UInt8)}
    (horder : order ≠ []) : prePreamble ++ (prePreamble ++ rest) ≠ order.flatMap Client.frame := by
  intro h
  match order, horder with
  | m :: order, _ =>
    rw [List.flatMap_cons, Client.frame_eq, List.append_assoc] at h
    have hlow : (0xF8 : UInt8) = lenLow m.2.2.length :=
      (List.cons.inj (List.append_cancel_left h)).1
    have hnibble := lenLow_toNat m.2.2.length
    rw [← hlow] at hnibble
    have hvalue : (0xF8 : UInt8).toNat = 248 := rfl
    omega

/-- What the two tasks have sent after these turns and these commands of the server. -/
def messages (sock turns : Nat) (cmds : List UInt8) : List (UInt8 × UInt8 × List UInt8) :=
  nameMessage :: List.replicate turns valueMessage ++ taskAnswers sock cmds

theorem messages_short (sock turns : Nat) (cmds : List UInt8) :
    ∀ m ∈ messages sock turns cmds, m.2.2.length < 256 := by
  intro m hm
  rw [messages, List.mem_append, List.mem_cons] at hm
  obtain (rfl | hvalue) | hanswer := hm
  · decide
  · rw [List.eq_of_mem_replicate hvalue]
    decide
  · unfold taskAnswers at hanswer
    split at hanswer
    · cases hanswer
    · obtain ⟨_, -, rfl⟩ := List.mem_map.mp hanswer
      decide

theorem answer_inside_name (turns : Nat) {cmds : List UInt8}
    (hstatus : CmdTypes.sendStatus.code ∈ cmds) :
    ∃ calls rest, Interleaving [(nameMessage :: List.replicate turns valueMessage).flatMap sends,
        (answers cmds).flatMap sends] calls ∧
      calls.flatten = prePreamble ++ (prePreamble ++ rest) := by
  have hanswer : statusMessage ∈ answers cmds := by
    apply List.mem_map.mpr
    exact ⟨_, List.mem_filter.mpr ⟨hstatus, by simp⟩, rfl⟩
  obtain ⟨m, more, hmore⟩ := List.exists_cons_of_ne_nil (List.ne_nil_of_mem hanswer)
  obtain ⟨left, hname⟩ : ∃ left,
      (nameMessage :: List.replicate turns valueMessage).flatMap sends = prePreamble :: left :=
    ⟨_, List.flatMap_cons⟩
  have hreader : ((answers cmds).flatMap sends).flatten =
      prePreamble ++ ((sends m).tail ++ more.flatMap sends).flatten := by
    rw [hmore, List.flatMap_cons]
    rfl
  have hbytes : (prePreamble :: ((answers cmds).flatMap sends ++ left)).flatten =
      prePreamble ++ (prePreamble ++
        (((sends m).tail ++ more.flatMap sends).flatten ++ left.flatten)) := by
    rw [List.flatten_cons, List.flatten_append, hreader, List.append_assoc]
  rw [hname]
  exact ⟨_, _, Interleaving.inside _ _ _, hbytes⟩

/-- For every number of turns, all messages of the server that fit `tempx` and all old contents of
the stack: both tasks run. In every order of their `send` calls, the server reads the name, the
values and (from a socket up to 100) one status for each `SEND_STATUS` iff the frames reach it one
behind the other; and once such a `SEND_STATUS` has come there is an order in which they do not. -/
theorem two_tasks (sd sock : Nat) (staleUp : Stale 10) (stack : Buffer 30) (tempx : Buffer 100)
    (turns : Nat) (downs : List (Stale 10 × UInt8 × List UInt8)) (rest : List UInt8)
    (hfit : ∀ d ∈ downs, d.2.2.length ≤ 99) :
    ∃ client reader, tcpClient stack turns = some client ∧
      readSock sock (downs.map Prod.fst) tempx
        (downs.flatMap (fun d => Server.frame d.2) ++ rest) = some reader ∧
      (∀ calls, Interleaving [client, reader] calls →
        ((decodeStream (Server.nextFrame sd staleUp) calls.flatten).1.Perm
            (messages sock turns (downs.map fun d => d.2.1)) ↔
          ∃ order : List (UInt8 × UInt8 × List UInt8),
            order.Perm (messages sock turns (downs.map fun d => d.2.1)) ∧
              calls.flatten = order.flatMap Client.frame)) ∧
      (sock ≤ 100 → CmdTypes.sendStatus.code ∈ downs.map (fun d => d.2.1) →
        ∃ calls, Interleaving [client, reader] calls ∧
          ¬ (decodeStream (Server.nextFrame sd staleUp) calls.flatten).1.Perm
            (messages sock turns (downs.map fun d => d.2.1))) := by
  set cmds := downs.map fun d => d.2.1 with hcmds
  set senders := [nameMessage :: List.replicate turns valueMessage, taskAnswers sock cmds]
    with hsenders
  have hall : messages sock turns cmds = senders.flatten := by
    rw [hsenders, List.flatten_cons, List.flatten_cons, List.flatten_nil, List.append_nil]
    rfl
  have hread : ∀ m ∈ senders.flatten, ∀ tail,
      Server.nextFrame sd staleUp (Client.frame m ++ tail) = some (m, tail) := by
    rw [← hall]
    intro m hm
    exact Server.nextFrame_frame sd staleUp m (messages_short sock turns cmds m hm)
  have hintact (calls : List (List UInt8))
      (hcalls : Interleaving (senders.map fun ms => ms.flatMap sends) calls) :=
    (upFrames sd staleUp).interleaved_iff flatten_sends hread hcalls
  rw [← hall] at hintact
  refine ⟨_, _, tcpClient_sends stack turns, readSock_sends sock downs hfit tempx rest, hintact,
    fun hsock hstatus => ?_⟩
  obtain ⟨calls, after, hcalls, hbytes⟩ := answer_inside_name turns hstatus
  have hanswers : taskAnswers sock cmds = answers cmds := if_neg (Nat.not_lt.mpr hsock)
  rw [← hanswers] at hcalls
  refine ⟨calls, hcalls, fun hperm => ?_⟩
  obtain ⟨order, horder, hframes⟩ := (hintact calls hcalls).mp hperm
  have hsome : order ≠ [] := by
    intro hnone
    rw [hnone] at horder
    cases horder.nil_eq
  exact preambles_ne_frames after hsome (hbytes.symm.trans hframes)

/-- The timer's `SEND_STATUS` has come before the first value is sent. -/
theorem two_tasks_timer :
    ∃ client reader, tcpClient (.zero 30) 1 = some client ∧
      readSock 54 [⟨.zero 10, 0, 0⟩] (.zero 100)
        (Server.frame (CmdTypes.sendStatus.code, [116, 105, 109, 101, 114, 32])) =
          some reader ∧
      ∃ calls, Interleaving [client, reader] calls ∧
        ¬ (decodeStream (Server.nextFrame 4 ⟨.zero 10, 0, 0⟩) calls.flatten).1.Perm
          [nameMessage, valueMessage, statusMessage] := by
  obtain ⟨client, reader, hclient, hreader, -, hbroken⟩ :=
    two_tasks 4 54 ⟨.zero 10, 0, 0⟩ (.zero 30) (.zero 100) 1
      [(⟨.zero 10, 0, 0⟩, CmdTypes.sendStatus.code, [116, 105, 109, 101, 114, 32])] []
      (by decide)
  rw [List.append_nil] at hreader
  exact ⟨client, reader, hclient, hreader, hbroken (by decide) (by decide)⟩

end TcpIot.Esp32
