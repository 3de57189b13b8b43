import TcpIot.Client.Listen
import TcpIot.Esp32.ReadSock
import TcpIot.Server.WideDecode

/-!
# Answers to the heartbeat

A client answers `SEND_STATUS` with an `UPDATE_STATUS` that carries its name, which the server
compares with the name the client registered. The Linux client takes the length of its answer
from the buffer it received the heartbeat in, and the text from another one.
-/

namespace TcpIot

open Framework

/-- The command and the text that the server works with after it has received a message. -/
def serverText (sock : Nat) (stale : Stale 10) (stream : List UInt8) :
    Option (UInt8 × List UInt8) :=
  (Server.narrowTurn sock stale stream).map fun u => (u.cmd, u.text)

theorem serverText_frame (sock : Nat) (stale : Stale 10) (cmd dest : UInt8) {p : List UInt8}
    (rest : List UInt8) (hfit : p.length ≤ 48) :
    serverText sock stale (Client.frame (cmd, dest, p) ++ rest) =
      some (cmd, p.takeWhile (· ≠ 0)) := by
  rw [serverText, Server.narrowTurn_frame sock stale cmd dest rest hfit]
  rfl

theorem serverText_overruns (sock : Nat) (stale : Stale 10) (cmd dest : UInt8) {p : List UInt8}
    (rest : List UInt8) (hlong : 48 < p.length) (hlen : p.length < 256) :
    serverText sock stale (Client.frame (cmd, dest, p) ++ rest) = none := by
  rw [serverText, Server.narrowTurn,
    Server.receiveNarrow_overruns sock stale cmd dest rest hlong hlen]
  rfl

theorem takeWhile_take_padded {name : List UInt8} (hname : 0 ∉ name) (zeros len : Nat) :
    ((name ++ List.replicate zeros 0).take len).takeWhile (· ≠ 0) = name.take len := by
  have hall (s : List UInt8) (hs : 0 ∉ s) : ∀ c ∈ s, decide (c ≠ 0) = true := by
    intro c hc
    have hne : c ≠ 0 := fun h0 => hs (h0 ▸ hc)
    simpa using hne
  have hcut : 0 ∉ name.take len := fun h0 => hname (List.mem_of_mem_take h0)
  rw [List.take_append, List.take_replicate,
    List.takeWhile_append_of_pos (hall (name.take len) hcut), List.takeWhile_replicate]
  simp

namespace Client

/-- The `SET_CLIENT_NAME` that `main` sends: the whole array `client_name`. -/
def registration (clientName : CString 30) : List UInt8 :=
  (sendMsg 30 (clientName.chars ++ List.replicate (30 - clientName.chars.length) 0)
    CmdTypes.setClientName.code 0).flatten

/-- What the client sends when it receives the given stream into the `tempx` of the turn
before. -/
def statusReply (clientName : CString 30) (stale : Stale 10) (tempx : Buffer 50)
    (stream : List UInt8) : Option (List UInt8) :=
  (receive stale tempx stream).bind fun (msgLen, tempx, _) =>
    (listenTurn clientName msgLen tempx).bind fun (_, heard) =>
      match heard with
      | .replied calls => some calls.flatten
      | _ => none

/-- `strlen(tempx)` when a `SEND_STATUS` with this payload has arrived on top of old content, or
the size of `tempx` when it holds no zero. -/
def statusLen (payload : List UInt8) (tempx : Buffer 50) : Nat :=
  ((CmdTypes.sendStatus.code :: payload ++ tempx.bytes.drop (payload.length + 1)).takeWhile
    (· ≠ 0)).length

theorem sendMsg_flatten {msgLen : Nat} {msg : List UInt8} (h : msgLen ≤ msg.length)
    (msgType dest : UInt8) :
    (sendMsg msgLen msg msgType dest).flatten = frame (msgType, dest, msg.take msgLen) := by
  rw [frame, List.length_take_of_le h]
  simp [sendMsg]

theorem registration_text (clientName : CString 30) (sock : Nat) (stale : Stale 10)
    (rest : List UInt8) :
    serverText sock stale (registration clientName ++ rest) =
      some (CmdTypes.setClientName.code, clientName.chars) := by
  have hfits := clientName.fits
  have hsize : (clientName.chars ++
      List.replicate (30 - clientName.chars.length) (0 : UInt8)).length = 30 := by
    rw [List.length_append, List.length_replicate]
    omega
  rw [registration, sendMsg_flatten (by rw [hsize]),
    serverText_frame sock stale _ _ rest (by rw [List.length_take]; omega),
    takeWhile_take_padded clientName.noNul, List.take_of_length_le (by omega)]

/-- The answer to a `SEND_STATUS`: `statusLen` bytes of the padded name; undefined when `tempx`
holds no zero. -/
theorem statusReply_frame (clientName : CString 30) (stale : Stale 10) (tempx : Buffer 50)
    {payload : List UInt8} (rest : List UInt8) (hfit : payload.length ≤ 49) :
    statusReply clientName stale tempx
        (Server.frame (CmdTypes.sendStatus.code, payload) ++ rest) =
      if statusLen payload tempx < 50 then
        some (frame (CmdTypes.updateStatus.code, 5,
          (clientName.chars ++ List.replicate (50 - clientName.chars.length) 0).take
            (statusLen payload tempx)))
      else none := by
  obtain ⟨received, hreceive, hbytes⟩ := receive_frame stale tempx CmdTypes.sendStatus.code
    payload rest hfit
  have hcmd : received.get 0 = CmdTypes.sendStatus.code := by
    rw [Buffer.get_eq_getD, hbytes]
    rfl
  have hname := clientName.fits
  obtain ⟨tempx2, hcopy, htempx2Bytes⟩ := (Buffer.zero 50).strcpy_bytes
    (show clientName.chars.length < 50 by omega)
  rw [Buffer.zero_bytes, List.drop_replicate, ← List.replicate_succ] at htempx2Bytes
  have hzeros : 50 - (clientName.chars.length + 1) + 1 = 50 - clientName.chars.length := by omega
  rw [hzeros] at htempx2Bytes
  have hlen : statusLen payload tempx = (received.bytes.takeWhile (· ≠ 0)).length := by
    rw [statusLen, hbytes]
  simp only [statusReply, hreceive, Option.bind_some, listenTurn, hcmd, if_true, hcopy]
  rw [if_neg (by decide), hlen]
  by_cases hnul : 0 ∈ received.bytes
  · have hshort := Buffer.nul_mem_iff.mp hnul
    rw [if_pos hshort, Buffer.cstr, if_pos hnul, Option.map_some, Option.bind_some]
    dsimp only
    rw [sendMsg_flatten (by rw [tempx2.bytes_length]; omega), htempx2Bytes]
  · rw [if_neg (mt Buffer.nul_mem_iff.mpr hnul), Buffer.cstr, if_neg hnul]
    rfl

end Client

namespace Esp32

/-- What the ESP32 sends when it receives the given stream into the `tempx` of the turn before
and no `send` fails. -/
def statusReply (sd : Nat) (stale : Stale 10) (tempx : Buffer 100) (stream : List UInt8) :
    Option (List UInt8) :=
  (receive sd stale tempx stream).bind fun (msgLen, tempx, _) =>
    (readSockTurn (fun _ => true) msgLen tempx).map fun (_, calls) => calls.flatten

/-- The `SET_CLIENT_NAME` that the ESP32 sends: `strlen` bytes of its name. -/
def registration : List UInt8 :=
  (sendMsg (fun _ => true) clientName.length (clientName ++ [0]) 72 5).2.flatten

theorem sendMsg_flatten {msgLen : Nat} {msg : List UInt8} (h : msgLen ≤ msg.length)
    (msgType dest : UInt8) :
    (sendMsg (fun _ => true) msgLen msg msgType dest).2.flatten =
      Client.frame (msgType, dest, msg.take msgLen) := by
  have hbytes : sendBytes (msg.take msgLen).length (msg.take msgLen) = sendBytes msgLen msg := by
    rw [sendBytes, sendBytes, List.take_length]
  rw [← frame_eq_client, frame]
  dsimp only
  rw [sendMsg, sendMsg, hbytes, List.length_take_of_le h]

theorem receive_frame (sd : Nat) (stale : Stale 10) (tempx : Buffer 100) (cmd : UInt8)
    (payload rest : List UInt8) (hfit : payload.length ≤ 99) :
    ∃ received : Buffer 100, receive sd stale tempx (Server.frame (cmd, payload) ++ rest) =
        some ((payload.length : Int), received, rest) ∧
      received.bytes = cmd :: payload ++ tempx.bytes.drop (payload.length + 1) := by
  have hheader := Option.some.inj (@ReadsHeader.serverFrame _ (getMsg_readsHeader sd stale)
    (cmd, payload) (Nat.lt_of_le_of_lt hfit (by decide)) rest)
  have hneg : ¬ (payload.length : Int) < 0 := by omega
  obtain ⟨received, hreceived, hdrop, hbytes⟩ := @Buffer.write_take _ tempx (cmd :: payload)
    (payload.length + 1) (by simp) (Nat.succ_le_succ hfit) rest
  refine ⟨received, ?_, hbytes⟩
  simp only [receive, hheader, if_neg hneg, hreceived, hdrop, Option.map_some]

theorem statusReply_frame (sd : Nat) (stale : Stale 10) (tempx : Buffer 100)
    {payload : List UInt8} (rest : List UInt8) (hfit : payload.length ≤ 99) :
    statusReply sd stale tempx (Server.frame (CmdTypes.sendStatus.code, payload) ++ rest) =
      some (Client.frame (CmdTypes.updateStatus.code, 5, clientName)) := by
  obtain ⟨received, hreceive, hbytes⟩ := receive_frame sd stale tempx CmdTypes.sendStatus.code
    payload rest hfit
  have hcmd : received.get 0 = CmdTypes.sendStatus.code := by
    rw [Buffer.get_eq_getD, hbytes]
    rfl
  have hsplit : received.bytes = [CmdTypes.sendStatus.code] ++
      (payload ++ tempx.bytes.drop (payload.length + 1)) := hbytes
  obtain ⟨text, after, htext, -⟩ := Buffer.shiftDown_eq_some hsplit (by simp)
  obtain ⟨reply, hcopy, hreplyBytes⟩ := text.strcpy_bytes
    (show clientName.length < 100 by decide)
  have hunpack : unpack payload.length received = some text := htext
  have htake : reply.bytes.take clientName.length = clientName := by
    rw [hreplyBytes, List.take_left]
  simp only [statusReply, hreceive, Option.bind_some, readSockTurn, hunpack, hcmd, if_true,
    hcopy, Option.map_some]
  rw [sendMsg_flatten (by rw [reply.bytes_length]; decide), htake]

theorem registration_text (sock : Nat) (stale : Stale 10) (rest : List UInt8) :
    serverText sock stale (registration ++ rest) =
      some (CmdTypes.setClientName.code, clientName) := by
  rw [registration, sendMsg_flatten (by decide)]
  exact serverText_frame sock stale _ _ rest (by decide)

end Esp32

/-- Server-side, the answer carries the name that the registration carried. -/
def AnswersByName (registration : List UInt8) (reply : Option (List UInt8)) (name : List UInt8) :
    Prop :=
  ∀ sock stale rest, serverText sock stale (registration ++ rest) =
      some (CmdTypes.setClientName.code, name) ∧
    ∃ bytes, reply = some bytes ∧ serverText sock stale (bytes ++ rest) =
      some (CmdTypes.updateStatus.code, name)

/-- For every name, every payload of a `SEND_STATUS` that fits and every old content of the
receive buffers: the Linux client answers by its name iff `strlen(tempx)` covers the name and
fits the server's buffer, and the ESP32 always does. -/
theorem answersByName_iff (clientName : CString 30) (stale stale' : Stale 10) (sd : Nat)
    (tempx : Buffer 50) (tempx' : Buffer 100) (payload rest : List UInt8)
    (hfit : payload.length ≤ 49) :
    (AnswersByName (Client.registration clientName)
        (Client.statusReply clientName stale tempx
          (Server.frame (CmdTypes.sendStatus.code, payload) ++ rest)) clientName.chars ↔
      clientName.chars.length ≤ Client.statusLen payload tempx ∧
        Client.statusLen payload tempx ≤ 48) ∧
    AnswersByName Esp32.registration
      (Esp32.statusReply sd stale' tempx'
        (Server.frame (CmdTypes.sendStatus.code, payload) ++ rest)) Esp32.clientName := by
  constructor
  · rw [Client.statusReply_frame clientName stale tempx rest hfit]
    have hname := clientName.fits
    set len := Client.statusLen payload tempx with hlen
    set padded := clientName.chars ++ List.replicate (50 - clientName.chars.length) (0 : UInt8)
      with hpadded
    have hsize : padded.length = 50 := by
      rw [hpadded, List.length_append, List.length_replicate]
      omega
    by_cases hlast : len < 50
    · have hcut : (padded.take len).length = len := List.length_take_of_le (by omega)
      rw [if_pos hlast]
      by_cases hserver : len ≤ 48
      · constructor
        · intro h
          obtain ⟨-, bytes, hbytes, htext⟩ := h 0 stale rest
          cases hbytes
          rw [serverText_frame 0 stale _ _ rest (by rw [hcut]; exact hserver),
            takeWhile_take_padded clientName.noNul] at htext
          have hwhole : clientName.chars.take len = clientName.chars :=
            congrArg Prod.snd (Option.some.inj htext)
          exact ⟨List.take_eq_self_iff _ |>.mp hwhole, hserver⟩
        · intro h sock stale rest'
          refine ⟨Client.registration_text clientName sock stale rest', _, rfl, ?_⟩
          rw [serverText_frame sock stale _ _ rest' (by rw [hcut]; exact hserver),
            takeWhile_take_padded clientName.noNul, List.take_of_length_le h.1]
      · refine iff_of_false (fun h => ?_) fun h => hserver h.2
        obtain ⟨-, bytes, hbytes, htext⟩ := h 0 stale rest
        cases hbytes
        rw [serverText_overruns 0 stale _ _ rest (by rw [hcut]; omega) (by rw [hcut]; omega)]
          at htext
        cases htext
    · rw [if_neg hlast]
      refine iff_of_false (fun h => ?_) fun h => hlast (by omega)
      obtain ⟨-, bytes, hbytes, -⟩ := h 0 stale rest
      cases hbytes
  · intro sock stale rest'
    refine ⟨Esp32.registration_text sock stale rest', _,
      Esp32.statusReply_frame sd stale' tempx' rest (by omega), ?_⟩
    exact serverText_frame sock stale _ _ rest' (by decide)

/-- The name `154`, and the text that the timer sends. -/
theorem answersByName_iff_timer :
    (AnswersByName (Client.registration ⟨[49, 53, 52], by decide, by decide⟩)
        (Client.statusReply ⟨[49, 53, 52], by decide, by decide⟩ ⟨Buffer.zero 10, 0, 0⟩
          (Buffer.zero 50) (Server.frame (58, Server.ascii "timer ") ++ [])) [49, 53, 52] ↔
      3 ≤ Client.statusLen (Server.ascii "timer ") (Buffer.zero 50) ∧
        Client.statusLen (Server.ascii "timer ") (Buffer.zero 50) ≤ 48) ∧
    AnswersByName Esp32.registration
      (Esp32.statusReply 4 ⟨Buffer.zero 10, 0, 0⟩ (Buffer.zero 100)
        (Server.frame (58, Server.ascii "timer ") ++ [])) Esp32.clientName :=
  answersByName_iff ⟨[49, 53, 52], by decide, by decide⟩ _ _ 4 _ _ _ [] (by decide)

def cabinClient : CString 30 := ⟨Server.ascii "Cabin Client", by decide, by decide⟩

/-- The command byte and `timer ` make seven bytes, and so does the answer. -/
theorem answer_cut_to_heartbeat :
    ¬ AnswersByName (Client.registration cabinClient)
      (Client.statusReply cabinClient ⟨Buffer.zero 10, 0, 0⟩ (Buffer.zero 50)
        (Server.frame (58, Server.ascii "timer ") ++ [])) cabinClient.chars := by
  intro h
  obtain ⟨-, bytes, hbytes, htext⟩ := h 4 ⟨Buffer.zero 10, 0, 0⟩ []
  have hcut : (Client.statusReply cabinClient ⟨Buffer.zero 10, 0, 0⟩ (Buffer.zero 50)
      (Server.frame (58, Server.ascii "timer ") ++ [])).bind
        (fun b => serverText 4 ⟨Buffer.zero 10, 0, 0⟩ (b ++ [])) =
      some (62, Server.ascii "Cabin C") := by decide
  rw [hbytes, Option.bind_some, htext] at hcut
  exact absurd hcut (by decide)

end TcpIot
