import TcpIot.Client.Listen
import TcpIot.Server.Routing

/-!
# A command from one client to another

The hops of a relayed command, composed: the sender's `send_msg`, the receiving half and the
dispatch of the server's `listen_thread`, the server's `send_msg`, the receiver's
`listen_thread`, the message queue, and the unpacking in `get_host_cmd_task`.
-/

namespace TcpIot

open Framework

structure HopBuffers where
  serverHeader : Stale 10
  clientHeader : Stale 10
  clientTempx : Buffer 50

/-- The descriptor the server sends the command to, and the command, the length and the text
that `get_host_cmd_task` gets there, when the thread of `sock` serves the frame in state `s`. -/
def relayHops (fixed2 : Int → Nat → List UInt8) (s : Server.State) (sock : Nat)
    (clientName : CString 30) (old : HopBuffers) (now stray : Int) (cmd dest : UInt8)
    (payload : List UInt8) : Option (Int × UInt8 × Nat × Buffer 255) :=
  (Server.receiveNarrow sock old.serverHeader
    (Client.sendMsg payload.length payload cmd dest).flatten).bind fun r =>
  (Server.listenTurn fixed2 s sock r.msgLen r.tempx now stray).bind fun served =>
  match served.2 with
  | [.sendMsg receiver msgLen msg msgType] =>
    (Client.receive old.clientHeader old.clientTempx
      (Server.sendMsg msgLen msg msgType).flatten).bind fun received =>
    (Client.listenTurn clientName received.1 received.2.1).bind fun heard =>
    match heard.2 with
    | .queued mtext => (Client.hostUnpack mtext).map fun unpacked => (receiver, unpacked)
    | _ => none
  | _ => none

/-- The command of the client in slot `k` arrives at a connected client with the destination,
as it was sent and closed by a zero byte. -/
def RelayedIntact (fixed2 : Int → Nat → List UInt8) (s : Server.State) (k : Fin maxThreads)
    (clientName : CString 30) (old : HopBuffers) (now stray : Int) (cmd dest : UInt8)
    (payload : List UInt8) : Prop :=
  ∃ b host, s.Live b ∧ (s.pthreadsList b).dest = dest.toNat ∧
    relayHops fixed2 s (s.pthreadsList k).sock.toNat clientName old now stray cmd dest payload =
      some ((s.pthreadsList b).sock, cmd, payload.length, host) ∧
    host.bytes.take (payload.length + 1) = payload ++ [0]

section Hops

variable {s : Server.State} (hs : Server.Wellformed s) {k : Fin maxThreads} (hk : s.Live k)
  {cmd dest : UInt8} (hfalls : Server.FallsThrough s cmd)

include hs

theorem found_live (hfound : Server.getDest s dest.toNat < maxThreads) :
    ∃ b : Fin maxThreads, b.val = Server.getDest s dest.toNat ∧ s.Live b ∧
      (s.pthreadsList b).dest = dest.toNat := by
  rcases Server.getDest_cases s dest.toNat hs.highest with ⟨b, hb, -, hget⟩ | ⟨-, hget⟩
  · refine ⟨b, hget.symm, ?_, hb⟩
    by_contra hdead
    have hcleared := (hs.dead b hdead).2
    omega
  · rw [hget] at hfound
    exact absurd hfound (lt_irrefl _)

include hk hfalls

/-- The server's hop: the frame goes to the slot that was found, or nowhere. -/
theorem relay_hop (hnarrow : (s.pthreadsList k).winCl ≠ 1) {b : Fin maxThreads}
    (hb : b.val = Server.getDest s dest.toNat) (fixed2 : Int → Nat → List UInt8)
    (payload : List UInt8) (now stray : Int) {tempx : Buffer 50} {tail : List UInt8}
    (hbytes : tempx.bytes = cmd :: dest :: payload ++ tail) :
    ∃ text : Buffer 50, text.bytes.take payload.length = payload ∧
      Server.listenTurn fixed2 s (s.pthreadsList k).sock payload.length tempx now stray =
        some (s, if (b.val : Int) < s.noThreads ∧ 0 < k then
          [.sendMsg (s.pthreadsList b).sock payload.length text.bytes cmd] else []) := by
  obtain ⟨text, after, htext, htextBytes⟩ := Server.unpackNarrow_eq hbytes
  have hcmd : tempx.get 0 = cmd := by rw [Buffer.get_eq_getD, hbytes]; rfl
  have hdest : tempx.get 1 = dest := by rw [Buffer.get_eq_getD, hbytes]; rfl
  have hindex : Server.lookupIndex s (s.pthreadsList k).sock = k :=
    Server.lookupIndex_eq fun j hj => hs.distinct k j hk hj
  have hnote : Server.noteWinClient s k = s := by
    rw [Server.noteWinClient, if_neg fun h => hnarrow h.1]
  have hslot : Server.slotAt b = some b := Server.slotAt_eq_some.mpr rfl
  have hpos : 0 < (s.pthreadsList k).sock := hk
  refine ⟨text, by rw [htextBytes, List.take_left], ?_⟩
  simp only [Server.listenTurn, Server.serve, hindex, hnote, hcmd, if_pos hfalls.1,
    Server.unpack, if_neg hnarrow, htext, hdest, Option.map_some, Option.bind_some]
  rw [Server.dispatch_fallsThrough hfalls]
  simp only [Server.relay, ← hb, hslot, hpos, true_and, Option.map_some, Int.toNat_natCast]
  split <;> rfl

end Hops

/-- The receiver's hops: a frame that is not the client's own business reaches
`get_host_cmd_task` as it was sent, whatever the buffers held before. -/
theorem receiver_hops (clientName : CString 30) (old : HopBuffers) (cmd : UInt8)
    {payload : List UInt8} (hlen : payload.length ≤ 48)
    (hdisconnect : cmd ≠ CmdTypes.disconnect.code) (hstatus : cmd ≠ CmdTypes.sendStatus.code) :
    ∃ received moved mtext host,
      Client.receive old.clientHeader old.clientTempx (Server.frame (cmd, payload)) =
        some ((payload.length : Int), received, []) ∧
      Client.listenTurn clientName payload.length received = some (moved, .queued mtext) ∧
      Client.hostUnpack mtext = some (cmd, payload.length, host) ∧
      host.bytes.take (payload.length + 1) = payload ++ [0] := by
  obtain ⟨received, hreceived, hreceivedBytes⟩ :=
    Client.receive_frame old.clientHeader old.clientTempx cmd payload [] (by omega)
  rw [List.append_nil] at hreceived
  obtain ⟨moved, mtext, hpack, hmtext⟩ := Client.packQueue_eq hreceivedBytes
  obtain ⟨host, hhost, hhostBytes⟩ := Client.hostUnpack_eq hmtext
    (Client.packed_len (by omega)) (by omega)
  have hcmd : received.get 0 = cmd := by rw [Buffer.get_eq_getD, hreceivedBytes]; rfl
  refine ⟨received, moved, mtext, host, hreceived, ?_, hhost, ?_⟩
  · simp only [Client.listenTurn, hcmd, if_neg hdisconnect, if_neg hstatus, hpack,
      Option.map_some]
  · rw [hhostBytes, List.take_append, List.take_of_length_le (by omega), List.take_replicate]
    congr 1
    rw [show min (payload.length + 1 - payload.length) (255 - payload.length) = 1 by omega]
    rfl

/-- In every reachable state, for every connected sender that is not the Windows client, every
command that neither end handles itself, every destination that `get_dest` finds and every
payload of at most 48 bytes, whatever the buffers held before: the command and the payload
followed by a zero byte reach `get_host_cmd_task` of a client with the destination iff the
sender is not in slot 0 and the slot that was found is below `no_threads`. -/
theorem relayedIntact_iff {fixed2 : Int → Nat → List UInt8} {stack : Buffer 100}
    {s : Server.State}
    (hreach : Reachable (Server.step fixed2) Server.Feasible (Server.init stack) s)
    {k : Fin maxThreads} (hk : s.Live k) (hnarrow : (s.pthreadsList k).winCl ≠ 1)
    {cmd dest : UInt8} (hfalls : Server.FallsThrough s cmd)
    (hclient : cmd ≠ CmdTypes.sendStatus.code)
    (hfound : Server.getDest s dest.toNat < maxThreads) {payload : List UInt8}
    (hlen : payload.length ≤ 48) (clientName : CString 30) (old : HopBuffers)
    (now stray : Int) :
    RelayedIntact fixed2 s k clientName old now stray cmd dest payload ↔
      0 < k ∧ (Server.getDest s dest.toNat : Int) < s.noThreads := by
  have hs := Server.reachable_wellformed hreach
  obtain ⟨b, hb, hlive, hdest⟩ := found_live hs hfound
  obtain ⟨r, hr, hmsgLen, -, -, htempx⟩ := Server.receiveNarrow_frame
    (s.pthreadsList k).sock.toNat old.serverHeader cmd dest payload [] hlen
  obtain ⟨text, htake, hturn⟩ :=
    relay_hop hs hk hfalls hnarrow hb fixed2 payload now stray htempx
  obtain ⟨received, moved, mtext, host, hreceived, hlisten, hhost, hhostBytes⟩ :=
    receiver_hops clientName old cmd hlen
      (fun h => hfalls.2.1 (.inr (.inr (.inr h)))) hclient
  have hframe : (Server.sendMsg payload.length text.bytes cmd).flatten =
      Server.frame (cmd, payload) := by
    simp [Server.sendMsg, Server.frame, htake]
  have hsent : (Client.sendMsg payload.length payload cmd dest).flatten =
      Client.frame (cmd, dest, payload) := rfl
  have hsock : ((s.pthreadsList k).sock.toNat : Int) = (s.pthreadsList k).sock :=
    Int.toNat_of_nonneg hk.le
  rw [List.append_nil] at hr
  rw [← hb]
  by_cases hguard : 0 < k ∧ (b.val : Int) < s.noThreads
  · refine iff_of_true ⟨b, host, hlive, hdest, ?_, hhostBytes⟩ hguard
    rw [if_pos hguard.symm] at hturn
    rw [relayHops, hsent, hr, Option.bind_some, hmsgLen, hsock, hturn, Option.bind_some]
    dsimp only
    rw [hframe, hreceived, Option.bind_some, hlisten, Option.bind_some]
    dsimp only
    rw [hhost, Option.map_some]
  · refine iff_of_false ?_ hguard
    rintro ⟨c, host', -, -, hhops, -⟩
    rw [if_neg fun h => hguard h.symm] at hturn
    rw [relayHops, hsent, hr, Option.bind_some, hmsgLen, hsock, hturn, Option.bind_some] at hhops
    cases hhops

/-- Client 146 in slot 2 sends `CABIN_SOUTH "ON"` to 154 while the receiver's `tempx` is full
of an older message. -/
theorem relayedIntact_iff_third_to_first :
    RelayedIntact (fun _ _ => Server.ascii "0.00") Server.threeConnected 2 (CString.empty 29)
        ⟨⟨Buffer.zero 10, 0, 0⟩, ⟨Buffer.zero 10, 0, 0⟩, ⟨List.replicate 50 7, rfl⟩⟩ 0 0 25 1
        [79, 78] ↔
      (0 : Fin maxThreads) < 2 ∧
        (Server.getDest Server.threeConnected (1 : UInt8).toNat : Int) <
          Server.threeConnected.noThreads :=
  @relayedIntact_iff (fun _ _ => Server.ascii "0.00") (Buffer.zero 100) _
    ⟨Server.threeClients, by decide, by decide⟩ 2 (by decide) (by decide) 25 1 (by decide)
    (by decide) (by decide) [79, 78] (by decide) _ _ 0 0

/-- Client 154 in slot 0 sends the same command to 147, whose slot is found below `no_threads`:
it reaches nobody. -/
theorem first_client_unheard :
    Reachable (Server.step fun _ _ => Server.ascii "0.00") Server.Feasible
      (Server.init (Buffer.zero 100)) Server.threeConnected ∧
    Server.threeConnected.Live 0 ∧ (Server.threeConnected.pthreadsList 0).winCl ≠ 1 ∧
    Server.FallsThrough Server.threeConnected 25 ∧
    (25 : UInt8) ≠ CmdTypes.sendStatus.code ∧
    Server.getDest Server.threeConnected (2 : UInt8).toNat = 1 ∧
    Server.threeConnected.noThreads = 3 ∧
    ¬ RelayedIntact (fun _ _ => Server.ascii "0.00") Server.threeConnected 0 (CString.empty 29)
      ⟨⟨Buffer.zero 10, 0, 0⟩, ⟨Buffer.zero 10, 0, 0⟩, Buffer.zero 50⟩ 0 0 25 2 [79, 78] := by
  have hnowhere : relayHops (fun _ _ => Server.ascii "0.00") Server.threeConnected
      (Server.threeConnected.pthreadsList 0).sock.toNat (CString.empty 29)
      ⟨⟨Buffer.zero 10, 0, 0⟩, ⟨Buffer.zero 10, 0, 0⟩, Buffer.zero 50⟩ 0 0 25 2 [79, 78] =
        none := by
    apply Option.isNone_iff_eq_none.mp
    decide
  refine ⟨⟨Server.threeClients, by decide, by decide⟩, by decide, by decide, by decide,
    by decide, by decide, by decide, ?_⟩
  rintro ⟨b, host, -, -, hhops, -⟩
  rw [hnowhere] at hhops
  cases hhops

end TcpIot
