import TcpIot.Wire.Commands
import TcpIot.Wire.Frames

/-!
# The client's receive thread

A turn of the Linux client's `listen_thread`: receive a message behind what `tempx` already
holds, then answer it or queue it for `get_host_cmd_task`, which unpacks it again. The queue
carries the length in two bytes that overlap.
-/

namespace TcpIot.Client

open Framework

/-- What a turn of `listen_thread` does with a message. -/
inductive Heard where
  | closed
  /-- `SEND_STATUS`: answer with these `send` calls. -/
  | replied (calls : List (List UInt8))
  /-- Anything else: queue `mtext` for `get_host_cmd_task`. -/
  | queued (mtext : Buffer 300)
deriving DecidableEq

/-- The reads of a turn, into the `tempx` of the turn before: the length, `tempx` and the rest of
the stream; `none` when the program exits on a bad preamble or overruns `tempx`. -/
def receive (stale : Stale 10) (tempx : Buffer 50) (stream : List UInt8) :
    Option (Int × Buffer 50 × List UInt8) :=
  (getMsg stale stream).bind fun header =>
    let count := (header.1 + 1).toNat
    (tempx.write 0 (header.2.take count)).map fun tempx =>
      (header.1, tempx, header.2.drop count)

/-- The last branch: move the payload to the front and pack `mtext`. -/
def packQueue (msgLen : Int) (tempx : Buffer 50) : Option (Buffer 50 × Buffer 300) :=
  (tempx.memmove 0 tempx 1 msgLen).bind fun moved =>
    ((Buffer.zero 300).write 0
      [tempx.get 0, UInt8.ofInt msgLen, UInt8.ofInt (msgLen >>> (4 : Nat))]).bind fun mtext =>
        (mtext.memmove 3 moved 0 msgLen).map fun mtext => (moved, mtext)

def packAccesses (msgLen : Int) : List Access :=
  [⟨50, 1, msgLen⟩, ⟨50, 0, msgLen⟩, ⟨50, 0, msgLen⟩, ⟨300, 3, msgLen⟩]

theorem packQueue_isSome (msgLen : Int) (tempx : Buffer 50) :
    (packQueue msgLen tempx).isSome ↔ ∀ a ∈ packAccesses msgLen, a.InBounds := by
  simp only [packAccesses, List.forall_mem_cons, List.not_mem_nil, false_implies,
    implies_true, and_true]
  rw [← and_assoc, ← @Buffer.memmove_isSome _ _ tempx tempx]
  unfold packQueue
  cases tempx.memmove 0 tempx 1 msgLen with
  | none => simp
  | some moved =>
    obtain ⟨head, hhead, -⟩ := @Buffer.write_zero _ (Buffer.zero 300)
      [tempx.get 0, UInt8.ofInt msgLen, UInt8.ofInt (msgLen >>> (4 : Nat))] (by simp)
    simp [hhead, Buffer.memmove_isSome]

/-- What follows the reads in a turn, for a client with the given name. -/
def listenTurn (clientName : CString 30) (msgLen : Int) (tempx : Buffer 50) :
    Option (Buffer 50 × Heard) :=
  let cmd := tempx.get 0
  if cmd = CmdTypes.disconnect.code then some (Buffer.zero 50, .closed)
  else if cmd = CmdTypes.sendStatus.code then
    ((Buffer.zero 50).strcpy clientName.chars).bind fun tempx2 =>
      tempx.cstr.map fun text =>
        (tempx, .replied (sendMsg text.length tempx2.bytes CmdTypes.updateStatus.code 5))
  else (packQueue msgLen tempx).map fun r => (r.1, .queued r.2)

/-- Lets numerals index `mtext`. -/
instance neZeroMtext : NeZero 300 := ⟨Nat.succ_ne_zero 299⟩

/-- `msg_len = mtext[1]; msg_len |= mtext[2] << 4;` -/
def hostLen (mtext : Buffer 300) : Nat := (mtext.get 1).toNat ||| ((mtext.get 2).toNat <<< 4)

/-- The unpacking at the start of a turn of `get_host_cmd_task`: the command, the length and
`tempx`. -/
def hostUnpack (mtext : Buffer 300) : Option (UInt8 × Nat × Buffer 255) :=
  ((Buffer.zero 255).memmove 0 mtext 3 (hostLen mtext)).bind fun tempx =>
    (tempx.write (hostLen mtext + 1) [0]).map fun tempx => (mtext.get 0, hostLen mtext, tempx)

theorem receive_frame (stale : Stale 10) (tempx : Buffer 50) (cmd : UInt8)
    (payload rest : List UInt8) (hfit : payload.length ≤ 49) :
    ∃ received : Buffer 50,
      receive stale tempx (Server.frame (cmd, payload) ++ rest) =
        some ((payload.length : Int), received, rest) ∧
      received.bytes = cmd :: payload ++ tempx.bytes.drop (payload.length + 1) := by
  have hheader := @ReadsHeader.serverFrame _ (getMsg_readsHeader stale) (cmd, payload)
    (Nat.lt_of_le_of_lt hfit (by decide)) rest
  obtain ⟨received, hreceived, hdrop, hbytes⟩ := @Buffer.write_take _ tempx (cmd :: payload)
    (payload.length + 1) (by simp) (Nat.succ_le_succ hfit) rest
  refine ⟨received, ?_, hbytes⟩
  simp only [receive, hheader, Option.bind_some, hreceived, hdrop, Option.map_some]

theorem packed_len {n : Nat} (hn : n < 256) :
    (UInt8.ofInt (n : Int)).toNat ||| ((UInt8.ofInt ((n : Int) >>> (4 : Nat))).toNat <<< 4) =
      n := by
  have hbyte (m : Nat) : UInt8.ofInt (m : Int) = UInt8.ofNat m := by
    apply UInt8.toNat_inj.mp
    rw [UInt8.ofInt, UInt8.toNat_ofNat', UInt8.toNat_ofNat']
    omega
  have hshift : (n : Int) >>> (4 : Nat) = ((n >>> 4 : Nat) : Int) := rfl
  have hsmall : n >>> 4 < 256 := by
    rw [Nat.shiftRight_eq_div_pow]
    exact (Nat.div_le_self _ _).trans_lt hn
  rw [hshift, hbyte, hbyte, UInt8.toNat_ofNat_of_lt' hn, UInt8.toNat_ofNat_of_lt' hsmall]
  apply Nat.eq_of_testBit_eq
  intro i
  simp only [Nat.testBit_or, Nat.testBit_shiftLeft, Nat.testBit_shiftRight]
  by_cases hi : 4 ≤ i
  · simp [hi, Nat.add_sub_cancel' hi]
  · simp [hi]

/-- Whatever lies behind the message in `tempx`, only the message is queued. -/
theorem packQueue_eq {cmd : UInt8} {payload tail : List UInt8} {tempx : Buffer 50}
    (hbytes : tempx.bytes = cmd :: payload ++ tail) :
    ∃ moved mtext, packQueue payload.length tempx = some (moved, mtext) ∧
      mtext.bytes = cmd :: UInt8.ofInt payload.length ::
        UInt8.ofInt ((payload.length : Int) >>> (4 : Nat)) :: payload ++
          List.replicate (297 - payload.length) 0 := by
  have hlen := tempx.bytes_length
  rw [hbytes] at hlen
  simp only [List.length_append, List.length_cons] at hlen
  have hget : tempx.get 0 = cmd := by rw [Buffer.get_eq_getD, hbytes]; rfl
  obtain ⟨moved, hmoved, hmovedBytes⟩ :=
    @Buffer.memmove_eq_some _ _ tempx tempx 0 1 payload.length
      (by rw [Access.inBounds_mk]; omega) (by rw [Access.inBounds_mk]; omega)
  obtain ⟨head, hhead, hheadBytes⟩ := @Buffer.write_zero _ (Buffer.zero 300)
    [cmd, UInt8.ofInt payload.length, UInt8.ofInt ((payload.length : Int) >>> (4 : Nat))] (by simp)
  obtain ⟨mtext, hmtext, hmtextBytes⟩ :=
    @Buffer.memmove_eq_some _ _ head moved 3 0 payload.length
      (by rw [Access.inBounds_mk]; omega) (by rw [Access.inBounds_mk]; omega)
  refine ⟨moved, mtext, ?_, ?_⟩
  · simp only [packQueue, hmoved, hget, hhead, hmtext, Option.bind_some, Option.map_some]
  · have hthree : Int.toNat 3 = 3 := rfl
    rw [hmtextBytes, hheadBytes, hmovedBytes, hbytes, Buffer.zero_bytes, List.drop_replicate,
      hthree, Nat.add_comm 3]
    simp only [Int.toNat_zero, Int.toNat_one, Int.toNat_natCast, List.take_zero, List.drop_zero,
      List.nil_append, List.cons_append, List.drop_succ_cons, List.take_succ_cons, List.take_left,
      List.drop_replicate, List.length_cons, List.length_nil]

theorem hostUnpack_eq {cmd low high : UInt8} {payload tail : List UInt8} {mtext : Buffer 300}
    (hbytes : mtext.bytes = cmd :: low :: high :: payload ++ tail)
    (hlen : low.toNat ||| (high.toNat <<< 4) = payload.length) (hfit : payload.length < 254) :
    ∃ tempx, hostUnpack mtext = some (cmd, payload.length, tempx) ∧
      tempx.bytes = payload ++ List.replicate (255 - payload.length) 0 := by
  have hsize := mtext.bytes_length
  rw [hbytes] at hsize
  simp only [List.length_append, List.length_cons] at hsize
  have hcmd : mtext.get 0 = cmd := by rw [Buffer.get_eq_getD, hbytes]; rfl
  have hhost : hostLen mtext = payload.length := by
    rw [hostLen, Buffer.get_eq_getD, Buffer.get_eq_getD, hbytes]
    exact hlen
  obtain ⟨copied, hcopied, hcopiedBytes⟩ :=
    @Buffer.memmove_eq_some _ _ (Buffer.zero 255) mtext 0 3 payload.length
      (by rw [Access.inBounds_mk]; omega) (by rw [Access.inBounds_mk]; omega)
  have hthree : Int.toNat 3 = 3 := rfl
  rw [hbytes, Buffer.zero_bytes, hthree] at hcopiedBytes
  simp only [Int.toNat_zero, Int.toNat_natCast, List.take_zero, List.nil_append, Nat.zero_add,
    List.cons_append, List.drop_succ_cons, List.drop_zero, List.take_left,
    List.drop_replicate] at hcopiedBytes
  have hwrite : (copied.write (payload.length + 1) [0]).isSome := by
    rw [Buffer.write_isSome, Access.inBounds_mk, List.length_singleton]
    omega
  obtain ⟨tempx, htempx⟩ := Option.isSome_iff_exists.mp hwrite
  refine ⟨tempx, ?_, ?_⟩
  · simp only [hostUnpack, hhost, hcmd, hcopied, htempx, Option.bind_some, Option.map_some]
  · have hstart : ((payload.length : Int) + 1).toNat = payload.length + 1 := by omega
    rw [Buffer.write_bytes htempx, hcopiedBytes, hstart, List.length_singleton]
    set l := payload ++ List.replicate (255 - payload.length) (0 : UInt8) with hl
    have hnul : (l.drop (payload.length + 1)).take 1 = [0] := by
      rw [hl, List.drop_append, List.drop_eq_nil_of_le (by omega), List.nil_append,
        List.drop_replicate, List.take_replicate, Nat.min_eq_left (by omega)]
      rfl
    have hsplit := List.take_append_drop 1 (l.drop (payload.length + 1))
    rw [List.drop_drop] at hsplit
    rw [← hnul, List.append_assoc, hsplit, List.take_append_drop]

end TcpIot.Client
