import TcpIot.Server.Table
import TcpIot.Wire.Frames

/-!
# Receiving a message in the server

The first half of a turn of `listen_thread`: the body of a message is received into `tempx`
and unpacked there. Frames of the Windows client carry every character as two bytes. The
accesses to the message buffers are listed beside the functions that make them.
-/

namespace TcpIot.Server

open Framework

def narrowAccesses (msgLen : Int) : List Access := Buffer.shiftDownAccesses 50 2 msgLen

/-- `memmove(tempx,tempx+2,msg_len); tempx[msg_len] = 0;` -/
def unpackNarrow (msgLen : Int) (tempx : Buffer 50) : Option (Buffer 50) :=
  tempx.shiftDown 2 msgLen

theorem unpackNarrow_isSome (msgLen : Int) (tempx : Buffer 50) :
    (unpackNarrow msgLen tempx).isSome ↔ ∀ a ∈ narrowAccesses msgLen, a.InBounds :=
  tempx.shiftDown_isSome 2 msgLen

/-- Turns of `for(j = 4;j < msg_len+4;j+=2)`. -/
def wideCount (msgLen : Int) : Nat := ((msgLen + 1) / 2).toNat

/-- `msg_len /= 2; msg_len -= 3;` -/
def wideLen (msgLen : Int) : Int := msgLen.tdiv 2 - 3

def wideAccesses (msgLen : Int) : List Access :=
  ((List.range (wideCount msgLen)).flatMap fun k => [⟨50, 4 + 2 * k, 1⟩, ⟨50, k, 1⟩]) ++
    [⟨50, 0, wideLen msgLen⟩, ⟨50, 0, wideLen msgLen⟩]

/-- `tempx2[k++] = tempx[j]` for `j = 4 + 2*k`. -/
def takeChar (tempx tempx2 : Buffer 50) (k : Nat) : Option (Buffer 50) :=
  (tempx.read (4 + 2 * k) 1).bind (tempx2.write k)

/-- The Windows branch: collect every second byte in `tempx2` and move it to the front. -/
def unpackWide (msgLen : Int) (tempx : Buffer 50) : Option (Buffer 50) :=
  ((List.range (wideCount msgLen)).foldlM (takeChar tempx) (Buffer.zero 50)).bind fun tempx2 =>
    tempx.memmove 0 tempx2 0 (wideLen msgLen)

private theorem takeChar_isSome (tempx tempx2 : Buffer 50) (k : Nat) :
    (takeChar tempx tempx2 k).isSome ↔
      Access.InBounds ⟨50, 4 + 2 * k, 1⟩ ∧ Access.InBounds ⟨50, k, 1⟩ := by
  rw [← Buffer.read_isSome (b := tempx)]
  unfold takeChar
  cases hread : tempx.read (4 + 2 * k) 1 with
  | none => simp
  | some c =>
    rw [Option.bind_some, Buffer.write_isSome, Buffer.read_length hread]
    simp

private theorem takeChars_isSome (tempx tempx2 : Buffer 50) (ks : List Nat) :
    (ks.foldlM (takeChar tempx) tempx2).isSome ↔
      ∀ k ∈ ks, Access.InBounds ⟨50, 4 + 2 * k, 1⟩ ∧ Access.InBounds ⟨50, k, 1⟩ := by
  induction ks generalizing tempx2 with
  | nil => simp
  | cons k ks ih =>
    rw [List.foldlM_cons, List.forall_mem_cons, ← takeChar_isSome tempx tempx2 k]
    cases hk : takeChar tempx tempx2 k with
    | none => simp
    | some next => simpa using ih next

theorem unpackWide_isSome (msgLen : Int) (tempx : Buffer 50) :
    (unpackWide msgLen tempx).isSome ↔ ∀ a ∈ wideAccesses msgLen, a.InBounds := by
  have hlist : (∀ a ∈ wideAccesses msgLen, a.InBounds) ↔
      (∀ k ∈ List.range (wideCount msgLen),
        Access.InBounds ⟨50, 4 + 2 * k, 1⟩ ∧ Access.InBounds ⟨50, k, 1⟩) ∧
      Access.InBounds ⟨50, 0, wideLen msgLen⟩ := by
    simp only [wideAccesses, List.forall_mem_append, List.forall_mem_flatMap,
      List.forall_mem_cons, List.not_mem_nil, false_implies, implies_true, and_true, and_self]
  rw [hlist, ← takeChars_isSome tempx (Buffer.zero 50)]
  unfold unpackWide
  cases (List.range (wideCount msgLen)).foldlM (takeChar tempx) (Buffer.zero 50) with
  | none => simp
  | some tempx2 => simp [Buffer.memmove_isSome]

/-- The result of the reads of one turn: the length from the header, `tempx`, the number of
body bytes that arrived, and the rest of the stream. -/
structure Received where
  msgLen : Int
  tempx : Buffer 50
  got : Nat
  rest : List UInt8

/-- `recv_tcp(sock, &tempx[0], count, 1)` into the zeroed `tempx`; undefined when more than 50
bytes arrive. A negative `count` is converted to an unsigned size and takes all there is. -/
def recvBody (msgLen count : Int) (stream : List UInt8) : Option Received :=
  let n := if count < 0 then stream.length else count.toNat
  ((Buffer.zero 50).write 0 (stream.take n)).map fun tempx =>
    ⟨msgLen, tempx, (stream.take n).length, stream.drop n⟩

def receiveNarrow (sd : Int) (stale : Stale 10) (stream : List UInt8) : Option Received :=
  let header := getMsg sd stale stream
  if header.1 ≥ 0 then recvBody header.1 (header.1 + 2) header.2
  else some ⟨header.1, Buffer.zero 50, 0, header.2⟩

/-- The reads of a turn for the Windows client: the header comes from the descriptor `sock` the
thread was started with, the body from the descriptor `fd` in the slot. `streams` is what every
descriptor still delivers. -/
def receiveWide (sock fd : Int) (stale : Stale 20) (streams : Int → List UInt8) :
    Option (Received × (Int → List UInt8)) :=
  let header := getMsgb stale (streams sock)
  let streams := Function.update streams sock header.2
  (recvBody header.1 header.1 (streams fd)).map fun r => (r, Function.update streams fd r.rest)

theorem recvBody_eq_some {msgLen count : Int} {stream : List UInt8} {r : Received}
    (hcount : 0 ≤ count) :
    recvBody msgLen count stream = some r ↔
      (stream.take count.toNat).length ≤ 50 ∧ r.msgLen = msgLen ∧
      r.tempx.bytes = stream.take count.toNat ++
        List.replicate (50 - (stream.take count.toNat).length) 0 ∧
      r.got = (stream.take count.toNat).length ∧ r.rest = stream.drop count.toNat := by
  have hneg : ¬ count < 0 := by omega
  simp only [recvBody, hneg, if_false]
  by_cases hfit : (stream.take count.toNat).length ≤ 50
  · obtain ⟨c, hc, hbytes⟩ := Buffer.write_zero (b := Buffer.zero 50) hfit
    rw [Buffer.zero_bytes, List.drop_replicate] at hbytes
    rw [hc, Option.map_some, Option.some.injEq]
    constructor
    · rintro rfl
      exact ⟨hfit, rfl, hbytes, rfl, rfl⟩
    · rintro ⟨-, hlen, hb, hgot, hrest⟩
      cases r
      simp only at hlen hb hgot hrest
      rw [hlen, hgot, hrest, Buffer.ext (hbytes.trans hb.symm)]
  · have hnone : (Buffer.zero 50).write 0 (stream.take count.toNat) = none := by
      rw [← Option.not_isSome_iff_eq_none, Buffer.write_isSome, Access.inBounds_mk]
      omega
    rw [hnone]
    simp only [Option.map_none, reduceCtorEq, false_iff]
    exact fun h => hfit h.1

theorem recvBody_arrived (msgLen : Int) {count : Int} (stream : List UInt8) (hcount : 0 ≤ count)
    (hlen : (stream.take count.toNat).length ≤ 50) :
    ∃ r, recvBody msgLen count stream = some r ∧ r.msgLen = msgLen ∧
      r.got = (stream.take count.toNat).length ∧ r.rest = stream.drop count.toNat ∧
      r.tempx.get 0 = (stream.take count.toNat).headD 0 := by
  obtain ⟨tempx, -, hbytes⟩ := @Buffer.write_zero _ (Buffer.zero 50) (stream.take count.toNat) hlen
  rw [Buffer.zero_bytes, List.drop_replicate] at hbytes
  refine ⟨⟨msgLen, tempx, (stream.take count.toNat).length, stream.drop count.toNat⟩,
    (recvBody_eq_some hcount).mpr ⟨hlen, rfl, hbytes, rfl, rfl⟩, rfl, rfl, rfl, ?_⟩
  rw [Buffer.get_eq_getD]
  dsimp only
  rw [hbytes]
  cases stream.take count.toNat <;> rfl

theorem recvBody_fits (msgLen : Int) {count : Int} (stream : List UInt8) (hcount : 0 ≤ count)
    (hfit : count ≤ 50) :
    ∃ r, recvBody msgLen count stream = some r ∧ r.msgLen = msgLen ∧
      r.got = (stream.take count.toNat).length ∧ r.rest = stream.drop count.toNat ∧
      r.tempx.get 0 = (stream.take count.toNat).headD 0 :=
  recvBody_arrived msgLen stream hcount (by rw [List.length_take]; omega)

theorem recvBody_isSome (msgLen : Int) {count : Int} (stream : List UInt8)
    (h : Access.InBounds ⟨50, 0, count⟩) : (recvBody msgLen count stream).isSome := by
  rw [Access.inBounds_mk] at h
  obtain ⟨r, hr, -⟩ := recvBody_fits msgLen stream h.2.1 (by omega)
  rw [hr]
  rfl

theorem recvBody_overruns (msgLen : Int) {count : Int} {stream : List UInt8} (hcount : 0 ≤ count)
    (hlen : 50 < (stream.take count.toNat).length) : recvBody msgLen count stream = none := by
  rw [Option.eq_none_iff_forall_ne_some]
  intro r hr
  have hshort := ((recvBody_eq_some hcount).mp hr).1
  omega

theorem receiveNarrow_of_accepted {sd : Int} {stale : Stale 10} {stream : List UInt8}
    (h : HeaderAccepted sd stale stream) :
    receiveNarrow sd stale stream =
      recvBody (announcedLen stale stream) (announcedLen stale stream + 2) (stream.drop 10) := by
  have hget : getMsg sd stale stream = _ := checkedGetMsg_of_accepted h (-1)
  rw [receiveNarrow, hget]
  exact if_pos (Int.natCast_nonneg _)

theorem receiveNarrow_of_rejected {sd : Int} {stale : Stale 10} {stream : List UInt8}
    (h : ¬ HeaderAccepted sd stale stream) :
    receiveNarrow sd stale stream =
      some ⟨(getMsg sd stale stream).1, Buffer.zero 50, 0, (getMsg sd stale stream).2⟩ := by
  have hneg : (getMsg sd stale stream).1 < 0 := checkedGetMsg_of_rejected h (by decide)
  exact if_neg (not_le.mpr hneg)

theorem getMsg_frame (sd : Nat) (stale : Stale 10) (cmd dest : UInt8) (payload rest : List UInt8)
    (hlen : payload.length < 256) :
    getMsg sd stale (Client.frame (cmd, dest, payload) ++ rest) =
      ((payload.length : Int), cmd :: dest :: payload ++ rest) :=
  Option.some.inj (@ReadsHeader.clientFrame _ (getMsg_readsHeader sd stale) (cmd, dest, payload)
    hlen rest)

theorem receiveNarrow_overruns (sd : Nat) (stale : Stale 10) (cmd dest : UInt8)
    {payload : List UInt8} (rest : List UInt8) (hlong : 48 < payload.length)
    (hlen : payload.length < 256) :
    receiveNarrow sd stale (Client.frame (cmd, dest, payload) ++ rest) = none := by
  have hcount : ((payload.length : Int) + 2).toNat = payload.length + 2 := by omega
  simp only [receiveNarrow, getMsg_frame sd stale cmd dest payload rest hlen, ge_iff_le,
    Int.natCast_nonneg, if_true]
  refine recvBody_overruns _ (by omega) ?_
  rw [hcount, List.length_take, List.length_append, List.length_cons, List.length_cons]
  omega

/-- A complete frame leaves type, destination and payload at the front of the zeroed `tempx`. -/
theorem receiveNarrow_frame (sd : Nat) (stale : Stale 10) (cmd dest : UInt8)
    (payload rest : List UInt8) (hfit : payload.length ≤ 48) :
    ∃ r, receiveNarrow sd stale (Client.frame (cmd, dest, payload) ++ rest) = some r ∧
      r.msgLen = payload.length ∧ r.got = payload.length + 2 ∧ r.rest = rest ∧
      r.tempx.bytes = cmd :: dest :: payload ++ List.replicate (48 - payload.length) 0 := by
  have hheader := getMsg_frame sd stale cmd dest payload rest (by omega)
  have hcount : ((payload.length : Int) + 2).toNat = payload.length + 2 := by omega
  have hgot : ((cmd :: dest :: payload ++ rest).take (payload.length + 2)).length =
      payload.length + 2 := by simp
  obtain ⟨tempx, htempx, hdrop, hbytes⟩ := @Buffer.write_take _ (Buffer.zero 50)
    (cmd :: dest :: payload) (payload.length + 2) (by simp; omega)
    (Nat.succ_le_succ (Nat.succ_le_succ hfit)) rest
  rw [hcount] at htempx hdrop
  rw [Buffer.zero_bytes, List.drop_replicate] at hbytes
  refine ⟨⟨payload.length, tempx, payload.length + 2, rest⟩, ?_, rfl, rfl, rfl, ?_⟩
  · have hpos : ¬ (payload.length : Int) + 2 < 0 := by omega
    simp only [receiveNarrow, hheader, ge_iff_le, Int.natCast_nonneg, if_true, recvBody, hpos,
      if_false, hcount, hdrop, htempx, hgot, Option.map_some]
  · rw [hbytes]
    simp only [List.length_cons]
    congr 2
    omega

theorem unpackNarrow_eq {cmd dest : UInt8} {payload tail : List UInt8} {tempx : Buffer 50}
    (hbytes : tempx.bytes = cmd :: dest :: payload ++ tail) :
    ∃ text after, unpackNarrow payload.length tempx = some text ∧
      text.bytes = payload ++ 0 :: after := by
  have hsplit : tempx.bytes = [cmd, dest] ++ (payload ++ tail) := hbytes
  exact Buffer.shiftDown_eq_some hsplit (by simp)

end TcpIot.Server
