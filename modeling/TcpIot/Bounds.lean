import TcpIot.Client.Listen
import TcpIot.Esp32.ReadSock
import TcpIot.Framework.Run
import TcpIot.Server.Dispatch

/-!
# Bounds of the receive loops

The announced length of a message is used unchecked as the size of a `recv`, as the length of
copies and as an index. A turn of a receive loop is described by the accesses it makes to its
message buffers; they are in bounds exactly for the messages that `MessageFits` describes.
-/

namespace TcpIot

open Framework

namespace Server

/-- What a turn of `listen_thread` meets: the descriptor it was started with, the descriptor and
kind of the slot it looked up, and the old content of the locals of the two header readers. -/
structure Turn where
  sock : Int
  fd : Int
  winCl : Int
  stale : Stale 10
  staleWide : Stale 20

def receive (streams : Int → List UInt8) (t : Turn) :
    Option (Received × (Int → List UInt8)) :=
  if t.winCl = 1 then receiveWide t.sock t.fd t.staleWide streams
  else (receiveNarrow t.fd t.stale (streams t.fd)).map fun r =>
    (r, Function.update streams t.fd r.rest)

/-- The range of `tempx` that the `recv` of the body may fill. -/
def recvAccesses (streams : Int → List UInt8) (t : Turn) : List Access :=
  if t.winCl = 1 then [⟨50, 0, (getMsgb t.staleWide (streams t.sock)).1⟩]
  else if (getMsg t.fd t.stale (streams t.fd)).1 ≥ 0 then
    [⟨50, 0, (getMsg t.fd t.stale (streams t.fd)).1 + 2⟩]
  else []

def unpackAccesses (winCl msgLen : Int) : List Access :=
  if winCl = 1 then wideAccesses msgLen else narrowAccesses msgLen

/-- Buffer accesses of a turn: a message with a good command byte is unpacked. -/
def turnAccesses (streams : Int → List UInt8) (t : Turn) : List Access :=
  recvAccesses streams t ++
    match receive streams t with
    | some (r, _) => if CmdInRange (r.tempx.get 0) then unpackAccesses t.winCl r.msgLen else []
    | none => []

/-- The streams that a turn leaves to the next one; `DISCONNECT_ALL` ends the thread. -/
def nextTurn (streams : Int → List UInt8) (t : Turn) : Option (Int → List UInt8) :=
  (receive streams t).bind fun (r, streams) =>
    if CmdInRange (r.tempx.get 0) then
      (unpack t.winCl r.msgLen r.tempx).bind fun _ =>
        if r.tempx.get 0 = CmdTypes.disconnectAll.code then none else some streams
    else some streams

/-- What the body of a message of the Windows client is read from, behind its header. -/
def wideBody (streams : Int → List UInt8) (t : Turn) : List UInt8 :=
  Function.update streams t.sock ((streams t.sock).drop 16) t.fd

/-- An ordinary message has at most 48 bytes. A message of the Windows client has a good header
and at most 50 bytes, and from 6 to 46 of them when its command byte is good. -/
def MessageFits (streams : Int → List UInt8) (t : Turn) : Prop :=
  if t.winCl = 1 then
    WideHeaderAccepted t.staleWide (streams t.sock) ∧
      announcedWideLen t.staleWide (streams t.sock) ≤ 50 ∧
      (CmdInRange (((wideBody streams t).take
          (announcedWideLen t.staleWide (streams t.sock))).headD 0) →
        6 ≤ announcedWideLen t.staleWide (streams t.sock) ∧
          announcedWideLen t.staleWide (streams t.sock) ≤ 46)
  else HeaderAccepted t.fd t.stale (streams t.fd) → announcedLen t.stale (streams t.fd) ≤ 48

instance (streams : Int → List UInt8) (t : Turn) : Decidable (MessageFits streams t) :=
  inferInstanceAs (Decidable (if t.winCl = 1 then _ ∧ _ ∧ (_ → _) else _ → _))

theorem unpack_isSome (winCl msgLen : Int) (tempx : Buffer 50) :
    (unpack winCl msgLen tempx).isSome ↔ ∀ a ∈ unpackAccesses winCl msgLen, a.InBounds := by
  unfold unpack unpackAccesses
  split
  · rw [Option.isSome_map, unpackWide_isSome]
  · rw [Option.isSome_map, unpackNarrow_isSome]

theorem wideAccesses_inBounds {n : Nat} :
    (∀ a ∈ wideAccesses n, a.InBounds) ↔ 6 ≤ n ∧ n ≤ 46 := by
  have hlen : wideLen n = (n / 2 : Nat) - 3 := by
    rw [wideLen]
    rfl
  have hcount : wideCount n = (n + 1) / 2 := by
    rw [wideCount]
    omega
  simp only [wideAccesses, List.forall_mem_append, List.forall_mem_flatMap,
    List.forall_mem_cons, List.not_mem_nil, false_implies, implies_true, and_true, and_self,
    Access.inBounds_mk, hlen, hcount, List.mem_range]
  constructor
  · rintro ⟨hchars, hmove⟩
    have hlow : 6 ≤ n := by omega
    have hlast := (hchars ((n + 1) / 2 - 1) (by omega)).1
    omega
  · rintro ⟨hlow, hhigh⟩
    refine ⟨fun k hk => ?_, ?_⟩
    · omega
    · omega

private theorem turnAccesses_wide_iff {streams : Int → List UInt8} {t : Turn}
    (hwide : t.winCl = 1) :
    (∀ a ∈ turnAccesses streams t, a.InBounds) ↔ MessageFits streams t := by
  simp only [turnAccesses, recvAccesses, receive, MessageFits, unpackAccesses, if_pos hwide,
    List.forall_mem_append, List.forall_mem_singleton, receiveWide]
  by_cases haccepted : WideHeaderAccepted t.staleWide (streams t.sock)
  · have hbody : Function.update streams t.sock ((streams t.sock).drop 16) t.fd =
        wideBody streams t := rfl
    simp only [getMsgb_of_accepted haccepted, haccepted, true_and, Access.inBounds_mk, hbody]
    generalize announcedWideLen t.staleWide (streams t.sock) = n
    by_cases hfit : n ≤ 50
    · obtain ⟨r, hr, hmsgLen, -, -, hcmd⟩ :=
        recvBody_fits (n : Int) (wideBody streams t) (Int.natCast_nonneg n) (by omega)
      rw [Int.toNat_natCast] at hcmd
      simp only [hr, Option.map_some, hmsgLen, hcmd]
      by_cases hrange : CmdInRange (((wideBody streams t).take n).headD 0)
      · rw [if_pos hrange, wideAccesses_inBounds]
        simp only [hrange, true_implies]
        omega
      · rw [if_neg hrange]
        simp only [hrange, List.not_mem_nil, false_implies, implies_true, and_true]
        omega
    · constructor
      · intro h
        omega
      · intro h
        exact absurd h.1 hfit
  · simp only [getMsgb_of_rejected haccepted, haccepted, false_and, iff_false, Access.inBounds_mk]
    intro h
    omega

private theorem turnAccesses_narrow_iff {streams : Int → List UInt8} {t : Turn}
    (hnarrow : t.winCl ≠ 1) :
    (∀ a ∈ turnAccesses streams t, a.InBounds) ↔ MessageFits streams t := by
  simp only [turnAccesses, recvAccesses, receive, MessageFits, unpackAccesses, if_neg hnarrow,
    List.forall_mem_append]
  by_cases haccepted : HeaderAccepted t.fd t.stale (streams t.fd)
  · have hget : getMsg t.fd t.stale (streams t.fd) = _ := checkedGetMsg_of_accepted haccepted (-1)
    simp only [hget, receiveNarrow_of_accepted haccepted, haccepted, true_implies, ge_iff_le,
      Int.natCast_nonneg, if_true, List.forall_mem_singleton, Access.inBounds_mk]
    generalize announcedLen t.stale (streams t.fd) = n
    by_cases hfit : n ≤ 48
    · obtain ⟨r, hr, hmsgLen, -, -, -⟩ :=
        @recvBody_fits (n : Int) (n + 2) ((streams t.fd).drop 10) (by omega) (by omega)
      simp only [hr, Option.map_some, hmsgLen, hfit, iff_true]
      refine ⟨by omega, ?_⟩
      split
      · exact Buffer.shiftDownAccesses_inBounds (by decide) (Int.natCast_nonneg n) (by omega)
      · simp
    · simp only [hfit, iff_false]
      intro h
      omega
  · have hneg : ¬ (getMsg t.fd t.stale (streams t.fd)).1 ≥ 0 := by
      have h := @checkedGetMsg_of_rejected _ _ _ haccepted (-1) (by decide)
      exact not_le.mpr h
    have hcmd : ¬ CmdInRange ((Buffer.zero 50).get 0) := by decide
    simp only [if_neg hneg, receiveNarrow_of_rejected haccepted, Option.map_some, haccepted,
      if_neg hcmd]
    simp

theorem turnAccesses_iff (streams : Int → List UInt8) (t : Turn) :
    (∀ a ∈ turnAccesses streams t, a.InBounds) ↔ MessageFits streams t := by
  by_cases hwide : t.winCl = 1
  · exact turnAccesses_wide_iff hwide
  · exact turnAccesses_narrow_iff hwide

/-- The message is received, and unpacked when its command byte is good. -/
def TurnDefined (streams : Int → List UInt8) (t : Turn) : Prop :=
  ∃ r next, receive streams t = some (r, next) ∧
    (CmdInRange (r.tempx.get 0) → (unpack t.winCl r.msgLen r.tempx).isSome)

/-- The listed accesses are all there are: with them in bounds no copy of the turn fails. -/
theorem turn_defined {streams : Int → List UInt8} {t : Turn}
    (h : ∀ a ∈ turnAccesses streams t, a.InBounds) : TurnDefined streams t := by
  have hrecv : ∀ a ∈ recvAccesses streams t, a.InBounds :=
    fun a ha => h a (List.mem_append_left _ ha)
  have hsome : (receive streams t).isSome := by
    unfold recvAccesses at hrecv
    unfold receive
    by_cases hwide : t.winCl = 1
    · rw [if_pos hwide, List.forall_mem_singleton] at hrecv
      rw [if_pos hwide, receiveWide, Option.isSome_map]
      exact recvBody_isSome _ _ hrecv
    · rw [if_neg hwide] at hrecv
      rw [if_neg hwide, Option.isSome_map, receiveNarrow]
      by_cases hpos : (getMsg t.fd t.stale (streams t.fd)).1 ≥ 0
      · rw [if_pos hpos, List.forall_mem_singleton] at hrecv
        simp only [if_pos hpos]
        exact recvBody_isSome _ _ hrecv
      · simp only [if_neg hpos]
        rfl
  obtain ⟨⟨r, next⟩, hr⟩ := Option.isSome_iff_exists.mp hsome
  refine ⟨r, next, hr, fun hrange => ?_⟩
  rw [unpack_isSome]
  intro a ha
  apply h
  simp only [turnAccesses, hr, if_pos hrange]
  exact List.mem_append_right _ ha

end Server

namespace Client

/-- Buffer accesses of a turn, given what `tempx` holds before it: the `recv` of the body, then
the `strlen` of `SEND_STATUS` or the packing of a message that is queued. -/
def turnAccesses (s : Buffer 50 × List UInt8) (stale : Stale 10) : List Access :=
  match getMsg stale s.2 with
  | none => []
  | some header =>
    ⟨50, 0, header.1 + 1⟩ ::
      match receive stale s.1 s.2 with
      | some (msgLen, tempx, _) =>
        if tempx.get 0 = CmdTypes.disconnect.code then []
        else if tempx.get 0 = CmdTypes.sendStatus.code then [tempx.strlenAccess]
        else packAccesses msgLen
      | none => []

/-- The `tempx` and the stream that a turn leaves to the next one; `DISCONNECT` ends the
thread. -/
def nextTurn (clientName : CString 30) (s : Buffer 50 × List UInt8) (stale : Stale 10) :
    Option (Buffer 50 × List UInt8) :=
  (receive stale s.1 s.2).bind fun (msgLen, tempx, rest) =>
    (listenTurn clientName msgLen tempx).bind fun (tempx, heard) =>
      if heard = .closed then none else some (tempx, rest)

/-- The received body, and behind it the old content of `tempx`. -/
def bodyBytes (s : Buffer 50 × List UInt8) (stale : Stale 10) : List UInt8 :=
  let body := (s.2.drop 10).take (announcedLen stale s.2 + 1)
  body ++ s.1.bytes.drop body.length

/-- A message behind a good preamble has at most 49 bytes, and a `SEND_STATUS` has a NUL within
reach. -/
def MessageFits (s : Buffer 50 × List UInt8) (stale : Stale 10) : Prop :=
  preambleBytes stale s.2 8 = prePreamble →
    announcedLen stale s.2 ≤ 49 ∧
      ((bodyBytes s stale).getD 0 0 = CmdTypes.sendStatus.code → 0 ∈ bodyBytes s stale)

instance (s : Buffer 50 × List UInt8) (stale : Stale 10) : Decidable (MessageFits s stale) :=
  inferInstanceAs (Decidable (_ → _ ∧ (_ → _)))

theorem packAccesses_inBounds {n : Nat} (hfit : n ≤ 49) :
    ∀ a ∈ packAccesses n, a.InBounds := by
  simp only [packAccesses, List.forall_mem_cons, List.not_mem_nil, false_implies, implies_true,
    and_true, Access.inBounds_mk]
  omega

theorem receive_fits {s : Buffer 50 × List UInt8} {stale : Stale 10}
    (hpre : preambleBytes stale s.2 8 = prePreamble) (hfit : announcedLen stale s.2 ≤ 49) :
    ∃ tempx rest, receive stale s.1 s.2 = some ((announcedLen stale s.2 : Int), tempx, rest) ∧
      tempx.bytes = bodyBytes s stale := by
  have hcount : ((announcedLen stale s.2 : Int) + 1).toNat = announcedLen stale s.2 + 1 := by
    omega
  obtain ⟨tempx, htempx, hbytes⟩ := @Buffer.write_zero _ s.1
    ((s.2.drop 10).take (announcedLen stale s.2 + 1)) (by rw [List.length_take]; omega)
  refine ⟨tempx, (s.2.drop 10).drop (announcedLen stale s.2 + 1), ?_, hbytes⟩
  simp only [receive, getMsg_of_accepted hpre, Option.bind_some, hcount, htempx, Option.map_some]

theorem turnAccesses_iff (s : Buffer 50 × List UInt8) (stale : Stale 10) :
    (∀ a ∈ turnAccesses s stale, a.InBounds) ↔ MessageFits s stale := by
  unfold turnAccesses MessageFits
  by_cases hpre : preambleBytes stale s.2 8 = prePreamble
  · simp only [getMsg_of_accepted hpre, hpre, true_implies, List.forall_mem_cons,
      Access.inBounds_mk]
    by_cases hfit : announcedLen stale s.2 ≤ 49
    · obtain ⟨tempx, rest, hreceive, hbytes⟩ := receive_fits hpre hfit
      simp only [hreceive, hfit, true_and, Buffer.get_eq_getD, hbytes, Fin.coe_ofNat_eq_mod,
        Nat.zero_mod]
      have hrecv : (0 : Int) ≤ 0 ∧ (0 : Int) ≤ announcedLen stale s.2 + 1 ∧
          (0 : Int) + (announcedLen stale s.2 + 1) ≤ (50 : Nat) := by omega
      rw [and_iff_right hrecv]
      by_cases hclose : (bodyBytes s stale).getD 0 0 = CmdTypes.disconnect.code
      · have hother : (bodyBytes s stale).getD 0 0 ≠ CmdTypes.sendStatus.code := by
          rw [hclose]
          decide
        rw [if_pos hclose]
        simp only [hother, false_implies, iff_true]
        simp
      · rw [if_neg hclose]
        by_cases hstatus : (bodyBytes s stale).getD 0 0 = CmdTypes.sendStatus.code
        · rw [if_pos hstatus, List.forall_mem_singleton, Buffer.strlenAccess_inBounds, hbytes]
          simp only [hstatus, true_implies]
        · rw [if_neg hstatus]
          simp only [hstatus, false_implies, iff_true]
          exact packAccesses_inBounds hfit
    · constructor
      · intro h
        omega
      · intro h
        exact absurd h.1 hfit
  · simp only [getMsg_of_rejected hpre, hpre, false_implies, iff_true]
    simp

/-- A message behind a good preamble is received, and answered or packed. -/
def TurnDefined (clientName : CString 30) (s : Buffer 50 × List UInt8) (stale : Stale 10) : Prop :=
  preambleBytes stale s.2 8 = prePreamble →
    ∃ msgLen tempx rest, receive stale s.1 s.2 = some (msgLen, tempx, rest) ∧
      (listenTurn clientName msgLen tempx).isSome

theorem turn_defined {s : Buffer 50 × List UInt8} {stale : Stale 10} (clientName : CString 30)
    (h : ∀ a ∈ turnAccesses s stale, a.InBounds) : TurnDefined clientName s stale := by
  intro hpre
  obtain ⟨hfit, hnul⟩ := (turnAccesses_iff s stale).mp h hpre
  obtain ⟨tempx, rest, hreceive, hbytes⟩ := receive_fits hpre hfit
  refine ⟨_, tempx, rest, hreceive, ?_⟩
  unfold listenTurn
  by_cases hclose : tempx.get 0 = CmdTypes.disconnect.code
  · simp only [if_pos hclose]
    rfl
  · by_cases hstatus : tempx.get 0 = CmdTypes.sendStatus.code
    · simp only [if_neg hclose, if_pos hstatus]
      have hname := @Buffer.strcpy_isSome 50 (Buffer.zero 50) clientName.chars
        (clientName.fits.trans (by decide))
      obtain ⟨tempx2, htempx2⟩ := Option.isSome_iff_exists.mp hname
      have hhead : (bodyBytes s stale).getD 0 0 = CmdTypes.sendStatus.code := by
        rw [← hbytes, ← hstatus, Buffer.get_eq_getD]
        rfl
      rw [htempx2, Option.bind_some, Option.isSome_map, Buffer.cstr_isSome, hbytes]
      exact hnul hhead
    · simp only [if_neg hclose, if_neg hstatus]
      rw [Option.isSome_map, packQueue_isSome]
      exact packAccesses_inBounds hfit

end Client

namespace Esp32

/-- Buffer accesses of a turn, given what `tempx` holds before it: the `recv` of the body and the
unpacking. -/
def turnAccesses (sock : Int) (s : Buffer 100 × List UInt8) (stale : Stale 10) : List Access :=
  if (getMsg sock stale s.2).1 < 0 then []
  else
    ⟨100, 0, (getMsg sock stale s.2).1 + 1⟩ ::
      match receive sock stale s.1 s.2 with
      | some (msgLen, _, _) => unpackAccesses msgLen
      | none => []

/-- The `tempx` and the stream that a turn leaves to the next one, whichever `send` calls of its
answer fail. -/
def nextTurn (sock : Int) (s : Buffer 100 × List UInt8) (t : Stale 10 × (Nat → Bool)) :
    Option (Buffer 100 × List UInt8) :=
  (receive sock t.1 s.1 s.2).bind fun (msgLen, tempx, rest) =>
    (readSockTurn t.2 msgLen tempx).map fun (tempx, _) => (tempx, rest)

/-- A message behind a good header has at most 99 bytes. -/
def MessageFits (sock : Int) (s : Buffer 100 × List UInt8) (stale : Stale 10) : Prop :=
  HeaderAccepted sock stale s.2 → announcedLen stale s.2 ≤ 99

instance (sock : Int) (s : Buffer 100 × List UInt8) (stale : Stale 10) :
    Decidable (MessageFits sock s stale) := inferInstanceAs (Decidable (_ → _))

theorem turnAccesses_iff (sock : Int) (s : Buffer 100 × List UInt8) (stale : Stale 10) :
    (∀ a ∈ turnAccesses sock s stale, a.InBounds) ↔ MessageFits sock s stale := by
  unfold turnAccesses MessageFits
  by_cases haccepted : HeaderAccepted sock stale s.2
  · have hget : getMsg sock stale s.2 = ((announcedLen stale s.2 : Int), s.2.drop 10) :=
      checkedGetMsg_of_accepted haccepted (-3)
    have hpos : ¬ (announcedLen stale s.2 : Int) < 0 := by omega
    simp only [hget, if_neg hpos, haccepted, true_implies, List.forall_mem_cons,
      Access.inBounds_mk]
    constructor
    · intro h
      omega
    · intro hfit
      refine ⟨by omega, ?_⟩
      split
      · rename_i msgLen tempx rest hreceive
        have hlen : msgLen = announcedLen stale s.2 := by
          simp only [receive, hget, if_neg hpos] at hreceive
          obtain ⟨_, -, heq⟩ := Option.map_eq_some_iff.mp hreceive
          exact (congrArg Prod.fst heq).symm
        rw [hlen]
        exact Buffer.shiftDownAccesses_inBounds (by decide) (Int.natCast_nonneg _) (by omega)
      · simp
  · have hneg : (getMsg sock stale s.2).1 < 0 :=
      @checkedGetMsg_of_rejected _ _ _ haccepted (-3) (by decide)
    simp only [if_pos hneg, haccepted, false_implies, iff_true]
    simp

/-- A message behind a good header is received, unpacked and answered. -/
def TurnDefined (sock : Int) (s : Buffer 100 × List UInt8) (t : Stale 10 × (Nat → Bool)) : Prop :=
  HeaderAccepted sock t.1 s.2 →
    ∃ msgLen tempx rest, receive sock t.1 s.1 s.2 = some (msgLen, tempx, rest) ∧
      (readSockTurn t.2 msgLen tempx).isSome

theorem turn_defined {sock : Int} {s : Buffer 100 × List UInt8} {t : Stale 10 × (Nat → Bool)}
    (h : ∀ a ∈ turnAccesses sock s t.1, a.InBounds) : TurnDefined sock s t := by
  intro haccepted
  obtain ⟨stale, sendOk⟩ := t
  have hfit := (turnAccesses_iff sock s stale).mp h haccepted
  have hget : getMsg sock stale s.2 = ((announcedLen stale s.2 : Int), s.2.drop 10) :=
    checkedGetMsg_of_accepted haccepted (-3)
  have hpos : ¬ (announcedLen stale s.2 : Int) < 0 := by omega
  have hcount : ((announcedLen stale s.2 : Int) + 1).toNat = announcedLen stale s.2 + 1 := by
    omega
  obtain ⟨tempx, htempx, -⟩ := @Buffer.write_zero _ s.1
    ((s.2.drop 10).take (announcedLen stale s.2 + 1)) (by rw [List.length_take]; omega)
  have hunpack : (unpack (announcedLen stale s.2) tempx).isSome := by
    rw [unpack_isSome]
    exact Buffer.shiftDownAccesses_inBounds (by decide) (Int.natCast_nonneg _) (by omega)
  obtain ⟨text, htext⟩ := Option.isSome_iff_exists.mp hunpack
  refine ⟨announcedLen stale s.2, tempx, (s.2.drop 10).drop (announcedLen stale s.2 + 1), ?_, ?_⟩
  · simp only [receive, hget, if_neg hpos, hcount, htempx, Option.map_some]
  · simp only [readSockTurn, htext, Option.bind_some]
    split
    · rw [Option.isSome_map]
      exact Buffer.strcpy_isSome (by decide)
    · rfl

end Esp32

/-- While the announced lengths fit, no turn of a receive loop is undefined. -/
theorem receiveLoops_defined {clientName : CString 30} {sock : Int}
    {streams : Int → List UInt8} {serverTurns : List Server.Turn} {client : Buffer 50 × List UInt8}
    {clientTurns : List (Stale 10)} {esp : Buffer 100 × List UInt8}
    {espTurns : List (Stale 10 × (Nat → Bool))}
    (hserver : AllSteps Server.nextTurn Server.MessageFits streams serverTurns)
    (hclient : AllSteps (Client.nextTurn clientName) Client.MessageFits client clientTurns)
    (hesp : AllSteps (Esp32.nextTurn sock) (fun s t => Esp32.MessageFits sock s t.1) esp
      espTurns) :
    AllSteps Server.nextTurn Server.TurnDefined streams serverTurns ∧
      AllSteps (Client.nextTurn clientName) (Client.TurnDefined clientName) client clientTurns ∧
      AllSteps (Esp32.nextTurn sock) (Esp32.TurnDefined sock) esp espTurns := by
  refine ⟨hserver.imp fun s t hfits => ?_, hclient.imp fun s stale hfits => ?_,
    hesp.imp fun s t hfits => ?_⟩
  · exact Server.turn_defined ((Server.turnAccesses_iff s t).mpr hfits)
  · exact Client.turn_defined clientName ((Client.turnAccesses_iff s stale).mpr hfits)
  · exact Esp32.turn_defined ((Esp32.turnAccesses_iff sock s t.1).mpr hfits)

/-- However long a peer keeps a receive loop busy and whatever it sends, the accesses of all
turns are in bounds exactly when the announced lengths fit. -/
theorem receiveLoops_inBounds_iff (clientName : CString 30) (sock : Int)
    (streams : Int → List UInt8) (serverTurns : List Server.Turn) (client : Buffer 50 × List UInt8)
    (clientTurns : List (Stale 10)) (esp : Buffer 100 × List UInt8)
    (espTurns : List (Stale 10 × (Nat → Bool))) :
    (AllSteps Server.nextTurn (fun s t => ∀ a ∈ Server.turnAccesses s t, a.InBounds)
        streams serverTurns ↔
      AllSteps Server.nextTurn Server.MessageFits streams serverTurns) ∧
    (AllSteps (Client.nextTurn clientName) (fun s t => ∀ a ∈ Client.turnAccesses s t, a.InBounds)
        client clientTurns ↔
      AllSteps (Client.nextTurn clientName) Client.MessageFits client clientTurns) ∧
    (AllSteps (Esp32.nextTurn sock)
        (fun s t => ∀ a ∈ Esp32.turnAccesses sock s t.1, a.InBounds) esp espTurns ↔
      AllSteps (Esp32.nextTurn sock) (fun s t => Esp32.MessageFits sock s t.1) esp espTurns) :=
  ⟨allSteps_congr Server.turnAccesses_iff, allSteps_congr Client.turnAccesses_iff,
    allSteps_congr fun s t => Esp32.turnAccesses_iff sock s t.1⟩

/-- A frame that announces 49 bytes makes the server ask for 51 bytes into `tempx[50]`. -/
theorem announced_49_overruns :
    ¬ AllSteps Server.nextTurn (fun s t => ∀ a ∈ Server.turnAccesses s t, a.InBounds)
      (fun _ => prePreamble ++ [1, 3])
      [⟨4, 4, 0, ⟨Buffer.zero 10, 0, 0⟩, ⟨Buffer.zero 20, 0, 0⟩⟩] := by
  decide

end TcpIot
