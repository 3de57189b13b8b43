import TcpIot.Framework.Framing
import TcpIot.Wire.Header

/-!
# Frame encoders and decoders

The server, the Linux client and the ESP32 client each have their own `send_msg` and `get_msg`.
Frames towards the server carry a destination byte, frames towards a client do not. A send
function is modelled by the list of its `send` calls; on a stream the kernel concatenates them.
-/

namespace TcpIot

open Framework

/-- One `send` call for each of the first `msgLen` bytes of `msg`. -/
def sendBytes (msgLen : Nat) (msg : List UInt8) : List (List UInt8) :=
  (msg.take msgLen).map fun b => [b]

@[simp] theorem flatten_sendBytes (msgLen : Nat) (msg : List UInt8) :
    (sendBytes msgLen msg).flatten = msg.take msgLen := by
  rw [sendBytes, ← List.flatMap_def]
  exact List.flatMap_singleton' (msg.take msgLen)

/-- The server's `send_msg`. -/
def Server.sendMsg (msgLen : Nat) (msg : List UInt8) (msgType : UInt8) : List (List UInt8) :=
  [prePreamble, [lenLow msgLen], [lenHigh msgLen], [msgType]] ++ sendBytes msgLen msg

/-- The Linux client's `send_msg`. -/
def Client.sendMsg (msgLen : Nat) (msg : List UInt8) (msgType dest : UInt8) :
    List (List UInt8) :=
  [prePreamble, [lenLow msgLen], [lenHigh msgLen], [msgType], [dest]] ++ sendBytes msgLen msg

/-- The ESP32's `send_msg`: it stops at the first `send` that fails and returns which part of
the frame failed, with the calls that succeeded. -/
def Esp32.sendMsg (sendOk : Nat → Bool) (msgLen : Nat) (msg : List UInt8)
    (msgType dest : UInt8) : Int × List (List UInt8) :=
  let head := [lenLow msgLen, lenHigh msgLen, msgType, dest]
  let body := sendBytes msgLen msg
  let sent := (body.zipIdx.takeWhile fun b => sendOk (b.2 + 2)).map Prod.fst
  if sendOk 0 = false then (-1, [])
  else if sendOk 1 = false then (-2, [prePreamble])
  else (if sent.length < body.length then -3 else 0, prePreamble :: head :: sent)

/-- A `get_msg` that takes the socket as an argument and checks the first `recv`: the returned
length and the rest of the stream. `closed` is its result when that `recv` delivers nothing. -/
def checkedGetMsg (closed sd : Int) (stale : Stale 10) (stream : List UInt8) :
    Int × List UInt8 :=
  if sd < 0 then (-2, stream)
  else if stream = [] then (closed, [])
  else if preambleBytes stale stream 8 ≠ prePreamble then (-1, stream.drop 8)
  else
    let len := readLength stale (stream.drop 8)
    (len.1, len.2)

/-- The server's `get_msg`. -/
def Server.getMsg : Int → Stale 10 → List UInt8 → Int × List UInt8 := checkedGetMsg (-1)

/-- The ESP32's `get_msg`. -/
def Esp32.getMsg : Int → Stale 10 → List UInt8 → Int × List UInt8 := checkedGetMsg (-3)

/-- The server's `get_msgb`, which reads a header of sixteen bytes. The number of received
bytes is not checked. -/
def Server.getMsgb (stale : Stale 20) (stream : List UInt8) : Int × List UInt8 :=
  let header := stream.take 16 ++ stale.preamble.bytes.drop (stream.take 16).length
  let low := header.getD 8 0
  let high := header.getD 9 0
  if preambleBytes stale stream 16 ≠ prePreamble then (-1, stream.drop 16)
  else ((high.toNat <<< 8 ||| low.toNat : Nat), stream.drop 16)

/-- The Linux client's `get_msg`; `none` when it calls `exit(1)` on a bad preamble. -/
def Client.getMsg (stale : Stale 10) (stream : List UInt8) : Option (Int × List UInt8) :=
  if preambleBytes stale stream 8 ≠ prePreamble then none
  else
    let len := readLength stale (stream.drop 8)
    some (len.1, len.2)

/-- The header is accepted: the descriptor is valid, something arrives, and the preamble array
holds the preamble. -/
def HeaderAccepted (sd : Int) (stale : Stale 10) (stream : List UInt8) : Prop :=
  0 ≤ sd ∧ stream ≠ [] ∧ preambleBytes stale stream 8 = prePreamble

instance (sd : Int) (stale : Stale 10) (stream : List UInt8) :
    Decidable (HeaderAccepted sd stale stream) := inferInstanceAs (Decidable (_ ∧ _ ∧ _))

def announcedLen (stale : Stale 10) (stream : List UInt8) : Nat :=
  decodeLen ((stream.drop 8).headD stale.low) ((stream.drop 9).headD stale.high)

theorem readLength_drop (stale : Stale 10) (stream : List UInt8) :
    readLength stale (stream.drop 8) = (announcedLen stale stream, stream.drop 10) := by
  rw [readLength, List.tail_drop, List.drop_drop]
  rfl

theorem checkedGetMsg_of_accepted {sd : Int} {stale : Stale 10} {stream : List UInt8}
    (h : HeaderAccepted sd stale stream) (closed : Int) :
    checkedGetMsg closed sd stale stream =
      ((announcedLen stale stream : Int), stream.drop 10) := by
  obtain ⟨hsd, hne, hpre⟩ := h
  have hneg : ¬ sd < 0 := by omega
  simp only [checkedGetMsg, if_neg hneg, if_neg hne, hpre, ne_eq, not_true, if_false,
    readLength_drop]

theorem checkedGetMsg_of_rejected {sd : Int} {stale : Stale 10} {stream : List UInt8}
    (h : ¬ HeaderAccepted sd stale stream) {closed : Int} (hclosed : closed < 0) :
    (checkedGetMsg closed sd stale stream).1 < 0 := by
  unfold checkedGetMsg
  split
  · exact (by decide : (-2 : Int) < 0)
  · rename_i hsd
    split
    · exact hclosed
    · rename_i hne
      split
      · exact (by decide : (-1 : Int) < 0)
      · rename_i hpre
        exact absurd ⟨by omega, hne, not_not.mp hpre⟩ h

def WideHeaderAccepted (stale : Stale 20) (stream : List UInt8) : Prop :=
  preambleBytes stale stream 16 = prePreamble

instance (stale : Stale 20) (stream : List UInt8) : Decidable (WideHeaderAccepted stale stream) :=
  inferInstanceAs (Decidable (_ = _))

/-- The length in bytes 8 and 9 of the Windows client's header. -/
def announcedWideLen (stale : Stale 20) (stream : List UInt8) : Nat :=
  let header := stream.take 16 ++ stale.preamble.bytes.drop (stream.take 16).length
  (header.getD 9 0).toNat <<< 8 ||| (header.getD 8 0).toNat

theorem Server.getMsgb_of_accepted {stale : Stale 20} {stream : List UInt8}
    (h : WideHeaderAccepted stale stream) :
    Server.getMsgb stale stream = ((announcedWideLen stale stream : Int), stream.drop 16) := by
  have hpre : ¬ preambleBytes stale stream 16 ≠ prePreamble := not_not.mpr h
  rw [Server.getMsgb, if_neg hpre]
  rfl

theorem Server.getMsgb_of_rejected {stale : Stale 20} {stream : List UInt8}
    (h : ¬ WideHeaderAccepted stale stream) :
    Server.getMsgb stale stream = (-1, stream.drop 16) := by
  have hpre : preambleBytes stale stream 16 ≠ prePreamble := h
  rw [Server.getMsgb, if_pos hpre]

theorem Client.getMsg_of_accepted {stale : Stale 10} {stream : List UInt8}
    (h : preambleBytes stale stream 8 = prePreamble) :
    Client.getMsg stale stream = some ((announcedLen stale stream : Int), stream.drop 10) := by
  rw [Client.getMsg, if_neg (not_not.mpr h)]
  simp only [readLength_drop]

theorem Client.getMsg_of_rejected {stale : Stale 10} {stream : List UInt8}
    (h : preambleBytes stale stream 8 ≠ prePreamble) : Client.getMsg stale stream = none := by
  rw [Client.getMsg, if_pos h]

/-- A header reader that takes exactly the eight preamble bytes and two length bytes off a
stream that goes on after them. -/
structure ReadsHeader (header : List UInt8 → Option (Int × List UInt8)) : Prop where
  complete : ∀ low high rest,
    header (prePreamble ++ low :: high :: rest) = some (((decodeLen low high : Nat) : Int), rest)
  taken : ∀ stream len rest, header stream = some (len, rest) → 0 ≤ len → rest ≠ [] →
    ∃ low high, stream = prePreamble ++ low :: high :: rest ∧
      len = ((decodeLen low high : Nat) : Int)

private theorem taken_of_preamble (stale : Stale 10) (stream : List UInt8)
    (hpre : preambleBytes stale stream 8 = prePreamble)
    (hrest : (readLength stale (stream.drop 8)).2 ≠ []) :
    ∃ low high, stream = prePreamble ++ low :: high :: (readLength stale (stream.drop 8)).2 ∧
      (readLength stale (stream.drop 8)).1 = decodeLen low high := by
  have hlong : 8 ≤ stream.length := by
    by_contra hshort
    apply hrest
    change (stream.drop 8).drop 2 = []
    rw [List.drop_drop, List.drop_eq_nil_of_le (by omega)]
  rw [preambleBytes_of_le stale stream hlong] at hpre
  match htail : stream.drop 8 with
  | [] | [_] =>
    rw [htail] at hrest
    exact absurd rfl hrest
  | low :: high :: tail =>
    refine ⟨low, high, ?_, rfl⟩
    rw [readLength_cons, ← List.take_append_drop 8 stream, hpre, htail]

theorem checkedGetMsg_readsHeader {closed : Int} (hclosed : closed < 0) (sd : Nat)
    (stale : Stale 10) : ReadsHeader fun s => some (checkedGetMsg closed sd stale s) where
  complete low high rest := by
    have hsd : ¬ (sd : Int) < 0 := by omega
    simp only [checkedGetMsg, hsd, preambleBytes_prePreamble]
    simp [prePreamble]
  taken stream len rest h hlen hrest := by
    have hsd : ¬ (sd : Int) < 0 := by omega
    simp only [checkedGetMsg, hsd, if_false, Option.some.injEq] at h
    split at h
    · cases h
      omega
    · split at h
      · cases h
        omega
      · rename_i hpre
        cases h
        obtain ⟨low, high, hs, hl⟩ :=
          taken_of_preamble stale stream (not_not.mp hpre) hrest
        exact ⟨low, high, hs, congrArg Nat.cast hl⟩

theorem Server.getMsg_readsHeader (sd : Nat) (stale : Stale 10) :
    ReadsHeader fun s => some (Server.getMsg sd stale s) :=
  checkedGetMsg_readsHeader (by decide) sd stale

theorem Esp32.getMsg_readsHeader (sd : Nat) (stale : Stale 10) :
    ReadsHeader fun s => some (Esp32.getMsg sd stale s) :=
  checkedGetMsg_readsHeader (by decide) sd stale

theorem Client.getMsg_readsHeader (stale : Stale 10) : ReadsHeader (Client.getMsg stale) where
  complete low high rest := by
    simp only [Client.getMsg, preambleBytes_prePreamble]
    simp [prePreamble]
  taken stream len rest h hlen hrest := by
    unfold Client.getMsg at h
    split at h
    · cases h
    · rename_i hpre
      cases h
      obtain ⟨low, high, hs, hl⟩ :=
        taken_of_preamble stale stream (not_not.mp hpre) hrest
      exact ⟨low, high, hs, congrArg Nat.cast hl⟩

/-- Lets numerals index the arrays that the server and the Linux client receive a message in. -/
instance neZeroTempx : NeZero 50 := ⟨Nat.succ_ne_zero 49⟩

/-- A header followed by a body of `extra` bytes more than the announced length. -/
def takeFrame {μ : Type} (header : Option (Int × List UInt8)) (extra : Nat)
    (parse : List UInt8 → Option μ) : Option (μ × List UInt8) :=
  header.bind fun h =>
    if 0 ≤ h.1 ∧ h.1.toNat + extra ≤ h.2.length then
      (parse (h.2.take (h.1.toNat + extra))).map fun m => (m, h.2.drop (h.1.toNat + extra))
    else none

def parseUp : List UInt8 → Option (UInt8 × UInt8 × List UInt8)
  | msgType :: dest :: payload => some (msgType, dest, payload)
  | _ => none

def parseDown : List UInt8 → Option (UInt8 × List UInt8)
  | msgType :: payload => some (msgType, payload)
  | _ => none

/-- One turn of the server's loop: `get_msg`, then `msg_len+2` bytes. -/
def Server.nextFrame (sd : Nat) (stale : Stale 10) (stream : List UInt8) :
    Option ((UInt8 × UInt8 × List UInt8) × List UInt8) :=
  takeFrame (some (Server.getMsg sd stale stream)) 2 parseUp

/-- One turn of the Linux client's loop: `get_msg`, then `msg_len+1` bytes. -/
def Client.nextFrame (stale : Stale 10) (stream : List UInt8) :
    Option ((UInt8 × List UInt8) × List UInt8) :=
  takeFrame (Client.getMsg stale stream) 1 parseDown

/-- One turn of the ESP32's loop: `get_msg`, then `msg_len+1` bytes. -/
def Esp32.nextFrame (sd : Nat) (stale : Stale 10) (stream : List UInt8) :
    Option ((UInt8 × List UInt8) × List UInt8) :=
  takeFrame (some (Esp32.getMsg sd stale stream)) 1 parseDown

theorem takeFrame_eq_some {μ : Type} {header : List UInt8 → Option (Int × List UInt8)}
    (hh : ReadsHeader header) {extra : Nat} (hextra : 0 < extra)
    {parse : List UInt8 → Option μ} {stream rest : List UInt8} {m : μ} :
    takeFrame (header stream) extra parse = some (m, rest) ↔
      ∃ low high body, stream = prePreamble ++ low :: high :: body ++ rest ∧
        body.length = decodeLen low high + extra ∧ parse body = some m := by
  constructor
  · intro h
    obtain ⟨⟨len, tail⟩, hhead, h⟩ := Option.bind_eq_some_iff.mp h
    split at h
    · rename_i hin
      dsimp only at hin h
      obtain ⟨m', hparse, heq⟩ := Option.map_eq_some_iff.mp h
      cases heq
      have hne : tail ≠ [] := List.ne_nil_of_length_pos (by omega)
      obtain ⟨low, high, rfl, rfl⟩ := hh.taken stream len tail hhead hin.1 hne
      simp only [Int.toNat_natCast] at hin hparse ⊢
      refine ⟨low, high, _, ?_, ?_, hparse⟩
      · simp only [List.append_assoc, List.cons_append, List.take_append_drop]
      · simp only [List.length_take]
        omega
    · cases h
  · rintro ⟨low, high, body, rfl, hlen, hparse⟩
    have hhead := hh.complete low high (body ++ rest)
    rw [List.append_assoc, List.cons_append, List.cons_append]
    simp only [takeFrame, hhead, Option.bind_some, Int.toNat_natCast, List.length_append,
      ← hlen, List.take_left, List.drop_left, hparse, Option.map_some]
    rw [if_pos (by omega)]

theorem takeFrame_shrinking {μ : Type} {header : List UInt8 → Option (Int × List UInt8)}
    (hh : ReadsHeader header) {extra : Nat} (hextra : 0 < extra)
    (parse : List UInt8 → Option μ) :
    Shrinking fun s => takeFrame (header s) extra parse := by
  intro stream m rest h
  obtain ⟨low, high, body, rfl, -, -⟩ := (takeFrame_eq_some hh hextra).mp h
  simp only [List.length_append, List.length_cons]
  omega

/-- Bytes of a frame towards the server, as the Linux client sends them. -/
def Client.frame (m : UInt8 × UInt8 × List UInt8) : List UInt8 :=
  (Client.sendMsg m.2.2.length m.2.2 m.1 m.2.1).flatten

/-- Bytes of a frame towards the server, as the ESP32 sends them when no `send` fails. -/
def Esp32.frame (m : UInt8 × UInt8 × List UInt8) : List UInt8 :=
  (Esp32.sendMsg (fun _ => true) m.2.2.length m.2.2 m.1 m.2.1).2.flatten

/-- Bytes of a frame towards a client, as the server sends them. -/
def Server.frame (m : UInt8 × List UInt8) : List UInt8 :=
  (Server.sendMsg m.2.length m.2 m.1).flatten

theorem Client.frame_eq (m : UInt8 × UInt8 × List UInt8) :
    Client.frame m = prePreamble ++ lenLow m.2.2.length :: lenHigh m.2.2.length ::
      (m.1 :: m.2.1 :: m.2.2) := by
  simp [Client.frame, Client.sendMsg]

theorem Server.frame_eq (m : UInt8 × List UInt8) :
    Server.frame m =
      prePreamble ++ lenLow m.2.length :: lenHigh m.2.length :: (m.1 :: m.2) := by
  simp [Server.frame, Server.sendMsg]

theorem ReadsHeader.clientFrame {header : List UInt8 → Option (Int × List UInt8)}
    (hh : ReadsHeader header) {m : UInt8 × UInt8 × List UInt8} (hlen : m.2.2.length < 256)
    (rest : List UInt8) :
    header (Client.frame m ++ rest) =
      some ((m.2.2.length : Int), m.1 :: m.2.1 :: m.2.2 ++ rest) := by
  have hread := hh.complete (lenLow m.2.2.length) (lenHigh m.2.2.length)
    (m.1 :: m.2.1 :: m.2.2 ++ rest)
  rw [decodeLen_lens hlen] at hread
  rw [Client.frame_eq, List.append_assoc]
  exact hread

theorem ReadsHeader.serverFrame {header : List UInt8 → Option (Int × List UInt8)}
    (hh : ReadsHeader header) {m : UInt8 × List UInt8} (hlen : m.2.length < 256)
    (rest : List UInt8) :
    header (Server.frame m ++ rest) = some ((m.2.length : Int), m.1 :: m.2 ++ rest) := by
  have hread := hh.complete (lenLow m.2.length) (lenHigh m.2.length) (m.1 :: m.2 ++ rest)
  rw [decodeLen_lens hlen] at hread
  rw [Server.frame_eq, List.append_assoc]
  exact hread

/-- The two programs that talk to the server put the same bytes on the wire. -/
theorem Esp32.frame_eq_client (m : UInt8 × UInt8 × List UInt8) :
    Esp32.frame m = Client.frame m := by
  have hall (l : List (List UInt8 × Nat)) : l.takeWhile (fun _ => true) = l := by
    induction l with
    | nil => rfl
    | cons a l ih => rw [List.takeWhile_cons, ih]; rfl
  simp [Esp32.frame, Esp32.sendMsg, hall, Client.frame_eq, List.zipIdx_map_fst]

theorem takeFrame_frame {μ : Type} {header : List UInt8 → Option (Int × List UInt8)}
    (hh : ReadsHeader header) {extra len : Nat} (hextra : 0 < extra) (hlen : len < 256)
    {parse : List UInt8 → Option μ} {m : μ} {body : List UInt8} (tail : List UInt8)
    (hbody : body.length = len + extra) (hparse : parse body = some m) :
    takeFrame (header (prePreamble ++ lenLow len :: lenHigh len :: body ++ tail)) extra parse =
      some (m, tail) :=
  (takeFrame_eq_some hh hextra).mpr
    ⟨_, _, body, rfl, by rw [decodeLen_lens hlen, hbody], hparse⟩

theorem Server.nextFrame_shrinking (sd : Nat) (stale : Stale 10) :
    Shrinking (Server.nextFrame sd stale) :=
  takeFrame_shrinking (Server.getMsg_readsHeader sd stale) (by decide) parseUp

theorem Client.nextFrame_shrinking (stale : Stale 10) : Shrinking (Client.nextFrame stale) :=
  takeFrame_shrinking (Client.getMsg_readsHeader stale) (by decide) parseDown

theorem Esp32.nextFrame_shrinking (sd : Nat) (stale : Stale 10) :
    Shrinking (Esp32.nextFrame sd stale) :=
  takeFrame_shrinking (Esp32.getMsg_readsHeader sd stale) (by decide) parseDown

theorem Server.nextFrame_frame (sd : Nat) (stale : Stale 10)
    (m : UInt8 × UInt8 × List UInt8) (hm : m.2.2.length < 256) (tail : List UInt8) :
    Server.nextFrame sd stale (Client.frame m ++ tail) = some (m, tail) := by
  rw [Client.frame_eq]
  exact takeFrame_frame (Server.getMsg_readsHeader sd stale) (by decide) hm tail rfl rfl

theorem Client.nextFrame_frame (stale : Stale 10) (m : UInt8 × List UInt8)
    (hm : m.2.length < 256) (tail : List UInt8) :
    Client.nextFrame stale (Server.frame m ++ tail) = some (m, tail) := by
  rw [Server.frame_eq]
  exact takeFrame_frame (Client.getMsg_readsHeader stale) (by decide) hm tail rfl rfl

theorem Esp32.nextFrame_frame (sd : Nat) (stale : Stale 10) (m : UInt8 × List UInt8)
    (hm : m.2.length < 256) (tail : List UInt8) :
    Esp32.nextFrame sd stale (Server.frame m ++ tail) = some (m, tail) := by
  rw [Server.frame_eq]
  exact takeFrame_frame (Esp32.getMsg_readsHeader sd stale) (by decide) hm tail rfl rfl

/-- Whole streams of frames towards the server, and of frames towards a client, are decoded
into exactly the messages that were sent, with no byte left over. -/
theorem framing_roundTrip (sd : Nat) (staleUp staleDown staleEsp : Stale 10)
    (ups : List (UInt8 × UInt8 × List UInt8)) (downs : List (UInt8 × List UInt8))
    (hups : ∀ m ∈ ups, m.2.2.length ≤ 255) (hdowns : ∀ m ∈ downs, m.2.length ≤ 255) :
    decodeStream (Server.nextFrame sd staleUp) (ups.flatMap Client.frame) = (ups, []) ∧
    decodeStream (Server.nextFrame sd staleUp) (ups.flatMap Esp32.frame) = (ups, []) ∧
    decodeStream (Client.nextFrame staleDown) (downs.flatMap Server.frame) = (downs, []) ∧
    decodeStream (Esp32.nextFrame sd staleEsp) (downs.flatMap Server.frame) = (downs, []) := by
  have hup : decodeStream (Server.nextFrame sd staleUp) (ups.flatMap Client.frame) =
      (ups, []) := by
    have h := decodeStream_flatMap (Server.nextFrame_shrinking sd staleUp) Client.frame ups []
      fun m hm => Server.nextFrame_frame sd staleUp m (Nat.lt_succ_of_le (hups m hm))
    simpa [decodeStream_nil (Server.nextFrame_shrinking sd staleUp)] using h
  refine ⟨hup, ?_, ?_, ?_⟩
  · rw [show (Esp32.frame : UInt8 × UInt8 × List UInt8 → List UInt8) = Client.frame from
      funext Esp32.frame_eq_client]
    exact hup
  · have h := decodeStream_flatMap (Client.nextFrame_shrinking staleDown) Server.frame downs []
      fun m hm => Client.nextFrame_frame staleDown m (Nat.lt_succ_of_le (hdowns m hm))
    simpa [decodeStream_nil (Client.nextFrame_shrinking staleDown)] using h
  · have h := decodeStream_flatMap (Esp32.nextFrame_shrinking sd staleEsp) Server.frame downs []
      fun m hm => Esp32.nextFrame_frame sd staleEsp m (Nat.lt_succ_of_le (hdowns m hm))
    simpa [decodeStream_nil (Esp32.nextFrame_shrinking sd staleEsp)] using h

theorem framing_roundTrip_preamble_payload :
    decodeStream (Server.nextFrame 4 ⟨Buffer.zero 10, 0, 0⟩)
      ([(25, 1, prePreamble), (26, 1, [])].flatMap Client.frame) =
        ([(25, 1, prePreamble), (26, 1, [])], []) :=
  (framing_roundTrip 4 ⟨Buffer.zero 10, 0, 0⟩ ⟨Buffer.zero 10, 0, 0⟩ ⟨Buffer.zero 10, 0, 0⟩
    [(25, 1, prePreamble), (26, 1, [])] [(58, prePreamble)]
    (by decide) (by decide)).1

end TcpIot
