import TcpIot.Wire.Commands
import TcpIot.Wire.Frames

/-!
# Frames of the Windows client

The Windows client sends and expects every character as two bytes, behind a header of sixteen
bytes. The server reads such a header with `get_msgb` and writes its own frames with `send_msgb`,
which is called with twice the length of the string.
-/

namespace TcpIot

open Framework

/-- Every character is followed by a zero byte. -/
def spread (l : List UInt8) : List UInt8 := l.flatMap fun c => [c, 0]

@[simp] theorem spread_cons (c : UInt8) (l : List UInt8) : spread (c :: l) = c :: 0 :: spread l :=
  rfl

theorem spread_append (l l' : List UInt8) : spread (l ++ l') = spread l ++ spread l' :=
  List.flatMap_append

@[simp] theorem spread_length (l : List UInt8) : (spread l).length = 2 * l.length := by
  induction l with
  | nil => rfl
  | cons c l ih =>
    rw [spread_cons, List.length_cons, List.length_cons, ih, List.length_cons]
    omega

theorem spread_getD_even (l : List UInt8) (k : Nat) : (spread l).getD (2 * k) 0 = l.getD k 0 := by
  induction l generalizing k with
  | nil => rfl
  | cons c l ih =>
    cases k with
    | zero => rfl
    | succ k => exact ih k

theorem spread_getD_odd (l : List UInt8) (k : Nat) : (spread l).getD (2 * k + 1) 0 = 0 := by
  induction l generalizing k with
  | nil => rfl
  | cons c l ih =>
    cases k with
    | zero => rfl
    | succ k => exact ih k

/-- `{0xF8,…,0x00,msg_len(lowbyte),msg_len(highbyte),0x00,0x00,0x00,0x00,0x00,0x00}`. -/
def wideHeader (msgLen : Nat) : List UInt8 :=
  prePreamble ++ [UInt8.ofNat msgLen, UInt8.ofNat (msgLen >>> 8)] ++ List.replicate 6 0

private theorem byteShift_or (high low : Nat) (hlow : low < 256) :
    high <<< 8 ||| low = high * 256 + low := by
  rw [← Nat.shiftLeft_add_eq_or_of_lt (i := 8) hlow, Nat.shiftLeft_eq]

theorem announcedWideLen_header (stale : Stale 20) (low high : UInt8) (rest : List UInt8) :
    announcedWideLen stale (prePreamble ++ [low, high] ++ List.replicate 6 0 ++ rest) =
      high.toNat * 256 + low.toNat := by
  rw [← byteShift_or _ _ low.toNat_lt]
  rfl

theorem wideHeader_accepted (stale : Stale 20) (low high : UInt8) (rest : List UInt8) :
    WideHeaderAccepted stale (prePreamble ++ [low, high] ++ List.replicate 6 0 ++ rest) := rfl

theorem getMsgb_wideHeader (stale : Stale 20) {msgLen : Nat} (hlen : msgLen < 65536)
    (rest : List UInt8) :
    Server.getMsgb stale (wideHeader msgLen ++ rest) = ((msgLen : Int), rest) := by
  have hannounced : announcedWideLen stale (wideHeader msgLen ++ rest) = msgLen := by
    rw [wideHeader, announcedWideLen_header, UInt8.toNat_ofNat', UInt8.toNat_ofNat',
      Nat.shiftRight_eq_div_pow]
    omega
  have haccepted : WideHeaderAccepted stale (wideHeader msgLen ++ rest) :=
    wideHeader_accepted stale _ _ rest
  rw [Server.getMsgb_of_accepted haccepted, hannounced]
  rfl

/-- The server's `send_msgb`; `msg` is the memory that its pointer argument leads to. -/
def Server.sendMsgb (msgLen : Nat) (msg : Nat → UInt8) (msgType : UInt8) : List (List UInt8) :=
  [prePreamble, [UInt8.ofNat (msgLen + 1)], [0]] ++ List.replicate 6 [0] ++ [[msgType], [0]] ++
    (List.range (msgLen + 1)).flatMap fun i => [[msg i], [0]]

/-- What the loop of `send_msgb` reads of a string of `strlen` characters and its zero. -/
def Server.sendMsgbAccesses (strlen msgLen : Nat) : List Access :=
  (List.range (msgLen + 1)).map fun i : Nat => ⟨strlen + 1, (i : Int), 1⟩

theorem Server.sendMsgb_flatten (msgLen : Nat) (msg : Nat → UInt8) (msgType : UInt8) :
    (sendMsgb msgLen msg msgType).flatten =
      (prePreamble ++ [UInt8.ofNat (msgLen + 1), 0] ++ List.replicate 6 0) ++
        spread (msgType :: (List.range (msgLen + 1)).map msg) := by
  have hbody (l : List Nat) :
      (l.flatMap fun i => [[msg i], [0]]).flatten = spread (l.map msg) := by
    induction l with
    | nil => rfl
    | cons i l ih =>
      rw [List.flatMap_cons, List.flatten_append, ih, List.map_cons, spread_cons]
      rfl
  rw [sendMsgb, List.flatten_append, hbody]
  rfl

/-- A message for the Windows client: a string, what the memory holds behind its terminating
zero, and the type of the frame. -/
structure WideMessage where
  text : List UInt8
  noNul : 0 ∉ text
  behind : Nat → UInt8
  msgType : UInt8

namespace WideMessage

variable (m : WideMessage)

def memory (i : Nat) : UInt8 :=
  if i ≤ m.text.length then m.text.getD i 0 else m.behind (i - m.text.length - 1)

/-- The frame as the server's callers send it, with the length `2*strlen(m)`. -/
def bytes : List UInt8 :=
  (Server.sendMsgb (2 * m.text.length) m.memory m.msgType).flatten

/-- What follows the sixteen bytes of the header. -/
def body : List UInt8 := m.bytes.drop 16

/-- Every character comes from the string or is its terminating zero. -/
def WithinString : Prop :=
  ∀ a ∈ Server.sendMsgbAccesses m.text.length (2 * m.text.length), a.InBounds

theorem body_eq : m.body =
    spread (m.msgType :: (List.range (2 * m.text.length + 1)).map m.memory) := by
  rw [body, bytes, Server.sendMsgb_flatten]
  rfl

theorem bytes_eq (rest : List UInt8) :
    m.bytes ++ rest = prePreamble ++ [UInt8.ofNat (2 * m.text.length + 1), 0] ++
      List.replicate 6 0 ++ (m.body ++ rest) := by
  rw [body_eq, bytes, Server.sendMsgb_flatten, List.append_assoc]

theorem body_length : m.body.length = 4 * m.text.length + 4 := by
  rw [body_eq, spread_length, List.length_cons, List.length_map, List.length_range]
  omega

theorem announced (stale : Stale 20) (rest : List UInt8) :
    announcedWideLen stale (m.bytes ++ rest) = (2 * m.text.length + 1) % 256 := by
  rw [bytes_eq, announcedWideLen_header, UInt8.toNat_ofNat']
  simp

/-- Only the empty string is long enough for what `send_msgb` reads of it. -/
theorem withinString_iff : m.WithinString ↔ m.text = [] := by
  constructor
  · intro h
    have hlast := h ⟨m.text.length + 1, (2 * m.text.length : Nat), 1⟩
      (List.mem_map.mpr ⟨2 * m.text.length, List.mem_range.mpr (Nat.lt_succ_self _), rfl⟩)
    rw [Access.inBounds_mk] at hlast
    exact List.length_eq_zero_iff.mp (by omega)
  · intro h a ha
    obtain ⟨i, hi, rfl⟩ := List.mem_map.mp ha
    rw [List.mem_range, h] at hi
    rw [Access.inBounds_mk, h]
    simp only [List.length_nil] at hi ⊢
    omega

end WideMessage

/-- A reader of one frame by `get_msgb`'s rule: the header, then as many bytes as it announces. -/
def nextWideFrame (stale : Stale 20) (stream : List UInt8) :
    Option (List UInt8 × List UInt8) :=
  takeFrame (some (Server.getMsgb stale stream)) 0 some

/-- Such a reader stops inside the body: it takes an odd number of its bytes, and fewer than
there are. -/
theorem nextWideFrame_bytes (stale : Stale 20) (m : WideMessage) (rest : List UInt8) :
    nextWideFrame stale (m.bytes ++ rest) =
      some (m.body.take ((2 * m.text.length + 1) % 256),
        m.body.drop ((2 * m.text.length + 1) % 256) ++ rest) := by
  have hget : Server.getMsgb stale (m.bytes ++ rest) =
      ((((2 * m.text.length + 1) % 256 : Nat) : Int), m.body ++ rest) := by
    have haccepted : WideHeaderAccepted stale (m.bytes ++ rest) := by
      rw [m.bytes_eq]
      exact wideHeader_accepted stale _ _ _
    rw [Server.getMsgb_of_accepted haccepted, m.announced, m.bytes_eq]
    rfl
  have hlen := m.body_length
  have hshort : (2 * m.text.length + 1) % 256 ≤ m.body.length := by omega
  rw [nextWideFrame, takeFrame, hget]
  simp only [Option.bind_some, Int.toNat_natCast, Nat.add_zero, Option.map_some]
  rw [if_pos ⟨Int.natCast_nonneg _, by rw [List.length_append]; omega⟩,
    List.take_append_of_le_length hshort, List.drop_append_of_le_length hshort]

/-- Every header announces the number of body bytes behind it, a reader that follows the headers
finds every frame boundary, and no character comes from beyond its string. -/
structure WideStreamIntact (stale : Stale 20) (ms : List WideMessage) : Prop where
  announced : ∀ m ∈ ms, m.body.length = announcedWideLen stale m.bytes
  decoded : decodeStream (nextWideFrame stale) (ms.flatMap WideMessage.bytes) =
    (ms.map WideMessage.body, [])
  within : ∀ m ∈ ms, m.WithinString

/-- No frame meets its header: the number of body bytes is even and the announced one is odd. -/
theorem wideStreamIntact_iff (stale : Stale 20) (ms : List WideMessage) :
    WideStreamIntact stale ms ↔ ms = [] := by
  constructor
  · intro h
    cases ms with
    | nil => rfl
    | cons m ms =>
      have hlen := h.announced m List.mem_cons_self
      have hheader := m.announced stale []
      rw [List.append_nil] at hheader
      rw [hheader, m.body_length] at hlen
      omega
  · rintro rfl
    refine ⟨by simp, rfl, by simp⟩

/-- The answer of the server to a client called `A`: 8 body bytes where 3 are announced, and a
byte from behind the terminating zero. -/
theorem status_report_not_intact :
    ¬ WideStreamIntact ⟨Buffer.zero 20, 0, 0⟩
      [⟨[65], by decide, fun _ => 120, CmdTypes.sendMessage2.code⟩] := by
  intro h
  have hlen := h.announced _ List.mem_cons_self
  exact absurd hlen (by decide)

end TcpIot
