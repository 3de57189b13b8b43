import TcpIot.Framework.Layout

/-!
# ESP-NOW packets

`example_espnow_data_prepare` and `example_espnow_data_parse`. The loop that fills the payload
starts behind the ten bytes of the header and runs for the length of the whole packet, so it
leaves a buffer of that length by ten bytes. The hex dumps are left out, and `esp_crc16_le` is a
parameter: a function of the initial value and the bytes.
-/

namespace TcpIot.Esp32

open Framework

/-- `sizeof(example_espnow_data_t)`: type, state, `seq_num`, `crc` and `magic`, packed. -/
abbrev headerSize : Nat := 10

/-- `s_example_broadcast_mac`. -/
def broadcastMac : List UInt8 := [0x98, 0x3b, 0xae, 0xab, 0xcb, 0x38]

/-- The fields of `example_espnow_send_param_t` that are read here, less the buffer. -/
structure SendParam where
  state : UInt8
  magic : UInt32
  len : Int
  destMac : Buffer 6
deriving DecidableEq

/-- `s_example_espnow_seq` and the `static int j` of `example_espnow_data_prepare`. -/
structure Sender where
  seq : Fin 2 → UInt16
  j : Int

def startSender : Sender := ⟨fun _ => 0, 0⟩

/-- `EXAMPLE_ESPNOW_DATA_BROADCAST` or `EXAMPLE_ESPNOW_DATA_UNICAST`. -/
def SendParam.dataType (p : SendParam) : Fin 2 := if p.destMac.bytes = broadcastMac then 0 else 1

/-- `send_param->len` as an unsigned 32-bit number, which it is for `assert` and `esp_crc16_le`. -/
def SendParam.size (p : SendParam) : Nat := (p.len % 2 ^ 32).toNat

/-- `i + 32 + j`, stored in a byte. -/
def fillByte (i : Nat) (j : Int) : UInt8 := .ofNat ((i + 32 + j) % 256).toNat

/-- `for(i = 0;i < send_param->len;i++) *(buf->payload + i) = i + 32 + j;`, from `i` on for the
given number of turns. -/
def fillPayload {n : Nat} (j : Int) : Nat → Nat → Buffer n → Option (Buffer n)
  | 0, _, buf => some buf
  | turns + 1, i, buf =>
    (buf.write (headerSize + i : Nat) [fillByte i j]).bind (fillPayload j turns (i + 1))

/-- `if(--j < 2) j = 30;` -/
def nextJ (j : Int) : Int := if j - 1 < 2 then 30 else j - 1

/-- `example_espnow_data_prepare`; undefined when a store leaves the buffer. -/
def prepare {n : Nat} (crc16 : UInt16 → List UInt8 → UInt16) (s : Sender) (p : SendParam)
    (buffer : Buffer n) : Option (Sender × Buffer n) :=
  if p.size < headerSize then none
  else do
    let type := p.dataType
    let buf ← buffer.write (0 : Nat) [.ofNat type]
    let buf ← buf.write (1 : Nat) [p.state]
    let buf ← buf.write (2 : Nat) (leBytes 2 (s.seq type).toNat)
    let buf ← buf.write (4 : Nat) (leBytes 2 0)
    let buf ← buf.write (6 : Nat) (leBytes 4 p.magic.toNat)
    let buf ← fillPayload s.j p.len.toNat 0 buf
    let bytes ← buf.read 0 p.size
    let buf ← buf.write (4 : Nat) (leBytes 2 (crc16 0xFFFF bytes).toNat)
    some (⟨Function.update s.seq type (s.seq type + 1), nextJ s.j⟩, buf)

/-- What `example_espnow_data_parse` stores through its last three arguments. -/
structure Fields where
  state : UInt8
  seq : UInt16
  magic : UInt32
deriving DecidableEq

def byteAt (l : List UInt8) (offset : Nat) : UInt8 := l.getD offset 0

def uint16At (l : List UInt8) (offset : Nat) : UInt16 :=
  .ofNat (leValue ((l.drop offset).take 2))

def uint32At (l : List UInt8) (offset : Nat) : UInt32 :=
  .ofNat (leValue ((l.drop offset).take 4))

/-- `example_espnow_data_parse`: the return value, the fields and the data, whose `crc` is zeroed;
undefined when it leaves the data. -/
def parse {n : Nat} (crc16 : UInt16 → List UInt8 → UInt16) (data : Buffer n) (dataLen : UInt16)
    (old : Fields) : Option (Int × Fields × Buffer n) :=
  if dataLen.toNat < headerSize then some (-1, old, data)
  else do
    let header ← data.read 0 headerSize
    let fields : Fields := ⟨byteAt header 1, uint16At header 2, uint32At header 6⟩
    let zeroed ← data.write (4 : Nat) (leBytes 2 0)
    let bytes ← zeroed.read 0 dataLen.toNat
    let ret : Int := if crc16 0xFFFF bytes = uint16At header 4 then (byteAt header 0).toNat else -1
    some (ret, fields, zeroed)

/-- What preparing a packet should do: stay inside the buffer, number the packet with the count
of its type, and give bytes that `parse` accepts with the same fields. -/
def PreparesPacket {n : Nat} (crc16 : UInt16 → List UInt8 → UInt16) (s : Sender) (p : SendParam)
    (buffer : Buffer n) : Prop :=
  ∃ s' packet, prepare crc16 s p buffer = some (s', packet) ∧
    s'.seq = Function.update s.seq p.dataType (s.seq p.dataType + 1) ∧
    ∀ old, ∃ data, parse crc16 packet (.ofInt p.len) old =
      some ((p.dataType.val : Int), ⟨p.state, s.seq p.dataType, p.magic⟩, data)

section Prepare

variable {n : Nat}

/-- What the loop stores. -/
def fillBytes (j : Int) (i turns : Nat) : List UInt8 :=
  (List.range' i turns).map fun i => fillByte i j

@[simp] theorem fillBytes_length (j : Int) (i turns : Nat) :
    (fillBytes j i turns).length = turns := by
  rw [fillBytes, List.length_map, List.length_range']

theorem fillPayload_fits (j : Int) {turns i : Nat} {buf : Buffer n} {front rest : List UInt8}
    (hbuf : buf.bytes = front ++ rest) (hfront : front.length = headerSize + i)
    (hfit : turns ≤ rest.length) :
    ∃ c, fillPayload j turns i buf = some c ∧
      c.bytes = front ++ fillBytes j i turns ++ rest.drop turns := by
  induction turns generalizing i buf front rest with
  | zero => exact ⟨buf, rfl, by simpa [fillBytes] using hbuf⟩
  | succ turns ih =>
    obtain ⟨d, hd, hbytes⟩ := @Buffer.write_after _ buf _ _ [fillByte i j] _ hbuf hfront
      (by rw [List.length_singleton]; omega)
    obtain ⟨c, hc, hcbytes⟩ := @ih (i + 1) d _ _ hbytes
      (by rw [List.length_append, hfront, List.length_singleton]; omega)
      (by rw [List.length_drop, List.length_singleton]; omega)
    refine ⟨c, ?_, ?_⟩
    · rw [fillPayload, hd, Option.bind_some, hc]
    · rw [hcbytes, List.drop_drop, List.length_singleton, Nat.add_comm 1, fillBytes,
        fillBytes, List.range'_succ, List.map_cons, List.append_assoc front, List.singleton_append]

theorem fillPayload_overruns (j : Int) {turns i : Nat} (buf : Buffer n) (hturns : 0 < turns)
    (hlong : n < headerSize + i + turns) : fillPayload j turns i buf = none := by
  induction turns generalizing i buf with
  | zero => omega
  | succ turns ih =>
    rw [fillPayload]
    cases hwrite : buf.write (headerSize + i : Nat) [fillByte i j] with
    | none => rfl
    | some d =>
      have hin : Access.InBounds ⟨n, (headerSize + i : Nat), [fillByte i j].length⟩ := by
        rw [← Buffer.write_isSome (b := buf), hwrite]
        rfl
      rw [Access.inBounds_mk, List.length_singleton] at hin
      exact ih d (by omega) (by omega)

/-- The ten bytes in front of the payload. -/
def headerBytes (type : Fin 2) (state : UInt8) (seq crc : UInt16) (magic : UInt32) : List UInt8 :=
  [.ofNat type] ++ [state] ++ leBytes 2 seq.toNat ++ leBytes 2 crc.toNat ++ leBytes 4 magic.toNat

@[simp] theorem headerBytes_length (type : Fin 2) (state : UInt8) (seq crc : UInt16)
    (magic : UInt32) : (headerBytes type state seq crc magic).length = headerSize := by
  simp [headerBytes]

theorem size_eq {p : SendParam} (hlen : 0 ≤ p.len) (hint : p.len < 2 ^ 32) :
    p.size = p.len.toNat := by
  rw [SendParam.size, Int.emod_eq_of_lt hlen hint]

variable (crc16 : UInt16 → List UInt8 → UInt16) (s : Sender) (p : SendParam)

/-- The checksum is taken over the packet with a zero checksum field. -/
def packetCrc : UInt16 :=
  crc16 0xFFFF (headerBytes p.dataType p.state (s.seq p.dataType) 0 p.magic ++
    fillBytes s.j 0 (p.len.toNat - headerSize))

theorem take_packet {header : List UInt8} {len : Nat} (j : Int) (rest : List UInt8)
    (hheader : header.length = headerSize) (hlen : headerSize ≤ len) :
    (header ++ (fillBytes j 0 len ++ rest)).take len =
      header ++ fillBytes j 0 (len - headerSize) := by
  rw [List.take_append, hheader, List.take_of_length_le (by omega),
    List.take_append_of_le_length (by rw [fillBytes_length]; omega), fillBytes, fillBytes,
    ← List.map_take, List.take_range'_of_length_ge (by omega)]

theorem prepare_fits (buffer : Buffer n) (hlen : 10 ≤ p.len) (hint : p.len < 2 ^ 32)
    (hfit : p.len + 10 ≤ n) :
    ∃ packet rest,
      prepare crc16 s p buffer =
        some (⟨Function.update s.seq p.dataType (s.seq p.dataType + 1), nextJ s.j⟩, packet) ∧
      packet.bytes = headerBytes p.dataType p.state (s.seq p.dataType) (packetCrc crc16 s p)
        p.magic ++ (fillBytes s.j 0 p.len.toNat ++ rest) := by
  have hsize : p.size = p.len.toNat := size_eq (by omega) hint
  have hheader : headerSize ≤ p.len.toNat := Int.le_toNat (by omega) |>.mpr hlen
  obtain ⟨b1, h1, hb1⟩ := @Buffer.write_after n buffer [] buffer.bytes [.ofNat p.dataType.val] 0
    rfl rfl (by simp; omega)
  obtain ⟨b2, h2, hb2⟩ := @Buffer.write_after n b1 _ _ [p.state] 1 hb1 rfl (by simp; omega)
  obtain ⟨b3, h3, hb3⟩ := @Buffer.write_after n b2 _ _ (leBytes 2 (s.seq p.dataType).toNat) 2
    hb2 rfl (by simp; omega)
  obtain ⟨b4, h4, hb4⟩ := @Buffer.write_after n b3 _ _ (leBytes 2 0) 4 hb3 (by simp)
    (by simp; omega)
  obtain ⟨b5, h5, hb5⟩ := @Buffer.write_after n b4 _ _ (leBytes 4 p.magic.toNat) 6 hb4 (by simp)
    (by simp; omega)
  obtain ⟨b6, h6, hb6⟩ := @fillPayload_fits n s.j p.len.toNat 0 b5 _ _ hb5 (by simp)
    (by simp; omega)
  obtain ⟨rest, hfilled⟩ : ∃ rest, b6.bytes =
      headerBytes p.dataType p.state (s.seq p.dataType) 0 p.magic ++
        (fillBytes s.j 0 p.len.toNat ++ rest) :=
    ⟨_, by rw [hb6, List.append_assoc]; rfl⟩
  have hread : b6.read 0 p.size = some (headerBytes p.dataType p.state (s.seq p.dataType) 0
      p.magic ++ fillBytes s.j 0 (p.len.toNat - headerSize)) := by
    rw [Buffer.read_eq_some, Access.inBounds_mk, hsize, hfilled]
    refine ⟨by omega, ?_⟩
    rw [Int.toNat_zero, List.drop_zero, Int.toNat_natCast, take_packet _ _
      (headerBytes_length ..) hheader]
  obtain ⟨b7, h7, hb7⟩ := @Buffer.write_after n b6
    ([.ofNat p.dataType.val] ++ [p.state] ++ leBytes 2 (s.seq p.dataType).toNat)
    (leBytes 2 0 ++ (leBytes 4 p.magic.toNat ++ (fillBytes s.j 0 p.len.toNat ++ rest)))
    (leBytes 2 (packetCrc crc16 s p).toNat) 4 (by rw [hfilled]; simp [headerBytes])
    (by simp) (by simp)
  refine ⟨b7, rest, ?_, ?_⟩
  · have hassert : ¬ p.size < headerSize := by rwa [hsize, not_lt]
    rw [packetCrc] at h7
    simp only [prepare, if_neg hassert, h1, h2, h3, h4, h5, h6, hread, h7, Option.bind_eq_bind,
      Option.bind_some]
  · rw [hb7]
    simp [headerBytes]

theorem prepare_overruns (buffer : Buffer n) (hlen : 0 < p.len) (hlong : n < p.len + 10) :
    prepare crc16 s p buffer = none := by
  rw [Option.eq_none_iff_forall_ne_some]
  intro r hr
  unfold prepare at hr
  split at hr
  · cases hr
  · simp only [Option.bind_eq_bind, Option.bind_eq_some_iff] at hr
    obtain ⟨b1, -, b2, -, b3, -, b4, -, b5, -, b6, hfill, -⟩ := hr
    have hover : fillPayload s.j p.len.toNat 0 b5 = none :=
      fillPayload_overruns s.j b5 (by omega) (by change n < 10 + 0 + p.len.toNat; omega)
    rw [hover] at hfill
    cases hfill

/-- All stores of the preparation lie in memory of `n` bytes iff it holds a whole packet behind
the header. -/
theorem prepare_isSome_iff (buffer : Buffer n) (hlen : 10 ≤ p.len) (hint : p.len < 2 ^ 32) :
    (prepare crc16 s p buffer).isSome ↔ p.len + 10 ≤ n := by
  by_cases hfit : p.len + 10 ≤ n
  · obtain ⟨packet, rest, hprepare, -⟩ := prepare_fits crc16 s p buffer hlen hint hfit
    simp [hprepare, hfit]
  · simp [prepare_overruns crc16 s p buffer (by omega) (by omega), hfit]

end Prepare

section Parse

variable {n : Nat}

theorem uint16At_leBytes (x : UInt16) (front rest : List UInt8) :
    uint16At (front ++ (leBytes 2 x.toNat ++ rest)) front.length = x := by
  have hlt : x.toNat < 256 ^ 2 := x.toNat_lt
  rw [uint16At, List.drop_left, List.take_left' (leBytes_length ..), leValue_leBytes,
    Nat.mod_eq_of_lt hlt, UInt16.ofNat_toNat]

theorem uint32At_leBytes (x : UInt32) (front rest : List UInt8) :
    uint32At (front ++ (leBytes 4 x.toNat ++ rest)) front.length = x := by
  have hlt : x.toNat < 256 ^ 4 := x.toNat_lt
  rw [uint32At, List.drop_left, List.take_left' (leBytes_length ..), leValue_leBytes,
    Nat.mod_eq_of_lt hlt, UInt32.ofNat_toNat]

section Header

variable (type : Fin 2) (state : UInt8) (seq crc : UInt16) (magic : UInt32)

theorem headerBytes_type :
    (byteAt (headerBytes type state seq crc magic) 0).toNat = type.val := by
  change (UInt8.ofNat type).toNat = _
  rw [UInt8.toNat_ofNat', Nat.mod_eq_of_lt (by omega)]

theorem headerBytes_seq : uint16At (headerBytes type state seq crc magic) 2 = seq := by
  have h := uint16At_leBytes seq [.ofNat type, state]
    (leBytes 2 crc.toNat ++ leBytes 4 magic.toNat)
  simpa [headerBytes] using h

theorem headerBytes_crc : uint16At (headerBytes type state seq crc magic) 4 = crc := by
  have h := uint16At_leBytes crc ([.ofNat type, state] ++ leBytes 2 seq.toNat)
    (leBytes 4 magic.toNat)
  simpa [headerBytes] using h

theorem headerBytes_magic : uint32At (headerBytes type state seq crc magic) 6 = magic := by
  have h := uint32At_leBytes magic
    ([.ofNat type, state] ++ leBytes 2 seq.toNat ++ leBytes 2 crc.toNat) []
  simpa [headerBytes] using h

theorem parse_header (crc16 : UInt16 → List UInt8 → UInt16) {data : Buffer n}
    {tail : List UInt8} {dataLen : UInt16} (old : Fields)
    (hdata : data.bytes = headerBytes type state seq crc magic ++ tail)
    (hlen : 10 ≤ dataLen.toNat) (hfit : dataLen.toNat ≤ n)
    (hcrc : crc16 0xFFFF ((headerBytes type state seq 0 magic ++ tail).take dataLen.toNat) =
      crc) :
    ∃ zeroed, parse crc16 data dataLen old = some ((type.val : Int), ⟨state, seq, magic⟩, zeroed) := by
  have hheader : data.read 0 headerSize = some (headerBytes type state seq crc magic) := by
    rw [Buffer.read_eq_some, Access.inBounds_mk, hdata]
    refine ⟨by change (0 : Int) ≤ 0 ∧ (0 : Int) ≤ 10 ∧ (0 : Int) + 10 ≤ n; omega, ?_⟩
    exact List.take_left' (headerBytes_length ..)
  obtain ⟨zeroed, hwrite, hzeroed⟩ := @Buffer.write_after n data
    ([.ofNat type.val] ++ [state] ++ leBytes 2 seq.toNat)
    (leBytes 2 crc.toNat ++ (leBytes 4 magic.toNat ++ tail)) (leBytes 2 0) 4
    (by rw [hdata]; simp [headerBytes]) (by simp) (by simp)
  have hbytes : zeroed.bytes = headerBytes type state seq 0 magic ++ tail := by
    rw [hzeroed]
    simp [headerBytes]
  have hread : zeroed.read 0 dataLen.toNat =
      some ((headerBytes type state seq 0 magic ++ tail).take dataLen.toNat) := by
    rw [Buffer.read_eq_some, Access.inBounds_mk, hbytes]
    exact ⟨by omega, rfl⟩
  refine ⟨zeroed, ?_⟩
  rw [parse, if_neg (by change ¬ dataLen.toNat < 10; omega)]
  simp only [hheader, hwrite, hread, Option.bind_eq_bind, Option.bind_some, hcrc, headerBytes_type,
    headerBytes_seq, headerBytes_crc, headerBytes_magic, if_true]
  rfl

end Header

end Parse

/-- With ten bytes of memory more than the length, the packet is what it should be. -/
theorem prepares_packet {n : Nat} (crc16 : UInt16 → List UInt8 → UInt16) (s : Sender)
    (p : SendParam) (buffer : Buffer n) (hlen : 10 ≤ p.len) (hint : p.len < 2 ^ 16)
    (hfit : p.len + 10 ≤ n) : PreparesPacket crc16 s p buffer := by
  obtain ⟨packet, rest, hprepare, hbytes⟩ :=
    prepare_fits crc16 s p buffer hlen (by omega) hfit
  have hdata : (UInt16.ofInt p.len).toNat = p.len.toNat := by
    rw [UInt16.ofInt, UInt16.toNat_ofNat']
    omega
  refine ⟨_, packet, hprepare, rfl, fun old => ?_⟩
  apply parse_header _ _ _ _ _ crc16 old hbytes (by omega) (by omega)
  rw [hdata, take_packet _ _ (headerBytes_length ..) (Int.le_toNat (by omega) |>.mpr hlen)]
  rfl

/-- For every parameter whose length is at least the header's, sequence counts, contents of a
buffer of that length and checksum: preparing the packet does not stay inside the buffer. -/
theorem packet_never_inside (crc16 : UInt16 → List UInt8 → UInt16) (s : Sender) (p : SendParam)
    (hlen : 10 ≤ p.len) (buffer : Buffer p.len.toNat) : ¬ PreparesPacket crc16 s p buffer := by
  rintro ⟨s', packet, hprepare, -⟩
  rw [prepare_overruns crc16 s p buffer (by omega) (by omega)] at hprepare
  cases hprepare

/-- A broadcast packet that is all header. -/
def tenBytes : SendParam := ⟨0, 0, 10, ⟨broadcastMac, rfl⟩⟩

theorem packet_never_inside_ten :
    ¬ PreparesPacket (fun _ _ => 0) startSender tenBytes (Buffer.zero 10) :=
  packet_never_inside (fun _ _ => 0) startSender tenBytes (by decide) (Buffer.zero 10)

theorem ten_bytes_overrun :
    prepare (fun _ _ => 0) startSender tenBytes (Buffer.zero 10) = none ∧
    ¬ PreparesPacket (fun _ _ => 0) startSender tenBytes (Buffer.zero 10) := by
  have hnone : prepare (fun _ _ => 0) startSender tenBytes (Buffer.zero 10) = none := by decide
  refine ⟨hnone, ?_⟩
  rintro ⟨s', packet, hprepare, -⟩
  rw [hnone] at hprepare
  cases hprepare

end TcpIot.Esp32
