import TcpIot.Esp32.Espnow
import TcpIot.Framework.Network

/-!
# The ESP-NOW task

`example_espnow_init`, the two callbacks and `example_espnow_task` of the ESP-NOW example. The
callbacks post an event for the task; the task answers a finished send with the next packet and
decides from the broadcasts it hears whether it becomes the sender of unicast data. What the
radio and the allocator answer is part of the label. A task that deletes itself and one that is
aborted by `ESP_ERROR_CHECK` leave no task behind.
-/

namespace TcpIot.Esp32

open Framework

abbrev Mac := Buffer 6

/-- `IS_BROADCAST_ADDR`. -/
abbrev Mac.IsBroadcast (mac : Mac) : Prop := mac.bytes = broadcastMac

local instance typeNeZero : NeZero 2 := ⟨Nat.succ_ne_zero 1⟩

/-- The type of the data that goes to an address. -/
def Mac.dataType (mac : Mac) : Fin 2 := if mac.IsBroadcast then 0 else 1

/-- `example_espnow_event_t`, less the status of a send, which is only logged. -/
inductive Event
  | sendCb (mac : Mac)
  | recvCb (mac : Mac) (data : List UInt8)

/-- A packet that `esp_now_send` has taken. -/
structure Packet where
  dest : Mac
  data : List UInt8
deriving DecidableEq

/-- `*send_param` with the static data of the preparation, the locals of the task that outlive a
turn, and the peer list of the driver. -/
structure Task (n : Nat) where
  unicast : Bool
  broadcast : Bool
  count : UInt16
  param : SendParam
  buffer : Buffer n
  sender : Sender
  recv : Fields
  peers : List Mac

/-- Waiting for events, deleted after the last packet, or gone after an error. -/
inductive Status (n : Nat)
  | running (t : Task n)
  | done
  | failed

/-- What a turn of the task leaves and which packets it has handed over. -/
structure Turn (n : Nat) where
  status : Status n
  sent : List Packet

/-- What the allocator and the driver answer in one turn. -/
structure Env where
  malloc : Bool
  addPeer : Bool
  send : Bool

variable {n : Nat} (crc16 : UInt16 → List UInt8 → UInt16)

/-- `esp_now_send(send_param->dest_mac, send_param->buffer, send_param->len)`; the task ends on
an error. -/
def Task.transmit (t : Task n) (ok : Bool) : Option (Turn n) :=
  (t.buffer.read 0 t.param.len).map fun data =>
    if ok then ⟨.running t, [⟨t.param.destMac, data⟩]⟩ else ⟨.failed, []⟩

/-- `memcpy(send_param->dest_mac, mac, 6)`, the preparation and the send that follows it. -/
def Task.sendTo (t : Task n) (mac : Mac) (ok : Bool) : Option (Turn n) :=
  let param := { t.param with destMac := mac }
  (prepare crc16 t.sender param t.buffer).bind fun r =>
    { t with param, sender := r.1, buffer := r.2 }.transmit ok

/-- The case `EXAMPLE_ESPNOW_SEND_CB` of `example_espnow_task`. -/
def Task.sendCb (t : Task n) (mac : Mac) (env : Env) : Option (Turn n) :=
  if mac.IsBroadcast ∧ t.broadcast = false then some ⟨.running t, []⟩
  else if mac.IsBroadcast then t.sendTo crc16 mac env.send
  else
    let t := { t with count := t.count - 1 }
    if t.count = 0 then some ⟨.done, []⟩ else t.sendTo crc16 mac env.send

/-- `send_param->broadcast = false; send_param->unicast = true;` after a send that succeeded. -/
def Status.startUnicast : Status n → Status n
  | .running t => .running { t with broadcast := false, unicast := true }
  | status => status

/-- `if (send_param->state == 0) send_param->state = 1;` -/
def Task.hearBroadcast (t : Task n) : Task n :=
  { t with param := { t.param with state := if t.param.state = 0 then 1 else t.param.state } }

/-- The case `EXAMPLE_ESPNOW_RECV_CB` of `example_espnow_task`. -/
def Task.recvCb (t : Task n) (mac : Mac) (data : List UInt8) (env : Env) : Option (Turn n) :=
  (parse crc16 (⟨data, rfl⟩ : Buffer data.length) (.ofInt data.length) t.recv).bind fun r =>
    let t := { t with recv := r.2.1 }
    if r.1 = 0 then
      if mac ∉ t.peers ∧ (env.malloc = false ∨ env.addPeer = false) then some ⟨.failed, []⟩
      else
        let t := { t with peers := if mac ∈ t.peers then t.peers else mac :: t.peers }
        let t := t.hearBroadcast
        if t.recv.state = 1 ∧ t.unicast = false ∧ t.recv.magic ≤ t.param.magic then
          (t.sendTo crc16 mac env.send).map fun turn =>
            { turn with status := turn.status.startUnicast }
        else some ⟨.running t, []⟩
    else if r.1 = 1 then some ⟨.running { t with broadcast := false }, []⟩
    else some ⟨.running t, []⟩

/-- One turn of the loop of `example_espnow_task`. -/
def Task.turn (t : Task n) (env : Env) : Event → Option (Turn n)
  | .sendCb mac => t.sendCb crc16 mac env
  | .recvCb mac data => t.recvCb crc16 mac data env

/-- `CONFIG_ESPNOW_SEND_COUNT` and `CONFIG_ESPNOW_SEND_LEN`. -/
structure Config where
  count : UInt16
  len : Int
  header_le : 10 ≤ len
  len_lt : len < 2 ^ 16

/-- The bytes at `send_param->buffer` that a preparation writes: the block of
`CONFIG_ESPNOW_SEND_LEN` bytes that `example_espnow_init` allocates, and the ten bytes of the heap
behind it. -/
def Config.memory (cfg : Config) : Nat := cfg.len.toNat + headerSize

/-- A device: its task, `s_example_espnow_queue`, the sends the driver has not reported yet, and
every packet it has sent. `started` says that the task is past its first delay. -/
structure Device (n : Nat) where
  status : Status n
  started : Bool
  queue : List Event
  pending : List Mac
  sent : List Packet

/-- `ESPNOW_QUEUE_SIZE`. -/
def espnowQueueSize : Nat := 6

/-- `xQueueSend`: an event that does not fit is dropped. -/
def post (queue : List Event) (e : Event) : List Event :=
  if queue.length < espnowQueueSize then queue ++ [e] else queue

theorem broadcastMac_length : broadcastMac.length = 6 := rfl

/-- `*send_param` as `example_espnow_init` fills it in, in front of the first preparation. -/
def initParam (cfg : Config) (magic : UInt32) : SendParam :=
  ⟨0, magic, cfg.len, ⟨broadcastMac, broadcastMac_length⟩⟩

/-- `example_espnow_init` with the memory at `send_param->buffer`. The bytes behind the block are
taken to be in no other use. The failures of an allocation, after which there is no task, are left
out. -/
def initDevice (cfg : Config) (magic : UInt32) (memory : Buffer cfg.memory) :
    Option (Device cfg.memory) :=
  (prepare crc16 startSender (initParam cfg magic) memory).map fun r =>
    ⟨.running ⟨false, true, cfg.count, initParam cfg magic, r.2, r.1, ⟨0, 0, 0⟩,
      [⟨broadcastMac, broadcastMac_length⟩]⟩, false, [], [], []⟩

inductive DeviceAct
  | start (env : Env)
  | receive (src : Mac) (data : List UInt8)
  | sendDone (mac : Mac)
  | turn (env : Env)

/-- The device after a turn that has taken its event from the queue. -/
def Device.finish (d : Device n) (queue : List Event) (r : Turn n) : Device n :=
  { d with status := r.status, started := true, queue, pending := d.pending ++ r.sent.map (·.dest),
           sent := d.sent ++ r.sent }

/-- The first send of the task, the two callbacks, and a turn of the task's loop. Without a task
there is no ESP-NOW and no step. -/
def Device.step (d : Device n) : DeviceAct → Option (Device n)
  | .start env =>
    match d.status, d.started with
    | .running t, false => (t.transmit env.send).map (d.finish d.queue)
    | _, _ => none
  | .receive src data =>
    match d.status with
    | .running _ => some { d with queue := if data = [] then d.queue else
                                    post d.queue (.recvCb src data) }
    | _ => none
  | .sendDone mac =>
    match d.status with
    | .running _ =>
      if mac ∈ d.pending then
        some { d with pending := d.pending.erase mac, queue := post d.queue (.sendCb mac) }
      else none
    | _ => none
  | .turn env =>
    match d.status, d.started, d.queue with
    | .running t, true, e :: rest => (t.turn crc16 env e).map (d.finish rest)
    | _, _, _ => none

/-- The first `len` bytes of the buffer behind a preparation. -/
def packetBytes (s : Sender) (p : SendParam) : List UInt8 :=
  headerBytes p.dataType p.state (s.seq p.dataType) (packetCrc crc16 s p) p.magic ++
    fillBytes s.j 0 (p.len.toNat - headerSize)

/-- The static data of the preparation after a packet of a type. -/
def Sender.next (s : Sender) (type : Fin 2) : Sender :=
  ⟨Function.update s.seq type (s.seq type + 1), nextJ s.j⟩

@[simp] theorem Sender.next_seq (s : Sender) (type : Fin 2) :
    (s.next type).seq = Function.update s.seq type (s.seq type + 1) := rfl

section Packet

variable {s : Sender} {p : SendParam}

theorem packetBytes_length (hlen : 10 ≤ p.len) :
    (packetBytes crc16 s p).length = p.len.toNat := by
  have hheader : headerSize ≤ p.len.toNat := (Int.le_toNat (by omega)).mpr hlen
  rw [packetBytes, List.length_append, headerBytes_length, fillBytes_length]
  omega

theorem packetBytes_seq : uint16At (packetBytes crc16 s p) 2 = s.seq p.dataType := by
  have h := uint16At_leBytes (s.seq p.dataType) [.ofNat p.dataType, p.state]
    (leBytes 2 (packetCrc crc16 s p).toNat ++ (leBytes 4 p.magic.toNat ++
      fillBytes s.j 0 (p.len.toNat - headerSize)))
  simpa [packetBytes, headerBytes] using h

theorem prepare_eq_some {buffer : Buffer n} {r : Sender × Buffer n} (hlen : 10 ≤ p.len)
    (hint : p.len < 2 ^ 32) (h : prepare crc16 s p buffer = some r) :
    r.1 = s.next p.dataType ∧ r.2.read 0 p.len = some (packetBytes crc16 s p) := by
  have hfit : p.len + 10 ≤ n :=
    (prepare_isSome_iff crc16 s p buffer hlen hint).mp (by rw [h]; rfl)
  have hheader : headerSize ≤ p.len.toNat := (Int.le_toNat (by omega)).mpr hlen
  obtain ⟨packet, rest, hprepare, hbytes⟩ := prepare_fits crc16 s p buffer hlen hint hfit
  rw [h] at hprepare
  cases hprepare
  constructor
  · rfl
  · rw [Buffer.read_eq_some, Access.inBounds_mk, hbytes]
    refine ⟨by omega, ?_⟩
    rw [Int.toNat_zero, List.drop_zero, take_packet _ _ (headerBytes_length ..) hheader]
    rfl

theorem parse_packetBytes (hlen : 10 ≤ p.len) (hint : p.len < 2 ^ 16) (old : Fields) :
    ∃ zeroed, parse crc16 (⟨packetBytes crc16 s p, rfl⟩ : Buffer _)
      (.ofInt (packetBytes crc16 s p).length) old =
        some ((p.dataType.val : Int), ⟨p.state, s.seq p.dataType, p.magic⟩, zeroed) := by
  have hlength := packetBytes_length crc16 (s := s) hlen
  have hdata : (UInt16.ofInt (packetBytes crc16 s p).length).toNat = p.len.toNat := by
    rw [hlength, UInt16.ofInt, UInt16.toNat_ofNat']
    omega
  apply parse_header _ _ _ _ _ crc16 old rfl (by omega) (by omega)
  rw [List.take_of_length_le]
  · rfl
  · have hheader : headerSize ≤ p.len.toNat := (Int.le_toNat (by omega)).mpr hlen
    rw [hdata, List.length_append, headerBytes_length, fillBytes_length]
    omega

end Packet

/-- The packet a task sends to an address. -/
def Task.packetTo (t : Task n) (mac : Mac) : Packet :=
  ⟨mac, packetBytes crc16 t.sender { t.param with destMac := mac }⟩

/-- The task behind a send. -/
def Task.afterSend (t : Task n) (mac : Mac) (buffer : Buffer n) : Task n :=
  { t with param := { t.param with destMac := mac }, sender := t.sender.next mac.dataType, buffer }

theorem Task.sendTo_cases {t : Task n} {mac : Mac} {ok : Bool} {r : Turn n}
    (hlen : 10 ≤ t.param.len) (hint : t.param.len < 2 ^ 16)
    (h : t.sendTo crc16 mac ok = some r) :
    r = ⟨.failed, []⟩ ∨
      ∃ buffer, r = ⟨.running (t.afterSend mac buffer), [t.packetTo crc16 mac]⟩ := by
  obtain ⟨⟨sender, buffer⟩, hprepare, htransmit⟩ := Option.bind_eq_some_iff.mp h
  obtain ⟨hsender, hread⟩ := prepare_eq_some crc16 (by exact hlen)
    (by change t.param.len < 2 ^ 32; omega) hprepare
  simp only [Task.transmit, hread, Option.map_some, Option.some.injEq] at htransmit
  cases ok with
  | false => exact .inl htransmit.symm
  | true =>
    right
    refine ⟨buffer, ?_⟩
    rw [← htransmit]
    simp only at hsender
    simp [Task.afterSend, Task.packetTo, hsender, SendParam.dataType, Mac.dataType]

/-- The task behind the part of the broadcast case that does not send. -/
def Task.heard (t : Task n) (recv : Fields) (peers : List Mac) : Task n :=
  { t with recv, peers }.hearBroadcast

/-- Every way a turn of the task can end. -/
inductive Takes (t : Task n) : Event → Turn n → Prop
  | error {e : Event} : Takes t e ⟨.failed, []⟩
  | skip {mac : Mac} (hmac : mac.IsBroadcast) (hquiet : t.broadcast = false) :
      Takes t (.sendCb mac) ⟨.running t, []⟩
  | rebroadcast {mac : Mac} (hmac : mac.IsBroadcast) (hloud : t.broadcast = true)
      (buffer : Buffer n) :
      Takes t (.sendCb mac) ⟨.running (t.afterSend mac buffer), [t.packetTo crc16 mac]⟩
  | finish {mac : Mac} (hmac : ¬ mac.IsBroadcast) (hcount : t.count = 1) :
      Takes t (.sendCb mac) ⟨.done, []⟩
  | again {mac : Mac} (hmac : ¬ mac.IsBroadcast) (hcount : t.count ≠ 1) (buffer : Buffer n) :
      Takes t (.sendCb mac) ⟨.running ({ t with count := t.count - 1 }.afterSend mac buffer),
        [t.packetTo crc16 mac]⟩
  | ignore {mac : Mac} {data : List UInt8} (recv : Fields) :
      Takes t (.recvCb mac data) ⟨.running { t with recv }, []⟩
  | yield {mac : Mac} {data : List UInt8} (recv : Fields) :
      Takes t (.recvCb mac data) ⟨.running { t with recv, broadcast := false }, []⟩
  | hear {mac : Mac} {data : List UInt8} {recv : Fields} {rest : Buffer data.length}
      (peers : List Mac)
      (hparse : parse crc16 ⟨data, rfl⟩ (.ofInt data.length) t.recv = some (0, recv, rest)) :
      Takes t (.recvCb mac data) ⟨.running (t.heard recv peers), []⟩
  | elect {mac : Mac} {data : List UInt8} {recv : Fields} {rest : Buffer data.length}
      (peers : List Mac) (buffer : Buffer n)
      (hparse : parse crc16 ⟨data, rfl⟩ (.ofInt data.length) t.recv = some (0, recv, rest))
      (hstate : recv.state = 1) (hunicast : t.unicast = false)
      (hmagic : recv.magic ≤ t.param.magic) :
      Takes t (.recvCb mac data)
        ⟨.running { (t.heard recv peers).afterSend mac buffer with
                    broadcast := false, unicast := true },
          [(t.heard recv peers).packetTo crc16 mac]⟩

section Turn

variable {t : Task n} {env : Env} {r : Turn n}

private theorem count_sub_one {x : UInt16} : x - 1 = 0 ↔ x = 1 := by
  constructor
  · intro h
    rw [← UInt16.sub_add_cancel x 1, h]
    rfl
  · intro h
    rw [h]
    rfl

theorem Task.sendCb_takes {mac : Mac} (hlen : 10 ≤ t.param.len) (hint : t.param.len < 2 ^ 16)
    (h : t.sendCb crc16 mac env = some r) : Takes crc16 t (.sendCb mac) r := by
  rw [Task.sendCb] at h
  split at h
  · rename_i hskip
    cases h
    exact .skip hskip.1 hskip.2
  · rename_i hskip
    split at h
    · rename_i hmac
      have hloud : t.broadcast = true := Bool.eq_true_of_not_eq_false fun hb => hskip ⟨hmac, hb⟩
      rcases Task.sendTo_cases crc16 hlen hint h with rfl | ⟨buffer, rfl⟩
      · exact .error
      · exact .rebroadcast hmac hloud buffer
    · rename_i hmac
      simp only at h
      split at h
      · rename_i hcount
        cases h
        exact .finish hmac (count_sub_one.mp hcount)
      · rename_i hcount
        rcases Task.sendTo_cases crc16 (by exact hlen) (by exact hint) h with rfl | ⟨buffer, rfl⟩
        · exact .error
        · exact .again hmac (mt count_sub_one.mpr hcount) buffer

theorem Task.recvCb_takes {mac : Mac} {data : List UInt8} (hlen : 10 ≤ t.param.len)
    (hint : t.param.len < 2 ^ 16) (h : t.recvCb crc16 mac data env = some r) :
    Takes crc16 t (.recvCb mac data) r := by
  obtain ⟨⟨ret, recv, rest⟩, hparse, h⟩ := Option.bind_eq_some_iff.mp h
  simp only at h
  split at h
  · rename_i hret
    subst hret
    split at h
    · cases h
      exact .error
    · generalize (if mac ∈ t.peers then t.peers else mac :: t.peers) = peers at h
      split at h
      · rename_i helect
        obtain ⟨turn, hsend, rfl⟩ := Option.map_eq_some_iff.mp h
        rcases Task.sendTo_cases crc16 (by exact hlen) (by exact hint) hsend with
          rfl | ⟨buffer, rfl⟩
        · exact .error
        · exact .elect peers buffer hparse helect.1 helect.2.1 helect.2.2
      · cases h
        exact .hear peers hparse
  · split at h
    · cases h
      exact .yield recv
    · cases h
      exact .ignore recv

/-- A turn of the task takes one of the ways listed above. -/
theorem Task.turn_takes {e : Event} (hlen : 10 ≤ t.param.len) (hint : t.param.len < 2 ^ 16)
    (h : t.turn crc16 env e = some r) : Takes crc16 t e r := by
  cases e with
  | sendCb mac => exact Task.sendCb_takes crc16 hlen hint h
  | recvCb mac data => exact Task.recvCb_takes crc16 hlen hint h

end Turn

end TcpIot.Esp32
