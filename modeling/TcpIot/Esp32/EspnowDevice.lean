import TcpIot.Esp32.EspnowTask
import Mathlib.Data.List.Perm.Subperm

/-!
# Runs of one ESP-NOW device

What a device keeps to whatever it hears, from whoever: its packets of each type are numbered
one after another, at most one packet of each type is on its way, all unicast data goes to one
peer and there are at most `CONFIG_ESPNOW_SEND_COUNT` of them, and broadcasts stop for good with
the first unicast packet.
-/

namespace TcpIot.Esp32

open Framework

variable {n : Nat} {crc16 : UInt16 → List UInt8 → UInt16}

theorem Mac.dataType_of_broadcast {mac : Mac} (h : mac.IsBroadcast) : mac.dataType = 0 := if_pos h

theorem Mac.dataType_of_not {mac : Mac} (h : ¬ mac.IsBroadcast) : mac.dataType = 1 := if_neg h

theorem Mac.dataType_eq_one {mac : Mac} : mac.dataType = 1 ↔ ¬ mac.IsBroadcast := by
  by_cases h : mac.IsBroadcast
  · simp [dataType_of_broadcast h, h]
  · simp [dataType_of_not h, h]

/-- `seq_num` of a packet. -/
def Packet.number (p : Packet) : UInt16 := uint16At p.data 2

/-- `state` of a packet: whether its sender has heard a broadcast. -/
def Packet.state (p : Packet) : UInt8 := byteAt p.data 1

local instance sentNeZero : NeZero 2 := ⟨Nat.succ_ne_zero 1⟩

/-- The packets of one type a device has sent. -/
def Device.sentOf (d : Device n) (type : Fin 2) : List Packet :=
  d.sent.filter fun p => p.dest.dataType = type

def Event.reported : Event → Option Mac
  | .sendCb mac => some mac
  | .recvCb _ _ => none

/-- The addresses of the sends that the task has not answered yet. -/
def Device.unanswered (d : Device n) : List Mac := d.pending ++ d.queue.filterMap Event.reported

/-- Numbered `0, 1, 2, …`, modulo 2^16. -/
def Numbered (l : List Packet) : Prop :=
  l.map Packet.number = (List.range l.length).map UInt16.ofNat

theorem Numbered.snoc {l : List Packet} {p : Packet} (h : Numbered l)
    (hp : p.number = .ofNat l.length) : Numbered (l ++ [p]) := by
  rw [Numbered, List.map_append, h, List.length_append, List.length_singleton, List.range_succ,
    List.map_append, List.map_singleton, List.map_singleton, hp]

theorem mem_post {queue : List Event} {e f : Event} (h : f ∈ post queue e) :
    f ∈ queue ∨ f = e := by
  unfold post at h
  split at h
  · simpa using h
  · exact .inl h

theorem filterMap_post {β : Type*} (g : Event → Option β) (queue : List Event) (e : Event) :
    (post queue e).filterMap g = queue.filterMap g ++ (g e).toList ∨
      (post queue e).filterMap g = queue.filterMap g := by
  unfold post
  split
  · left
    rw [List.filterMap_append, List.filterMap_cons]
    cases g e <;> rfl
  · exact .inr rfl

theorem unanswered_sendDone (d : Device n) {mac : Mac} (h : mac ∈ d.pending) :
    ({ d with pending := d.pending.erase mac, queue := post d.queue (.sendCb mac) } :
      Device n).unanswered.Subperm d.unanswered := by
  change (d.pending.erase mac ++ (post d.queue (.sendCb mac)).filterMap Event.reported).Subperm
    (d.pending ++ d.queue.filterMap Event.reported)
  rcases filterMap_post Event.reported d.queue (.sendCb mac) with hq | hq
  · rw [hq]
    apply List.Perm.subperm
    calc d.pending.erase mac ++ (d.queue.filterMap Event.reported ++ [mac])
        _ = d.pending.erase mac ++ d.queue.filterMap Event.reported ++ [mac] :=
          (List.append_assoc ..).symm
        _ |>.Perm (mac :: (d.pending.erase mac ++ d.queue.filterMap Event.reported)) :=
          List.perm_append_singleton ..
        _ |>.Perm (d.pending ++ d.queue.filterMap Event.reported) :=
          (List.perm_cons_erase h).symm.append_right _
  · rw [hq]
    exact (List.erase_sublist.append_right _).subperm

theorem unanswered_receive (d : Device n) (src : Mac) (data : List UInt8) :
    ({ d with queue := if data = [] then d.queue else post d.queue (.recvCb src data) } :
      Device n).unanswered = d.unanswered := by
  change d.pending ++ (if data = [] then d.queue else _).filterMap Event.reported = _
  split
  · rfl
  · rcases filterMap_post Event.reported d.queue (.recvCb src data) with hq | hq
    · rw [hq]
      exact congrArg (d.pending ++ ·) (List.append_nil _)
    · rw [hq]
      rfl

/-- The task before its first send: the first broadcast is prepared, nothing is on its way. -/
structure Fresh (crc16 : UInt16 → List UInt8 → UInt16) (cfg : Config) (d : Device n) (t : Task n) :
    Prop where
  len : t.param.len = cfg.len
  dest : t.param.destMac = ⟨broadcastMac, broadcastMac_length⟩
  data : t.buffer.read 0 t.param.len = some (packetBytes crc16 startSender t.param)
  sender : t.sender = startSender.next 0
  unicast : t.unicast = false
  count : t.count = cfg.count
  sent : d.sent = []
  unanswered : d.unanswered = []

/-- How many sends have to be reported before a count has run down to zero, which it passes when
it starts there. -/
def sendsLeft (count : UInt16) : Nat := (count - 1).toNat + 1

theorem sendsLeft_sub_one {count : UInt16} (h : count ≠ 1) :
    sendsLeft (count - 1) + 1 = sendsLeft count := by
  have hne : count.toNat ≠ 1 := fun hone => h (UInt16.toNat_inj.mp hone)
  have hlt := count.toNat_lt
  simp only [sendsLeft, UInt16.toNat_sub, UInt16.toNat_one]
  omega

/-- The task in its loop. -/
structure Looping (cfg : Config) (d : Device n) (t : Task n) : Prop where
  len : t.param.len = cfg.len
  seq : ∀ type, t.sender.seq type = .ofNat (d.sentOf type).length
  single : ∀ type, d.unanswered.countP (·.dataType = type) ≤ 1
  quiet : t.unicast = true → t.broadcast = false
  before : t.unicast = false →
    d.sentOf 1 = [] ∧ (∀ mac ∈ d.unanswered, mac.IsBroadcast) ∧ t.count = cfg.count
  after : t.unicast = true →
    (d.sentOf 1).length + sendsLeft t.count = sendsLeft cfg.count + 1

/-- What the status of a device says about its task and the packets it has sent. -/
def Device.Phase (crc16 : UInt16 → List UInt8 → UInt16) (cfg : Config) (d : Device n) : Prop :=
  match d.status with
  | .running t => if d.started then Looping cfg d t else Fresh crc16 cfg d t
  | .done => (d.sentOf 1).length = sendsLeft cfg.count
  | .failed => (d.sentOf 1).length ≤ sendsLeft cfg.count

structure Device.Inv (crc16 : UInt16 → List UInt8 → UInt16) (cfg : Config) (d : Device n) :
    Prop where
  phase : d.Phase crc16 cfg
  numbered : ∀ type, Numbered (d.sentOf type)
  foreign : ∀ mac data, .recvCb mac data ∈ d.queue → ¬ mac.IsBroadcast
  peer : ∃ peer : Mac, (∀ mac ∈ d.unanswered, ¬ mac.IsBroadcast → mac = peer) ∧
    ∀ p ∈ d.sent, ¬ p.dest.IsBroadcast → p.dest = peer

/-- The radio never reports the address that stands for broadcasts as a source. -/
def DeviceAct.Foreign : DeviceAct → Prop
  | .receive src _ => ¬ src.IsBroadcast
  | _ => True

theorem initDevice_isSome (cfg : Config) (magic : UInt32) (memory : Buffer cfg.memory) :
    (initDevice crc16 cfg magic memory).isSome := by
  have hlen := cfg.header_le
  have hint := cfg.len_lt
  have hfit : cfg.len + 10 ≤ cfg.memory := by
    simp only [Config.memory, headerSize]
    omega
  rw [initDevice, Option.isSome_map]
  exact (prepare_isSome_iff crc16 startSender (initParam cfg magic) memory hlen
    (show cfg.len < 2 ^ 32 by omega)).mpr hfit

section Init

variable {cfg : Config} {magic : UInt32} {memory : Buffer cfg.memory} {d : Device cfg.memory}

theorem initDevice_fresh (h : initDevice crc16 cfg magic memory = some d) :
    ∃ t, d.status = .running t ∧ d.started = false ∧ d.queue = [] ∧
      t.param = initParam cfg magic ∧ Fresh crc16 cfg d t := by
  obtain ⟨⟨sender, buffer⟩, hprepare, rfl⟩ := Option.map_eq_some_iff.mp h
  obtain ⟨hsender, hread⟩ := prepare_eq_some crc16 cfg.header_le
    (by change cfg.len < 2 ^ 32; have := cfg.len_lt; omega) hprepare
  exact ⟨_, rfl, rfl, rfl, rfl, rfl, rfl, hread, hsender, rfl, rfl, rfl, rfl⟩

theorem initDevice_inv (h : initDevice crc16 cfg magic memory = some d) : d.Inv crc16 cfg := by
  obtain ⟨t, hstatus, hstarted, hqueue, -, hfresh⟩ := initDevice_fresh h
  constructor
  · rw [Device.Phase, hstatus, hstarted]
    exact hfresh
  · intro type
    rw [Device.sentOf, hfresh.sent]
    rfl
  · intro mac data hmem
    rw [hqueue] at hmem
    cases hmem
  · refine ⟨⟨broadcastMac, broadcastMac_length⟩, ?_, ?_⟩
    · rw [hfresh.unanswered]
      simp
    · rw [hfresh.sent]
      simp

end Init

section Turn

variable {cfg : Config} {d : Device n} {t : Task n} {e : Event} {rest : List Event}

/-- The unanswered sends behind a turn, apart from the ones it makes. -/
def Device.others (d : Device n) (rest : List Event) : List Mac :=
  d.pending ++ rest.filterMap Event.reported

theorem unanswered_queue (hqueue : d.queue = e :: rest) :
    d.unanswered.Perm (e.reported.toList ++ d.others rest) := by
  rw [Device.unanswered, hqueue, List.filterMap_cons, Device.others]
  cases e with
  | sendCb mac => exact List.perm_middle
  | recvCb mac data => exact List.Perm.refl _

theorem unanswered_finish (d : Device n) (rest : List Event) (r : Turn n) :
    (d.finish rest r).unanswered.Perm (r.sent.map (·.dest) ++ d.others rest) := by
  change (d.pending ++ r.sent.map (·.dest) ++ rest.filterMap Event.reported).Perm _
  rw [Device.others, ← List.append_assoc]
  exact List.perm_append_comm.append_right _

theorem sentOf_finish (d : Device n) (rest : List Event) (r : Turn n) (type : Fin 2) :
    (d.finish rest r).sentOf type =
      d.sentOf type ++ r.sent.filter fun p => p.dest.dataType = type :=
  List.filter_append ..

theorem sentOf_finish_nil (d : Device n) (rest : List Event) (status : Status n)
    (type : Fin 2) : (d.finish rest ⟨status, []⟩).sentOf type = d.sentOf type := by
  rw [sentOf_finish]
  exact List.append_nil _

theorem sentOf_finish_one (d : Device n) (rest : List Event) (status : Status n) (p : Packet)
    (type : Fin 2) : (d.finish rest ⟨status, [p]⟩).sentOf type =
      if p.dest.dataType = type then d.sentOf type ++ [p] else d.sentOf type := by
  rw [sentOf_finish]
  by_cases h : p.dest.dataType = type
  · simp [h]
  · simp [h]

theorem numbered_finish_one {status : Status n} {p : Packet}
    (hnumbered : ∀ type, Numbered (d.sentOf type))
    (hp : p.number = .ofNat (d.sentOf p.dest.dataType).length) (type : Fin 2) :
    Numbered ((d.finish rest ⟨status, [p]⟩).sentOf type) := by
  rw [sentOf_finish_one]
  split
  · rename_i htype
    subst htype
    exact (hnumbered _).snoc hp
  · exact hnumbered type

theorem seq_finish_one (rest : List Event) (status : Status n) {p : Packet} {s : Sender}
    (hseq : ∀ type, s.seq type = .ofNat (d.sentOf type).length) (type : Fin 2) :
    (s.next p.dest.dataType).seq type =
      .ofNat ((d.finish rest ⟨status, [p]⟩).sentOf type).length := by
  rw [sentOf_finish_one, Sender.next_seq]
  by_cases h : p.dest.dataType = type
  · subst h
    rw [Function.update_self, if_pos rfl, hseq, List.length_append, List.length_singleton,
      UInt16.ofNat_add]
    rfl
  · rw [Function.update_of_ne (Ne.symm h), if_neg h, hseq]

theorem Task.packetTo_number (t : Task n) (mac : Mac) :
    (t.packetTo crc16 mac).number = t.sender.seq mac.dataType :=
  packetBytes_seq crc16

theorem Looping.sent_le (h : Looping cfg d t) : (d.sentOf 1).length ≤ sendsLeft cfg.count := by
  cases hunicast : t.unicast with
  | false => rw [(h.before hunicast).1]; exact Nat.zero_le _
  | true =>
    have hafter := h.after hunicast
    have hleft : 1 ≤ sendsLeft t.count := Nat.le_add_left ..
    omega

theorem phase_running {d : Device n} {t : Task n} (hstatus : d.status = .running t)
    (hstarted : d.started = true) : d.Phase crc16 cfg ↔ Looping cfg d t := by
  rw [Device.Phase, hstatus, hstarted]
  exact Iff.rfl

theorem Device.Inv.finish_nil (hinv : d.Inv crc16 cfg) (hqueue : d.queue = e :: rest)
    {status : Status n} (hphase : (d.finish rest ⟨status, []⟩).Phase crc16 cfg) :
    (d.finish rest ⟨status, []⟩).Inv crc16 cfg := by
  constructor
  · exact hphase
  · intro type
    rw [sentOf_finish_nil]
    exact hinv.numbered type
  · intro mac data hmem
    apply hinv.foreign mac data
    rw [hqueue]
    exact List.mem_cons_of_mem e hmem
  · obtain ⟨peer, hunanswered, hsent⟩ := hinv.peer
    refine ⟨peer, fun mac hmac => ?_, fun p hp => ?_⟩
    · apply hunanswered
      rw [(unanswered_queue hqueue).mem_iff]
      exact List.mem_append_right _ ((unanswered_finish d rest _).mem_iff.mp hmac)
    · exact hsent p (by simpa [Device.finish] using hp)

theorem Looping.finish_nil (h : Looping cfg d t) (hqueue : d.queue = e :: rest) {t' : Task n}
    (hlen : t'.param.len = t.param.len) (hsender : t'.sender = t.sender)
    (hunicast : t'.unicast = t.unicast) (hcount : t'.count = t.count)
    (hbroadcast : t'.broadcast = t.broadcast ∨ t'.broadcast = false) :
    Looping cfg (d.finish rest ⟨.running t', []⟩) t' := by
  have hmono : ∀ mac ∈ (d.finish rest ⟨.running t', []⟩).unanswered, mac ∈ d.unanswered := by
    intro mac hmac
    rw [(unanswered_queue hqueue).mem_iff]
    exact List.mem_append_right _ ((unanswered_finish d rest _).mem_iff.mp hmac)
  constructor
  · rw [hlen, h.len]
  · intro type
    rw [hsender, sentOf_finish_nil, h.seq]
  · intro type
    have hsingle := h.single type
    rw [(unanswered_queue hqueue).countP_eq, List.countP_append] at hsingle
    rw [(unanswered_finish d rest _).countP_eq, List.map_nil, List.nil_append]
    omega
  · intro hu
    rcases hbroadcast with hb | hb
    · rw [hb]
      exact h.quiet (hunicast ▸ hu)
    · exact hb
  · intro hu
    obtain ⟨hsent, hall, hstart⟩ := h.before (hunicast ▸ hu)
    rw [sentOf_finish_nil, hcount]
    exact ⟨hsent, fun mac hmac => hall mac (hmono mac hmac), hstart⟩
  · intro hu
    rw [sentOf_finish_nil, hcount]
    exact h.after (hunicast ▸ hu)

theorem Device.Inv.finish_one (hinv : d.Inv crc16 cfg) (hqueue : d.queue = e :: rest)
    {status : Status n} {p : Packet}
    (hphase : (d.finish rest ⟨status, [p]⟩).Phase crc16 cfg)
    (hnumber : p.number = .ofNat (d.sentOf p.dest.dataType).length)
    (hpeer : ∃ peer : Mac, (∀ mac ∈ p.dest :: d.others rest, ¬ mac.IsBroadcast → mac = peer) ∧
      ∀ q ∈ d.sent ++ [p], ¬ q.dest.IsBroadcast → q.dest = peer) :
    (d.finish rest ⟨status, [p]⟩).Inv crc16 cfg := by
  constructor
  · exact hphase
  · exact numbered_finish_one hinv.numbered hnumber
  · intro mac data hmem
    apply hinv.foreign mac data
    rw [hqueue]
    exact List.mem_cons_of_mem e hmem
  · obtain ⟨peer, hunanswered, hsent⟩ := hpeer
    exact ⟨peer, fun mac hmac => hunanswered mac ((unanswered_finish d rest _).mem_iff.mp hmac),
      hsent⟩

theorem unanswered_answer (status : Status n) {mac : Mac} {p : Packet}
    (hqueue : d.queue = .sendCb mac :: rest) (hdest : p.dest = mac) :
    (d.finish rest ⟨status, [p]⟩).unanswered.Perm d.unanswered := by
  apply (unanswered_finish d rest _).trans
  rw [List.map_singleton, hdest]
  exact (unanswered_queue hqueue).symm

theorem Looping.finish_answer (h : Looping cfg d t) {mac : Mac}
    (hqueue : d.queue = .sendCb mac :: rest) {t' : Task n} {p : Packet} (hdest : p.dest = mac)
    (hlen : t'.param.len = t.param.len) (hsender : t'.sender = t.sender.next mac.dataType)
    (hunicast : t'.unicast = t.unicast) (hbroadcast : t'.broadcast = t.broadcast)
    (hcount : t'.count = if mac.IsBroadcast then t.count else t.count - 1)
    (hlast : ¬ mac.IsBroadcast → t.count ≠ 1) :
    Looping cfg (d.finish rest ⟨.running t', [p]⟩) t' := by
  have hperm := unanswered_answer (.running t') hqueue hdest
  have hmem : mac ∈ d.unanswered := by
    rw [(unanswered_queue hqueue).mem_iff]
    exact List.mem_append_left _ List.mem_cons_self
  constructor
  · rw [hlen, h.len]
  · intro type
    rw [hsender, ← hdest]
    exact seq_finish_one _ _ h.seq type
  · intro type
    rw [hperm.countP_eq]
    exact h.single type
  · intro hu
    rw [hbroadcast]
    exact h.quiet (hunicast ▸ hu)
  · intro hu
    obtain ⟨hsent, hall, hstart⟩ := h.before (hunicast ▸ hu)
    have hmac : mac.IsBroadcast := hall mac hmem
    refine ⟨?_, fun m hm => hall m (hperm.mem_iff.mp hm), ?_⟩
    · rw [sentOf_finish_one, hdest, Mac.dataType_of_broadcast hmac, if_neg (by decide), hsent]
    · rw [hcount, if_pos hmac, hstart]
  · intro hu
    have hafter := h.after (hunicast ▸ hu)
    rw [sentOf_finish_one, hdest, hcount]
    by_cases hmac : mac.IsBroadcast
    · rw [Mac.dataType_of_broadcast hmac, if_neg (by decide), if_pos hmac]
      exact hafter
    · have hleft := sendsLeft_sub_one (hlast hmac)
      rw [Mac.dataType_of_not hmac, if_pos rfl, if_neg hmac, List.length_append,
        List.length_singleton]
      omega

theorem Device.Inv.finish_answer (hinv : d.Inv crc16 cfg) {mac : Mac}
    (hqueue : d.queue = .sendCb mac :: rest) {status : Status n} {p : Packet}
    (hdest : p.dest = mac)
    (hphase : (d.finish rest ⟨status, [p]⟩).Phase crc16 cfg)
    (hnumber : p.number = .ofNat (d.sentOf mac.dataType).length) :
    (d.finish rest ⟨status, [p]⟩).Inv crc16 cfg := by
  apply hinv.finish_one hqueue hphase (by rw [hdest]; exact hnumber)
  obtain ⟨peer, hunanswered, hsent⟩ := hinv.peer
  have hall : ∀ m ∈ p.dest :: d.others rest, ¬ m.IsBroadcast → m = peer := by
    intro m hm
    apply hunanswered
    rw [(unanswered_queue hqueue).mem_iff, ← hdest]
    exact hm
  refine ⟨peer, hall, fun q hq => ?_⟩
  rcases List.mem_append.mp hq with hq | hq
  · exact hsent q hq
  · rw [List.mem_singleton.mp hq]
    exact hall _ List.mem_cons_self

theorem Looping.finish_elect (h : Looping cfg d t) {src : Mac} {data : List UInt8}
    (hqueue : d.queue = .recvCb src data :: rest) (hsrc : ¬ src.IsBroadcast)
    (hunicast : t.unicast = false) {t' : Task n} {p : Packet} (hdest : p.dest = src)
    (hlen : t'.param.len = t.param.len) (hsender : t'.sender = t.sender.next src.dataType)
    (hunicast' : t'.unicast = true) (hbroadcast : t'.broadcast = false)
    (hcount : t'.count = t.count) : Looping cfg (d.finish rest ⟨.running t', [p]⟩) t' := by
  obtain ⟨hsent, hall, hstart⟩ := h.before hunicast
  have hothers : d.unanswered.Perm (d.others rest) := unanswered_queue hqueue
  have hunanswered : (d.finish rest ⟨.running t', [p]⟩).unanswered.Perm
      (src :: d.others rest) := by
    have hfinish := unanswered_finish d rest ⟨.running t', [p]⟩
    rwa [List.map_singleton, hdest] at hfinish
  constructor
  · rw [hlen, h.len]
  · intro type
    rw [hsender, ← hdest]
    exact seq_finish_one _ _ h.seq type
  · intro type
    have hsingle := h.single type
    rw [hothers.countP_eq] at hsingle
    rw [hunanswered.countP_eq, List.countP_cons, Mac.dataType_of_not hsrc]
    by_cases htype : 1 = type
    · have hnone : (d.others rest).countP (·.dataType = type) = 0 := by
        rw [List.countP_eq_zero]
        intro m hm
        rw [Mac.dataType_of_broadcast (hall m (hothers.mem_iff.mpr hm)), ← htype]
        decide
      rw [hnone]
      split <;> omega
    · rw [if_neg (by simpa using htype)]
      exact hsingle
  · exact fun _ => hbroadcast
  · intro hu
    rw [hunicast'] at hu
    cases hu
  · intro _
    rw [sentOf_finish_one, hdest, Mac.dataType_of_not hsrc, if_pos rfl, hsent, hcount, hstart,
      List.nil_append, List.length_singleton, Nat.add_comm]

theorem Device.Inv.finish_elect (hinv : d.Inv crc16 cfg) (hloop : Looping cfg d t) {src : Mac}
    {data : List UInt8} (hqueue : d.queue = .recvCb src data :: rest)
    (hunicast : t.unicast = false) {status : Status n} {p : Packet} (hdest : p.dest = src)
    (hphase : (d.finish rest ⟨status, [p]⟩).Phase crc16 cfg)
    (hnumber : p.number = .ofNat (d.sentOf src.dataType).length) :
    (d.finish rest ⟨status, [p]⟩).Inv crc16 cfg := by
  obtain ⟨hsent, hall, -⟩ := hloop.before hunicast
  have hothers : d.unanswered.Perm (d.others rest) := unanswered_queue hqueue
  apply hinv.finish_one hqueue hphase (by rw [hdest]; exact hnumber)
  refine ⟨src, fun m hm hmac => ?_, fun q hq hmac => ?_⟩
  · rcases List.mem_cons.mp hm with rfl | hm
    · exact hdest
    · exact absurd (hall m (hothers.mem_iff.mpr hm)) hmac
  · rcases List.mem_append.mp hq with hq | hq
    · have hin : q ∈ d.sentOf 1 := by
        rw [Device.sentOf, List.mem_filter, decide_eq_true_iff, Mac.dataType_eq_one]
        exact ⟨hq, hmac⟩
      rw [hsent] at hin
      cases hin
    · rw [List.mem_singleton.mp hq]
      exact hdest

theorem Device.Inv.turn (hinv : d.Inv crc16 cfg) (hloop : Looping cfg d t)
    (hqueue : d.queue = e :: rest) {r : Turn n} (h : Takes crc16 t e r) :
    (d.finish rest r).Inv crc16 cfg := by
  cases h with
  | error =>
    apply hinv.finish_nil hqueue
    change ((d.finish rest ⟨.failed, []⟩).sentOf 1).length ≤ _
    rw [sentOf_finish_nil]
    exact hloop.sent_le
  | skip =>
    apply hinv.finish_nil hqueue
    apply (phase_running rfl rfl).mpr
    exact hloop.finish_nil hqueue rfl rfl rfl rfl (.inl rfl)
  | @rebroadcast mac hmac hloud buffer =>
    apply hinv.finish_answer hqueue rfl
    · apply (phase_running rfl rfl).mpr
      exact hloop.finish_answer hqueue rfl rfl rfl rfl rfl (if_pos hmac).symm (absurd hmac)
    · rw [Task.packetTo_number, hloop.seq]
  | @finish mac hmac hcount =>
    apply hinv.finish_nil hqueue
    change ((d.finish rest ⟨.done, []⟩).sentOf 1).length = _
    have hunicast : t.unicast = true := by
      apply Bool.eq_true_of_not_eq_false
      intro hu
      apply hmac
      apply (hloop.before hu).2.1
      rw [(unanswered_queue hqueue).mem_iff]
      exact List.mem_append_left _ List.mem_cons_self
    have hafter := hloop.after hunicast
    rw [hcount, sendsLeft] at hafter
    rw [sentOf_finish_nil]
    exact Nat.succ_injective hafter
  | @again mac hmac hcount buffer =>
    apply hinv.finish_answer hqueue rfl
    · apply (phase_running rfl rfl).mpr
      exact hloop.finish_answer hqueue rfl rfl rfl rfl rfl (if_neg hmac).symm fun _ => hcount
    · rw [Task.packetTo_number, hloop.seq]
  | ignore recv =>
    apply hinv.finish_nil hqueue
    apply (phase_running rfl rfl).mpr
    exact hloop.finish_nil hqueue rfl rfl rfl rfl (.inl rfl)
  | yield recv =>
    apply hinv.finish_nil hqueue
    apply (phase_running rfl rfl).mpr
    exact hloop.finish_nil hqueue rfl rfl rfl rfl (.inr rfl)
  | hear peers hparse =>
    apply hinv.finish_nil hqueue
    apply (phase_running rfl rfl).mpr
    exact hloop.finish_nil hqueue rfl rfl rfl rfl (.inl rfl)
  | @elect mac data recv zeroed peers buffer hparse hstate hunicast hmagic =>
    have hmac : ¬ mac.IsBroadcast := by
      apply hinv.foreign mac data
      rw [hqueue]
      exact List.mem_cons_self
    apply hinv.finish_elect hloop hqueue hunicast rfl
    · apply (phase_running rfl rfl).mpr
      exact hloop.finish_elect hqueue hmac hunicast rfl rfl rfl rfl rfl rfl
    · rw [Task.packetTo_number]
      exact hloop.seq _

end Turn

section Runs

variable {cfg : Config} {d d' : Device n} {t : Task n}

theorem transmit_cases {ok : Bool} {r : Turn n} {data : List UInt8}
    (hdata : t.buffer.read 0 t.param.len = some data) (h : t.transmit ok = some r) :
    r = ⟨.failed, []⟩ ∨ r = ⟨.running t, [⟨t.param.destMac, data⟩]⟩ := by
  rw [Task.transmit, hdata, Option.map_some, Option.some.injEq] at h
  cases ok with
  | false => exact .inl h.symm
  | true => exact .inr h.symm

theorem Fresh.finish (h : Fresh crc16 cfg d t) :
    Looping cfg (d.finish d.queue ⟨.running t, [⟨t.param.destMac,
      packetBytes crc16 startSender t.param⟩]⟩) t := by
  have hdest : Mac.IsBroadcast t.param.destMac := by rw [h.dest]
  have hunanswered := unanswered_finish d d.queue ⟨.running t, [⟨t.param.destMac,
      packetBytes crc16 startSender t.param⟩]⟩
  rw [show d.others d.queue = [] from h.unanswered, List.append_nil, List.map_singleton]
    at hunanswered
  have hnone : ∀ type, d.sentOf type = [] := by
    intro type
    rw [Device.sentOf, h.sent]
    rfl
  constructor
  · exact h.len
  · intro type
    have hseq : ∀ type, startSender.seq type = .ofNat (d.sentOf type).length := by
      intro type
      rw [hnone]
      rfl
    have hnext := seq_finish_one d.queue (.running t)
      (p := ⟨t.param.destMac, packetBytes crc16 startSender t.param⟩) hseq type
    rw [h.sender, ← Mac.dataType_of_broadcast hdest]
    exact hnext
  · intro type
    rw [hunanswered.countP_eq]
    exact List.countP_le_length
  · intro hu
    rw [h.unicast] at hu
    cases hu
  · intro _
    refine ⟨?_, fun mac hmac => ?_, h.count⟩
    · rw [sentOf_finish_one, Mac.dataType_of_broadcast hdest, if_neg (by decide), hnone]
    · rw [hunanswered.mem_iff, List.mem_singleton] at hmac
      rw [hmac]
      exact hdest
  · intro hu
    rw [h.unicast] at hu
    cases hu

theorem Device.Inv.start (hinv : d.Inv crc16 cfg) (h : Fresh crc16 cfg d t) {ok : Bool}
    {r : Turn n} (hr : t.transmit ok = some r) : (d.finish d.queue r).Inv crc16 cfg := by
  have hnone : ∀ type, d.sentOf type = [] := by
    intro type
    rw [Device.sentOf, h.sent]
    rfl
  have hdest : Mac.IsBroadcast t.param.destMac := by rw [h.dest]
  rcases transmit_cases h.data hr with rfl | rfl
  · have hunanswered := unanswered_finish d d.queue ⟨.failed, []⟩
    rw [show d.others d.queue = [] from h.unanswered] at hunanswered
    constructor
    · change ((d.finish d.queue ⟨.failed, []⟩).sentOf 1).length ≤ _
      rw [sentOf_finish_nil, hnone]
      exact Nat.zero_le _
    · intro type
      rw [sentOf_finish_nil]
      exact hinv.numbered type
    · exact hinv.foreign
    · refine ⟨t.param.destMac, fun mac hmac => ?_, fun p hp => ?_⟩
      · cases hunanswered.mem_iff.mp hmac
      · change p ∈ d.sent ++ [] at hp
        rw [h.sent] at hp
        cases hp
  · constructor
    · apply (phase_running rfl rfl).mpr
      exact h.finish
    · apply numbered_finish_one hinv.numbered
      rw [hnone, Packet.number, packetBytes_seq]
      rfl
    · exact hinv.foreign
    · refine ⟨t.param.destMac, fun mac hmac hnot => ?_, fun p hp hnot => ?_⟩
      · have hloop := h.finish
        exact absurd ((hloop.before h.unicast).2.1 mac hmac) hnot
      · change p ∈ d.sent ++ [_] at hp
        rw [h.sent, List.nil_append, List.mem_singleton] at hp
        rw [hp]

theorem Device.Inv.callback (hinv : d.Inv crc16 cfg) {queue : List Event} {pending : List Mac}
    (hforeign : ∀ mac data, .recvCb mac data ∈ queue → ¬ mac.IsBroadcast)
    (hunanswered : ({ d with queue, pending } : Device n).unanswered.Subperm d.unanswered) :
    ({ d with queue, pending } : Device n).Inv crc16 cfg := by
  constructor
  · have hphase := hinv.phase
    unfold Device.Phase at hphase ⊢
    cases hstatus : d.status with
    | done => rwa [hstatus] at hphase
    | failed => rwa [hstatus] at hphase
    | running t =>
      rw [hstatus] at hphase
      cases hstarted : d.started with
      | false =>
        rw [hstarted] at hphase
        have hfresh : Fresh crc16 cfg d t := hphase
        refine ⟨hfresh.len, hfresh.dest, hfresh.data, hfresh.sender, hfresh.unicast,
          hfresh.count, hfresh.sent, ?_⟩
        rw [hfresh.unanswered] at hunanswered
        exact List.subperm_nil.mp hunanswered
      | true =>
        rw [hstarted] at hphase
        have hloop : Looping cfg d t := hphase
        refine ⟨hloop.len, hloop.seq, fun type => ?_, hloop.quiet, fun hu => ?_, hloop.after⟩
        · exact (hunanswered.countP_le _).trans (hloop.single type)
        · obtain ⟨hsent, hall, hcount⟩ := hloop.before hu
          exact ⟨hsent, fun mac hmac => hall mac (hunanswered.subset hmac), hcount⟩
  · exact hinv.numbered
  · exact hforeign
  · obtain ⟨peer, hall, hsent⟩ := hinv.peer
    exact ⟨peer, fun mac hmac => hall mac (hunanswered.subset hmac), hsent⟩

theorem foreign_post {queue : List Event} {e : Event}
    (hforeign : ∀ mac data, .recvCb mac data ∈ queue → ¬ mac.IsBroadcast)
    (he : ∀ mac data, e = .recvCb mac data → ¬ mac.IsBroadcast) :
    ∀ mac data, .recvCb mac data ∈ post queue e → ¬ mac.IsBroadcast := by
  intro mac data hmem
  rcases mem_post hmem with hmem | hmem
  · exact hforeign mac data hmem
  · exact he mac data hmem.symm

theorem Device.Inv.step {a : DeviceAct} (hinv : d.Inv crc16 cfg) (ha : a.Foreign)
    (h : d.step crc16 a = some d') : d'.Inv crc16 cfg := by
  cases a with
  | start env =>
    simp only [Device.step] at h
    split at h
    · rename_i t hstatus hstarted
      obtain ⟨r, hr, rfl⟩ := Option.map_eq_some_iff.mp h
      have hfresh : Fresh crc16 cfg d t := by
        have hphase := hinv.phase
        rwa [Device.Phase, hstatus, hstarted] at hphase
      exact hinv.start hfresh hr
    · cases h
  | receive src data =>
    simp only [Device.step] at h
    split at h
    · cases h
      apply hinv.callback
      · split
        · exact hinv.foreign
        · apply foreign_post hinv.foreign
          intro mac data' he
          cases he
          exact ha
      · rw [unanswered_receive]
    · cases h
  | sendDone mac =>
    simp only [Device.step] at h
    split at h
    · split at h
      · rename_i hmac
        cases h
        apply hinv.callback
        · apply foreign_post hinv.foreign
          intro _ _ he
          cases he
        · exact unanswered_sendDone d hmac
      · cases h
    · cases h
  | turn env =>
    simp only [Device.step] at h
    split at h
    · rename_i t e rest hstatus hstarted hqueue
      obtain ⟨r, hr, rfl⟩ := Option.map_eq_some_iff.mp h
      have hloop := (phase_running hstatus hstarted).mp hinv.phase
      have hlen := cfg.header_le
      have hint := cfg.len_lt
      rw [← hloop.len] at hlen hint
      exact hinv.turn hloop hqueue (Task.turn_takes crc16 hlen hint hr)
    · cases h

theorem Device.Inv.run {as : List DeviceAct} (hinv : d.Inv crc16 cfg)
    (hforeign : ∀ a ∈ as, a.Foreign) (hrun : exec (Device.step crc16) d as = some d') :
    d'.Inv crc16 cfg :=
  (allSteps_of_forall hforeign d).exec_inv (fun _ _ _ hs ha => hs.step ha) hinv hrun

/-- The task has stopped broadcasting, or there is none any more. -/
def Device.Silent (d : Device n) : Prop :=
  ∀ t, d.status = .running t → d.started = true ∧ t.broadcast = false

theorem Device.Inv.silent (hinv : d.Inv crc16 cfg) (hsent : d.sentOf 1 ≠ []) : d.Silent := by
  intro t hstatus
  cases hstarted : d.started with
  | false =>
    exfalso
    have hphase := hinv.phase
    rw [Device.Phase, hstatus, hstarted] at hphase
    have hfresh : Fresh crc16 cfg d t := hphase
    apply hsent
    rw [Device.sentOf, hfresh.sent]
    rfl
  | true =>
    have hloop := (phase_running hstatus hstarted).mp hinv.phase
    refine ⟨rfl, hloop.quiet (Bool.eq_true_of_not_eq_false fun hu => ?_)⟩
    exact hsent (hloop.before hu).1

/-- No turn of a silent task sends a broadcast or starts them again. -/
theorem silent_turn (hinv : d.Inv crc16 cfg) (hbroadcast : t.broadcast = false) {e : Event}
    {rest : List Event} (hqueue : d.queue = e :: rest) {r : Turn n} (h : Takes crc16 t e r) :
    (∀ t', r.status = .running t' → t'.broadcast = false) ∧
      ∀ p ∈ r.sent, ¬ p.dest.IsBroadcast := by
  cases h with
  | error =>
    refine ⟨fun t' ht => ?_, fun p hp => ?_⟩
    · cases ht
    · cases hp
  | skip =>
    refine ⟨fun t' ht => ?_, fun p hp => ?_⟩
    · cases ht
      exact hbroadcast
    · cases hp
  | rebroadcast hmac hloud =>
    rw [hbroadcast] at hloud
    cases hloud
  | finish =>
    refine ⟨fun t' ht => ?_, fun p hp => ?_⟩
    · cases ht
    · cases hp
  | again hmac =>
    refine ⟨fun t' ht => ?_, fun p hp => ?_⟩
    · cases ht
      exact hbroadcast
    · rw [List.mem_singleton.mp hp]
      exact hmac
  | ignore =>
    refine ⟨fun t' ht => ?_, fun p hp => ?_⟩
    · cases ht
      exact hbroadcast
    · cases hp
  | yield =>
    refine ⟨fun t' ht => ?_, fun p hp => ?_⟩
    · cases ht
      rfl
    · cases hp
  | hear =>
    refine ⟨fun t' ht => ?_, fun p hp => ?_⟩
    · cases ht
      exact hbroadcast
    · cases hp
  | @elect mac data =>
    refine ⟨fun t' ht => ?_, fun p hp => ?_⟩
    · cases ht
      rfl
    · rw [List.mem_singleton.mp hp]
      apply hinv.foreign mac data
      rw [hqueue]
      exact List.mem_cons_self

theorem silent_step {a : DeviceAct} (hinv : d.Inv crc16 cfg) (hsilent : d.Silent)
    (h : d.step crc16 a = some d') : d'.Silent ∧ d'.sentOf 0 = d.sentOf 0 := by
  cases a with
  | start env =>
    simp only [Device.step] at h
    split at h
    · rename_i t hstatus hstarted
      have hyes := (hsilent t hstatus).1
      rw [hstarted] at hyes
      cases hyes
    · cases h
  | receive src data =>
    simp only [Device.step] at h
    split at h
    · cases h
      exact ⟨hsilent, rfl⟩
    · cases h
  | sendDone mac =>
    simp only [Device.step] at h
    split at h
    · split at h
      · cases h
        exact ⟨hsilent, rfl⟩
      · cases h
    · cases h
  | turn env =>
    simp only [Device.step] at h
    split at h
    · rename_i t e rest hstatus hstarted hqueue
      obtain ⟨r, hr, rfl⟩ := Option.map_eq_some_iff.mp h
      have hloop := (phase_running hstatus hstarted).mp hinv.phase
      have hlen := cfg.header_le
      have hint := cfg.len_lt
      rw [← hloop.len] at hlen hint
      obtain ⟨hquiet, hsent⟩ := silent_turn hinv (hsilent t hstatus).2 hqueue
        (Task.turn_takes crc16 hlen hint hr)
      constructor
      · intro t' ht'
        exact ⟨rfl, hquiet t' ht'⟩
      · rw [sentOf_finish, List.filter_eq_nil_iff.mpr, List.append_nil]
        intro p hp
        rw [Mac.dataType_of_not (hsent p hp)]
        decide
    · cases h

theorem silent_run {as : List DeviceAct} (hinv : d.Inv crc16 cfg) (hsilent : d.Silent)
    (hforeign : ∀ a ∈ as, a.Foreign) (hrun : exec (Device.step crc16) d as = some d') :
    d'.sentOf 0 = d.sentOf 0 := by
  let Quiet (u : Device n) : Prop :=
    u.Inv crc16 cfg ∧ u.Silent ∧ u.sentOf 0 = d.sentOf 0
  have hstep : ∀ u a v, Quiet u → a.Foreign → u.step crc16 a = some v → Quiet v := by
    intro u a v hu ha huv
    obtain ⟨hsilent', hsent⟩ := silent_step hu.1 hu.2.1 huv
    exact ⟨hu.1.step ha huv, hsilent', hsent.trans hu.2.2⟩
  have hquiet : Quiet d' :=
    (allSteps_of_forall hforeign d).exec_inv hstep ⟨hinv, hsilent, rfl⟩ hrun
  exact hquiet.2.2

end Runs

/-- Two packets of ten bytes. -/
def twoPackets : Config := ⟨2, 10, by decide, by decide⟩

def peerMac : Mac := ⟨[0x98, 0x3d, 0xae, 0xab, 0xe5, 0x94], rfl⟩

/-- A broadcast of a device that has heard one, with the magic number 5. -/
def heardBroadcast : List UInt8 := [0, 1, 0, 0, 0, 0, 5, 0, 0, 0]

def allGood : Env := ⟨true, true, true⟩

/-- The device hears of its peer, becomes the sender and has its first unicast packet reported. -/
def electionRun : List DeviceAct :=
  [.start allGood, .sendDone ⟨broadcastMac, broadcastMac_length⟩, .receive peerMac heardBroadcast,
    .turn allGood, .turn allGood, .sendDone peerMac]

/-- The second packet is sent and reported, and so is the last broadcast. -/
def finishRun : List DeviceAct :=
  [.turn allGood, .sendDone peerMac, .sendDone ⟨broadcastMac, broadcastMac_length⟩, .turn allGood]

theorem electionRun_foreign : ∀ a ∈ electionRun ++ finishRun, a.Foreign := by
  simp only [electionRun, finishRun, List.cons_append, List.nil_append, List.forall_mem_cons,
    DeviceAct.Foreign, true_and]
  exact ⟨by decide, List.forall_mem_nil _⟩

end TcpIot.Esp32
