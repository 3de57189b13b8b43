import TcpIot.Esp32.EspnowDevice
import Mathlib.Data.Fintype.Basic

/-!
# The negotiation between ESP-NOW devices

Any number of devices that run `example_espnow_task` and hear nothing but each other. A packet
that was sent may be heard by any other device, any number of times, at any later moment or
never. The broadcasts carry whether their sender has heard one and its magic number; a device
starts unicast data when it hears of another one that has heard a broadcast and whose number is
not above its own.
-/

namespace TcpIot.Esp32

open Framework

variable {n : Nat} {D : Type*} {crc16 : UInt16 → List UInt8 → UInt16}

/-- What the devices are built with: their addresses and the numbers `esp_random` gives them. -/
structure Network (D : Type*) where
  cfg : Config
  mac : D → Mac
  magic : D → UInt32
  mac_injective : Function.Injective mac
  mac_foreign : ∀ i, ¬ (mac i).IsBroadcast

abbrev World (D : Type*) (n : Nat) := D → Device n

namespace Network

variable (net : Network D)

/-- Every device behind `example_espnow_init`. -/
def Starts (crc16 : UInt16 → List UInt8 → UInt16) (w : World D net.cfg.memory) : Prop :=
  ∀ i, ∃ memory, initDevice crc16 net.cfg (net.magic i) memory = some (w i)

/-- The data was sent by another device. -/
def FromOther (w : World D n) (i : D) (src : Mac) (data : List UInt8) : Prop :=
  ∃ j, j ≠ i ∧ src = net.mac j ∧ ∃ p ∈ (w j).sent, p.data = data

/-- A device receives only what another one has sent. -/
def Closed (w : World D n) (a : D × DeviceAct) : Prop :=
  match a.2 with
  | .receive src data => net.FromOther w a.1 src data
  | _ => True

instance [Fintype D] [DecidableEq D] (w : World D n) (i : D) (src : Mac) (data : List UInt8) :
    Decidable (net.FromOther w i src data) :=
  inferInstanceAs (Decidable (∃ j, j ≠ i ∧ src = net.mac j ∧ ∃ p ∈ (w j).sent, p.data = data))

instance [Fintype D] [DecidableEq D] (w : World D n) (a : D × DeviceAct) :
    Decidable (net.Closed w a) :=
  match a with
  | (i, .receive src data) => inferInstanceAs (Decidable (net.FromOther w i src data))
  | (_, .start _) | (_, .sendDone _) | (_, .turn _) => isTrue trivial

/-- The states of the network. -/
def Reachable [DecidableEq D] (crc16 : UInt16 → List UInt8 → UInt16)
    (w : World D net.cfg.memory) : Prop :=
  ∃ start, net.Starts crc16 start ∧
    Framework.Reachable (netStep fun _ => Device.step crc16) net.Closed start w

/-- Another device has broadcast. -/
def HeardOf (w : World D n) (i : D) : Prop :=
  ∃ j, j ≠ i ∧ ∃ p ∈ (w j).sent, p.dest.IsBroadcast

/-- The address belongs to another device that has broadcast that it had heard a broadcast, and
whose magic number is not above this device's. -/
def Answers (w : World D n) (i : D) (mac : Mac) : Prop :=
  ∃ j, j ≠ i ∧ mac = net.mac j ∧ net.magic j ≤ net.magic i ∧
    ∃ p ∈ (w j).sent, p.dest.IsBroadcast ∧ p.state = 1

/-- What is known of a packet that a device has sent. -/
structure Genuine (crc16 : UInt16 → List UInt8 → UInt16) (w : World D n) (i : D) (p : Packet) :
    Prop where
  made : ∃ s q, p.data = packetBytes crc16 s q ∧ q.magic = net.magic i ∧ q.destMac = p.dest ∧
    q.len = net.cfg.len
  addressed : ¬ p.dest.IsBroadcast → net.Answers w i p.dest
  state : p.state ≠ 0 → HeardOf w i

/-- What is known of a device among the others. -/
structure Known (crc16 : UInt16 → List UInt8 → UInt16) (w : World D n) (i : D) (d : Device n) :
    Prop where
  device : d.Inv crc16 net.cfg
  magic : ∀ t, d.status = .running t → t.param.magic = net.magic i
  heard : ∀ t, d.status = .running t → t.param.state ≠ 0 → HeardOf w i
  genuine : ∀ p ∈ d.sent, net.Genuine crc16 w i p
  queued : ∀ src data, .recvCb src data ∈ d.queue → net.FromOther w i src data
  answers : ∀ mac ∈ d.unanswered, ¬ mac.IsBroadcast → net.Answers w i mac

def Inv (crc16 : UInt16 → List UInt8 → UInt16) (w : World D n) : Prop :=
  ∀ i, net.Known crc16 w i (w i)

section Later

variable {net} {w v : World D n} {i : D}

/-- All of it stays true as packets are added. -/
def Later (w v : World D n) : Prop := ∀ i, (w i).sent ⊆ (v i).sent

theorem HeardOf.later (h : HeardOf w i) (hlater : Later w v) : HeardOf v i := by
  obtain ⟨j, hj, p, hp, hdest⟩ := h
  exact ⟨j, hj, p, hlater j hp, hdest⟩

theorem Answers.later {mac : Mac} (h : net.Answers w i mac) (hlater : Later w v) :
    net.Answers v i mac := by
  obtain ⟨j, hj, hmac, hmagic, p, hp, hstate⟩ := h
  exact ⟨j, hj, hmac, hmagic, p, hlater j hp, hstate⟩

theorem FromOther.later {src : Mac} {data : List UInt8} (h : net.FromOther w i src data)
    (hlater : Later w v) : net.FromOther v i src data := by
  obtain ⟨j, hj, hsrc, p, hp, hdata⟩ := h
  exact ⟨j, hj, hsrc, p, hlater j hp, hdata⟩

theorem Genuine.later {p : Packet} (h : net.Genuine crc16 w i p) (hlater : Later w v) :
    net.Genuine crc16 v i p :=
  ⟨h.made, fun hdest => (h.addressed hdest).later hlater, fun hstate =>
    (h.state hstate).later hlater⟩

theorem Known.later {d : Device n} (h : net.Known crc16 w i d) (hlater : Later w v) :
    net.Known crc16 v i d where
  device := h.device
  magic := h.magic
  heard t ht hstate := (h.heard t ht hstate).later hlater
  genuine p hp := (h.genuine p hp).later hlater
  queued src data hmem := (h.queued src data hmem).later hlater
  answers mac hmac hnot := (h.answers mac hmac hnot).later hlater

end Later

section Turn

variable {net} {w : World D n} {i : D} {t : Task n}

theorem Inv.parsed (h : net.Inv crc16 w) {src : Mac} {data : List UInt8}
    (hfrom : net.FromOther w i src data) {old recv : Fields} {zeroed : Buffer data.length}
    (hparse : Esp32.parse crc16 ⟨data, rfl⟩ (.ofInt data.length) old = some (0, recv, zeroed)) :
    HeardOf w i ∧ (recv.state = 1 → recv.magic ≤ net.magic i → net.Answers w i src) := by
  obtain ⟨j, hj, hsrc, p, hp, hdata⟩ := hfrom
  obtain ⟨s, q, hbytes, hmagic, hdest, hlen⟩ := ((h j).genuine p hp).made
  have hheader := net.cfg.header_le
  have hint := net.cfg.len_lt
  rw [← hlen] at hheader hint
  obtain ⟨zeroed', hparsed⟩ := parse_packetBytes crc16 (s := s) hheader hint old
  obtain rfl : data = packetBytes crc16 s q := hdata.symm.trans hbytes
  rw [hparsed, Option.some.injEq, Prod.mk.injEq, Prod.mk.injEq] at hparse
  obtain ⟨htype, rfl, -⟩ := hparse
  have hbroadcast : p.dest.IsBroadcast := by
    have hzero : q.dataType = 0 := Fin.ext (Int.ofNat_inj.mp htype)
    rw [← hdest]
    by_contra hnot
    rw [SendParam.dataType, if_neg hnot] at hzero
    cases hzero
  refine ⟨⟨j, hj, p, hp, hbroadcast⟩, fun hstate hle => ⟨j, hj, hsrc, ?_, p, hp, hbroadcast, ?_⟩⟩
  · rw [← hmagic]
    exact hle
  · rw [Packet.state, hbytes]
    exact hstate

theorem genuine_packetTo {mac : Mac} (hmagic : t.param.magic = net.magic i)
    (hlen : t.param.len = net.cfg.len) (haddressed : ¬ mac.IsBroadcast → net.Answers w i mac)
    (hstate : t.param.state ≠ 0 → HeardOf w i) :
    net.Genuine crc16 w i (t.packetTo crc16 mac) :=
  ⟨⟨_, _, rfl, hmagic, rfl, hlen⟩, haddressed, hstate⟩

/-- What a turn adds to the network is known of it. -/
theorem Inv.turn (h : net.Inv crc16 w) (hstatus : (w i).status = .running t)
    (hloop : Looping net.cfg (w i) t) {e : Event} {rest : List Event}
    (hqueue : (w i).queue = e :: rest) {r : Turn n} (htakes : Takes crc16 t e r) :
    (∀ t', r.status = .running t' →
      t'.param.magic = net.magic i ∧ (t'.param.state ≠ 0 → HeardOf w i)) ∧
    ∀ p ∈ r.sent, net.Genuine crc16 w i p := by
  have hmagic := (h i).magic t hstatus
  have hheard := (h i).heard t hstatus
  have hanswer : ∀ mac, e = .sendCb mac → ¬ mac.IsBroadcast → net.Answers w i mac := by
    intro mac he hmac
    apply (h i).answers mac _ hmac
    rw [(unanswered_queue hqueue).mem_iff, he]
    exact List.mem_append_left _ List.mem_cons_self
  have hfrom : ∀ src data, e = .recvCb src data → net.FromOther w i src data := by
    intro src data he
    apply (h i).queued src data
    rw [hqueue, he]
    exact List.mem_cons_self
  cases htakes with
  | error | finish =>
    refine ⟨fun t' ht => ?_, fun p hp => ?_⟩
    · cases ht
    · cases hp
  | skip | ignore | yield =>
    refine ⟨fun t' ht => ?_, fun p hp => ?_⟩
    · cases ht
      exact ⟨hmagic, hheard⟩
    · cases hp
  | @rebroadcast mac hmac =>
    refine ⟨fun t' ht => ?_, fun p hp => ?_⟩
    · cases ht
      exact ⟨hmagic, hheard⟩
    · rw [List.mem_singleton.mp hp]
      exact genuine_packetTo hmagic hloop.len (absurd hmac) hheard
  | @again mac hmac =>
    refine ⟨fun t' ht => ?_, fun p hp => ?_⟩
    · cases ht
      exact ⟨hmagic, hheard⟩
    · rw [List.mem_singleton.mp hp]
      exact genuine_packetTo hmagic hloop.len (hanswer mac rfl) hheard
  | @hear mac data recv zeroed peers hparse =>
    obtain ⟨hof, -⟩ := h.parsed (hfrom mac data rfl) hparse
    refine ⟨fun t' ht => ?_, fun p hp => ?_⟩
    · cases ht
      exact ⟨hmagic, fun _ => hof⟩
    · cases hp
  | @elect mac data recv zeroed peers buffer hparse hstate hunicast hle =>
    obtain ⟨hof, hother⟩ := h.parsed (hfrom mac data rfl) hparse
    refine ⟨fun t' ht => ?_, fun p hp => ?_⟩
    · cases ht
      exact ⟨hmagic, fun _ => hof⟩
    · rw [List.mem_singleton.mp hp]
      exact genuine_packetTo hmagic hloop.len (fun _ => hother hstate (hmagic ▸ hle)) fun _ => hof

end Turn

section Runs

variable {net} {w v : World D n} {i : D}

theorem Starts.inv {w : World D net.cfg.memory} (h : net.Starts crc16 w) : net.Inv crc16 w := by
  intro i
  obtain ⟨memory, hinit⟩ := h i
  obtain ⟨t, hstatus, -, hqueue, hparam, hfresh⟩ := initDevice_fresh hinit
  constructor
  · exact initDevice_inv hinit
  · intro t' ht'
    rw [hstatus] at ht'
    cases ht'
    rw [hparam]
    rfl
  · intro t' ht' hstate
    rw [hstatus] at ht'
    cases ht'
    rw [hparam] at hstate
    exact absurd rfl hstate
  · intro p hp
    rw [hfresh.sent] at hp
    cases hp
  · intro src data hmem
    rw [hqueue] at hmem
    cases hmem
  · intro mac hmac
    rw [hfresh.unanswered] at hmac
    cases hmac

theorem Known.finish (h : net.Known crc16 w i (w i)) {queue : List Event} {r : Turn n}
    (hqueue : ∀ e ∈ queue, e ∈ (w i).queue) (hdevice : ((w i).finish queue r).Inv crc16 net.cfg)
    (htask : ∀ t, r.status = .running t →
      t.param.magic = net.magic i ∧ (t.param.state ≠ 0 → HeardOf w i))
    (hsent : ∀ p ∈ r.sent, net.Genuine crc16 w i p) :
    net.Known crc16 w i ((w i).finish queue r) := by
  constructor
  · exact hdevice
  · exact fun t ht => (htask t ht).1
  · exact fun t ht => (htask t ht).2
  · intro p hp
    rcases List.mem_append.mp hp with hp | hp
    · exact h.genuine p hp
    · exact hsent p hp
  · exact fun src data hmem => h.queued src data (hqueue _ hmem)
  · intro mac hmac hnot
    rcases List.mem_append.mp ((unanswered_finish _ queue r).mem_iff.mp hmac) with hmac | hmac
    · obtain ⟨p, hp, rfl⟩ := List.mem_map.mp hmac
      exact (hsent p hp).addressed hnot
    · apply h.answers mac _ hnot
      rcases List.mem_append.mp hmac with hmac | hmac
      · exact List.mem_append_left _ hmac
      · obtain ⟨e, he, hreported⟩ := List.mem_filterMap.mp hmac
        exact List.mem_append_right _ (List.mem_filterMap.mpr ⟨e, hqueue e he, hreported⟩)

theorem Known.callback (h : net.Known crc16 w i (w i)) {queue : List Event} {pending : List Mac}
    (hdevice : ({ w i with queue, pending } : Device n).Inv crc16 net.cfg)
    (hqueued : ∀ src data, .recvCb src data ∈ queue → net.FromOther w i src data)
    (hunanswered : ∀ mac ∈ ({ w i with queue, pending } : Device n).unanswered,
      mac ∈ (w i).unanswered) :
    net.Known crc16 w i { w i with queue, pending } where
  device := hdevice
  magic := h.magic
  heard := h.heard
  genuine := h.genuine
  queued := hqueued
  answers mac hmac := h.answers mac (hunanswered mac hmac)

theorem Closed.foreign {a : D × DeviceAct} (h : net.Closed w a) : a.2.Foreign := by
  obtain ⟨i, a⟩ := a
  cases a with
  | receive src data =>
    obtain ⟨j, -, hsrc, -⟩ := h
    change ¬ src.IsBroadcast
    rw [hsrc]
    exact net.mac_foreign j
  | start | sendDone | turn => trivial

theorem Device.step_sent {d d' : Device n} {a : DeviceAct} (h : d.step crc16 a = some d') :
    d.sent ⊆ d'.sent := by
  cases a with
  | start env | turn env =>
    simp only [Device.step] at h
    split at h
    · obtain ⟨r, -, rfl⟩ := Option.map_eq_some_iff.mp h
      exact List.subset_append_left ..
    · cases h
  | receive src data =>
    simp only [Device.step] at h
    split at h
    · cases h
      exact List.Subset.refl _
    · cases h
  | sendDone mac =>
    simp only [Device.step] at h
    split at h
    · split at h
      · cases h
        exact List.Subset.refl _
      · cases h
    · cases h

theorem Inv.step_known (h : net.Inv crc16 w) {a : DeviceAct} (hclosed : net.Closed w (i, a))
    {d' : Device n} (hstep : (w i).step crc16 a = some d') : net.Known crc16 w i d' := by
  have hdevice : d'.Inv crc16 net.cfg := (h i).device.step hclosed.foreign hstep
  cases a with
  | start env =>
    simp only [Device.step] at hstep
    split at hstep
    · rename_i t hstatus hstarted
      obtain ⟨r, hr, rfl⟩ := Option.map_eq_some_iff.mp hstep
      have hfresh : Fresh crc16 net.cfg (w i) t := by
        have hphase := (h i).device.phase
        rwa [Device.Phase, hstatus, hstarted] at hphase
      have htask := And.intro ((h i).magic t hstatus) ((h i).heard t hstatus)
      apply (h i).finish (fun e he => he) hdevice
      · intro t' ht'
        rcases transmit_cases hfresh.data hr with rfl | rfl
        · cases ht'
        · cases ht'
          exact htask
      · intro p hp
        rcases transmit_cases hfresh.data hr with rfl | rfl
        · cases hp
        · rw [List.mem_singleton.mp hp]
          refine ⟨⟨_, _, rfl, htask.1, rfl, hfresh.len⟩, fun hnot => ?_, htask.2⟩
          rw [hfresh.dest] at hnot
          exact absurd rfl hnot
    · cases hstep
  | receive src data =>
    simp only [Device.step] at hstep
    split at hstep
    · cases hstep
      apply (h i).callback hdevice
      · intro src' data' hmem
        split at hmem
        · exact (h i).queued src' data' hmem
        · rcases mem_post hmem with hmem | hmem
          · exact (h i).queued src' data' hmem
          · cases hmem
            exact hclosed
      · intro mac hmac
        rwa [unanswered_receive] at hmac
    · cases hstep
  | sendDone mac =>
    simp only [Device.step] at hstep
    split at hstep
    · split at hstep
      · rename_i hmac
        cases hstep
        apply (h i).callback hdevice
        · intro src data hmem
          rcases mem_post hmem with hmem | hmem
          · exact (h i).queued src data hmem
          · cases hmem
        · exact fun mac' hmac' => (unanswered_sendDone _ hmac).subset hmac'
      · cases hstep
    · cases hstep
  | turn env =>
    simp only [Device.step] at hstep
    split at hstep
    · rename_i t e rest hstatus hstarted hqueue
      obtain ⟨r, hr, rfl⟩ := Option.map_eq_some_iff.mp hstep
      have hloop := (phase_running hstatus hstarted).mp (h i).device.phase
      have hlen := net.cfg.header_le
      have hint := net.cfg.len_lt
      rw [← hloop.len] at hlen hint
      obtain ⟨htask, hsent⟩ := h.turn hstatus hloop hqueue (Task.turn_takes crc16 hlen hint hr)
      apply (h i).finish _ hdevice htask hsent
      intro e' he'
      rw [hqueue]
      exact List.mem_cons_of_mem e he'
    · cases hstep

theorem Inv.step [DecidableEq D] (h : net.Inv crc16 w) {a : D × DeviceAct} (hclosed : net.Closed w a)
    (hstep : netStep (fun _ => Device.step crc16) w a = some v) : net.Inv crc16 v := by
  have hlater : Later w v :=
    netStep_mono (R := fun d d' : Device n => d.sent ⊆ d'.sent) (fun _ => List.Subset.refl _)
      (fun _ => Device.step_sent) hstep
  obtain ⟨i, a⟩ := a
  have hknown := netStep_local (P := fun j d => net.Known crc16 w j d)
    (fun d' hd' _ => h.step_known hclosed hd') h hstep
  exact fun j => (hknown j).later hlater

theorem Reachable.inv [DecidableEq D] {w : World D net.cfg.memory} (h : net.Reachable crc16 w) :
    net.Inv crc16 w := by
  obtain ⟨start, hstart, hreach⟩ := h
  exact hreach.inv (fun _ _ _ hs hclosed hstep => hs.step hclosed hstep) hstart.inv

end Runs

end Network

/-- The two boards, with the magic numbers 5 and 7. -/
def twoBoards : Network Bool where
  cfg := twoPackets
  mac i := if i then peerMac else ⟨[0x98, 0x3d, 0xae, 0xab, 0xcb, 0x38], rfl⟩
  magic i := if i then 7 else 5
  mac_injective := by decide
  mac_foreign := by decide

def twoBoardsStart : World Bool twoPackets.memory := fun i =>
  (initDevice (fun _ _ => 0) twoPackets (twoBoards.magic i) (Buffer.zero _)).get
    (initDevice_isSome ..)

/-- The second board hears that the first one has heard it. -/
def twoBoardsRun : List (Bool × DeviceAct) :=
  [(true, .start allGood), (false, .start allGood),
    (false, .receive (twoBoards.mac true) [0, 0, 0, 0, 0, 0, 7, 0, 0, 0]), (false, .turn allGood),
    (false, .sendDone ⟨broadcastMac, broadcastMac_length⟩), (false, .turn allGood),
    (true, .receive (twoBoards.mac false) [0, 1, 1, 0, 0, 0, 5, 0, 0, 0]), (true, .turn allGood)]

end TcpIot.Esp32
