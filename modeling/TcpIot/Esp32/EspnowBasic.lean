import TcpIot.Framework.BoundedQueue
import TcpIot.Framework.Layout

/-!
# Slaves and their master

A slave wakes up, broadcasts one packet and goes to deep sleep. The master's callback puts a packet
of the right length into a queue of ten without waiting, and its task takes the packets from there
to `my_data_receive`. What is in the air may be lost, repeated and overtaken.
-/

namespace TcpIot.Esp32

open Framework

/-- `my_data_t`, with the two `float`s as their bits. -/
@[ext] structure MyData where
  id : Int32
  temp : Int32
  hum : Int32
  readingId : UInt32
  extraCmd : Int32
deriving DecidableEq

namespace MyData

/-- `sizeof(my_data_t)`, packed. -/
def size : Nat := 20

def words (d : MyData) : List Int32 := [d.id, d.temp, d.hum, d.readingId.toInt32, d.extraCmd]

def bytes (d : MyData) : List UInt8 := d.words.flatMap intBytes

/-- The record that lies in these bytes. -/
def ofBytes (l : List UInt8) : MyData :=
  ⟨intAt l 0, intAt l 4, intAt l 8, (intAt l 12).toUInt32, intAt l 16⟩

theorem bytes_length (d : MyData) : d.bytes.length = size := flatMap_length intBytes_length d.words

theorem ofBytes_bytes (d : MyData) : ofBytes d.bytes = d := by
  have hword (k : Nat) : intAt d.bytes (4 * k) = d.words.getD k 0 := intAt_flatMap d.words k
  rw [ofBytes]
  congr 1
  · exact hword 0
  · exact hword 1
  · exact hword 2
  · exact congrArg Int32.toUInt32 (hword 3)
  · exact hword 4

def zero : MyData := ⟨0, 0, 0, 0, 0⟩

end MyData

/-- What a slave keeps in memory that deep sleep does not preserve: `iter` and `extra_cmd` of
`my_slave.c`, `data` of `send_espnow_data`. -/
structure SlaveRam where
  iter : UInt32
  extraCmd : Int32
  data : MyData
deriving DecidableEq

/-- A wake-up from deep sleep is a reset. -/
def SlaveRam.reset : SlaveRam := ⟨0, 0, .zero⟩

def myDataPopulate (r : SlaveRam) : SlaveRam where
  iter := r.iter + 1
  extraCmd := r.extraCmd + 1
  data := { r.data with readingId := r.iter, extraCmd := r.extraCmd }

inductive EspErr where
  | ok | fail | timeout
deriving DecidableEq

/-- The memory, the packet and the return value; `accepted` is that of `esp_now_send`, `success`
and `failed` are the bits the wait ends with. -/
def sendEspnowData (accepted success failed : Bool) (r : SlaveRam) :
    SlaveRam × Option (List UInt8) × EspErr :=
  let r := myDataPopulate r
  if accepted then
    (r, some r.data.bytes, if success then .ok else if failed then .fail else .timeout)
  else (r, none, .fail)

/-- `recv_packet_t`. -/
structure RecvPacket where
  senderMacAddr : Buffer 6
  data : MyData
deriving DecidableEq

structure Master where
  /-- The `static recv_packet` of `recv_cb`. -/
  recvPacket : RecvPacket
  /-- `s_recv_queue`, and what has gone to `my_data_receive`. -/
  queue : BoundedQueue RecvPacket

/-- The length of `s_recv_queue`. -/
def queueLength : Nat := 10

def recvCb (m : Master) (macAddr : Buffer 6) (data : List UInt8) : Master :=
  if data.length ≠ MyData.size then m
  else
    let recvPacket : RecvPacket := ⟨macAddr, .ofBytes data⟩
    ⟨recvPacket, m.queue.offer queueLength recvPacket⟩

/-- A turn of `queue_process_task`. -/
def queueProcessTask (m : Master) : Option Master :=
  m.queue.take.map fun queue => { m with queue := queue }

structure Field where
  air : List (Buffer 6 × List UInt8)
  master : Master

def Field.start (recvPacket : RecvPacket) : Field := ⟨[], recvPacket, .empty⟩

inductive FieldEvent where
  /-- `app_main` of a slave, from the wake-up to deep sleep. -/
  | wake (slave : Buffer 6) (accepted success failed : Bool)
  /-- The master's radio has a packet: one of a slave, or of any other device. -/
  | heard (macAddr : Buffer 6) (data : List UInt8)
  | process
deriving DecidableEq

/-- `slaves` tells the addresses of the slaves. What a slave leaves in its memory is lost when it
wakes up again. -/
def Field.step (slaves : Buffer 6 → Bool) (w : Field) : FieldEvent → Option Field
  | .wake slave accepted success failed =>
    if slaves slave then
      let sent := sendEspnowData accepted success failed .reset
      some { w with air := w.air ++ sent.2.1.toList.map (slave, ·) }
    else none
  | .heard macAddr data =>
    if slaves macAddr → (macAddr, data) ∈ w.air then
      some { w with master := recvCb w.master macAddr data }
    else none
  | .process => (queueProcessTask w.master).map fun master => { w with master := master }

/-- What the event does to the queue. -/
def FieldEvent.op : FieldEvent → Option (QueueOp RecvPacket)
  | .wake _ _ _ _ => none
  | .heard macAddr data =>
    if data.length = MyData.size then some (.offer ⟨macAddr, .ofBytes data⟩) else none
  | .process => some .take

/-- The packets of the right length that have reached the master. -/
def arrivals (events : List FieldEvent) : List RecvPacket :=
  offered (events.filterMap FieldEvent.op)

/-- How many packets have gone to `my_data_receive`. -/
def processed (events : List FieldEvent) : Nat := takes (events.filterMap FieldEvent.op)

section Steps

variable {slaves : Buffer 6 → Bool} {w w' : Field} {event : FieldEvent}

theorem Field.step_queue (h : w.step slaves event = some w') :
    exec (BoundedQueue.step queueLength) w.master.queue event.op.toList =
      some w'.master.queue := by
  cases event with
  | wake slave accepted success failed =>
    simp only [Field.step] at h
    split at h
    · cases h
      rfl
    · cases h
  | heard macAddr data =>
    simp only [Field.step] at h
    split at h
    · cases h
      by_cases hlen : data.length = MyData.size
      · simp [FieldEvent.op, recvCb, hlen, BoundedQueue.step]
      · simp [FieldEvent.op, recvCb, hlen]
    · cases h
  | process =>
    obtain ⟨master, htake, rfl⟩ := Option.map_eq_some_iff.mp h
    obtain ⟨queue, hqueue, rfl⟩ := Option.map_eq_some_iff.mp htake
    simp [FieldEvent.op, BoundedQueue.step, hqueue]

/-- A packet of a slave holds what a slave has right after its wake-up. -/
structure Field.Honest (slaves : Buffer 6 → Bool) (w : Field) : Prop where
  air : ∀ p ∈ w.air, p.2 = MyData.zero.bytes
  kept : ∀ p ∈ w.master.queue.kept, slaves p.senderMacAddr → p.data = .zero

namespace Field.Honest

theorem start (recvPacket : RecvPacket) : Honest slaves (.start recvPacket) where
  air p hp := by cases hp
  kept p hp := by cases hp

theorem offer (h : Honest slaves w) {p : RecvPacket}
    (hp : slaves p.senderMacAddr → p.data = .zero) :
    ∀ r ∈ (w.master.queue.offer queueLength p).kept, slaves r.senderMacAddr → r.data = .zero := by
  intro r hr
  rw [BoundedQueue.offer_kept] at hr
  split at hr
  · obtain hr | hr := List.mem_append.mp hr
    · exact h.kept r hr
    · rw [List.mem_singleton.mp hr]
      exact hp
  · exact h.kept r hr

theorem step (h : Honest slaves w) (hstep : w.step slaves event = some w') : Honest slaves w' := by
  cases event with
  | wake slave accepted success failed =>
    simp only [Field.step] at hstep
    split at hstep
    · cases hstep
      refine { h with air := fun p hp => ?_ }
      obtain hp | hp := List.mem_append.mp hp
      · exact h.air p hp
      · obtain ⟨bytes, hbytes, rfl⟩ := List.mem_map.mp hp
        cases accepted with
        | true => exact List.mem_singleton.mp hbytes
        | false => cases hbytes
    · cases hstep
  | heard macAddr data =>
    simp only [Field.step] at hstep
    split at hstep
    · rename_i hair
      cases hstep
      unfold recvCb
      split
      · exact { h with }
      · refine { h with kept := h.offer fun hslave => ?_ }
        have hbytes : data = MyData.zero.bytes := h.air _ (hair hslave)
        rw [hbytes]
        exact MyData.ofBytes_bytes .zero
    · cases hstep
  | process =>
    obtain ⟨master, htake, rfl⟩ := Option.map_eq_some_iff.mp hstep
    obtain ⟨queue, hqueue, rfl⟩ := Option.map_eq_some_iff.mp htake
    have hkept : queue.kept = w.master.queue.kept := (BoundedQueue.take_kept hqueue).1
    exact { h with kept := fun p hp => h.kept p (hkept ▸ hp) }

end Field.Honest

end Steps

end TcpIot.Esp32
