import Mathlib.Data.List.Count
import Mathlib.Logic.Function.Iterate
import TcpIot.Esp32.EspnowBasic
import TcpIot.Server.Text

/-!
# A sender board and its buttons

`loop` fills `myData` field by field and sends it. A button interrupts it between any two
statements, and the handler fills the same `myData` with a command and sends that. What the loop
sends after an interrupt is torn: the fields it had set before are those of the handler.
-/

namespace TcpIot.Arduino

open Framework

/-- `struct_message`: the fields of `my_data_t`, at the same offsets. -/
abbrev StructMessage := Esp32.MyData

/-- The next statement of `loop`; `wait` is the test of the interval. -/
inductive Place where
  | wait | id | temp | hum | readingId | extraCmd | send
deriving DecidableEq

namespace Place

def next : Place → Place
  | wait => id
  | id => temp
  | temp => hum
  | hum => readingId
  | readingId => extraCmd
  | extraCmd => send
  | send => wait

/-- How many fields the loop has set. -/
def done : Place → Nat
  | wait | id => 0
  | temp => 1
  | hum => 2
  | readingId => 3
  | extraCmd => 4
  | send => 5

end Place

inductive BoardEvent where
  /-- `loop` executes a statement. -/
  | loop
  /-- A rising edge at a button; `high` is what `digitalRead` returns. -/
  | edge (high : Bool)
deriving DecidableEq

structure Board where
  myData : StructMessage
  t : Int32
  h : Int32
  readingId : UInt32
  place : Place
  /-- What has been passed to `esp_now_send`, by a handler or by `loop`. -/
  sent : List (Bool × StructMessage)

/-- What a handler puts into `myData`. -/
def pressed : StructMessage := ⟨3, 0, 0, 3, 74⟩

/-- `Handler`, and `Handler1` and `Handler2`. -/
def Board.handler (b : Board) (high : Bool) : Board :=
  if high then { b with myData := pressed, sent := b.sent ++ [(true, pressed)] } else b

section Board

variable (boardId : Int32) (readDHTTemperature readDHTHumidity : Int32 → Int32)

/-- The next statement of `loop`. The two functions compute with `float`s. -/
def Board.loop (b : Board) : Board :=
  let b' : Board := match b.place with
    | .wait => b
    | .id => { b with myData := { b.myData with id := boardId } }
    | .temp =>
      let t := readDHTTemperature b.t
      { b with myData := { b.myData with temp := t }, t := t }
    | .hum =>
      let h := readDHTHumidity b.h
      { b with myData := { b.myData with hum := h }, h := h }
    | .readingId =>
      { b with
        myData := { b.myData with readingId := b.readingId }
        readingId := b.readingId + 1 }
    | .extraCmd => { b with myData := { b.myData with extraCmd := 0 } }
    | .send => { b with sent := b.sent ++ [(false, b.myData)] }
  { b' with place := b.place.next }

def Board.step (b : Board) : BoardEvent → Board
  | .loop => b.loop boardId readDHTTemperature readDHTHumidity
  | .edge high => b.handler high

/-- The board behind `setup`. -/
def Board.start (t h : Int32) : Board := ⟨.zero, t, h, 0, .wait, []⟩

/-- The `k`-th reading. -/
def reading (t h : Int32) (k : Nat) : StructMessage where
  id := boardId
  temp := readDHTTemperature^[k + 1] t
  hum := readDHTHumidity^[k + 1] h
  readingId := .ofNat k
  extraCmd := 0

end Board

/-- A message whose first `c` fields a handler has overwritten. -/
def torn (c : Nat) (d : StructMessage) : StructMessage where
  id := if 0 < c then pressed.id else d.id
  temp := if 1 < c then pressed.temp else d.temp
  hum := if 2 < c then pressed.hum else d.hum
  readingId := if 3 < c then pressed.readingId else d.readingId
  extraCmd := if 4 < c then pressed.extraCmd else d.extraCmd

/-- For every message that `loop` sends, how many fields it had set when a handler last interrupted
it; `c` is that number for the message in preparation. -/
def cuts : Place → Nat → List BoardEvent → List Nat
  | _, _, [] => []
  | place, _, .edge true :: events => cuts place place.done events
  | place, c, .edge false :: events => cuts place c events
  | .send, c, .loop :: events => c :: cuts .wait 0 events
  | place, c, .loop :: events => cuts place.next c events

/-- Consecutive readings from the `k`-th on. -/
def messages (reading : Nat → StructMessage) : Nat → List Nat → List StructMessage
  | _, [] => []
  | k, c :: cs => torn c (reading k) :: messages reading (k + 1) cs

/-- The packets of the handlers, or those of `loop`. -/
def Board.sentBy (b : Board) (handler : Bool) : List StructMessage :=
  (b.sent.filter fun p => p.1 = handler).map Prod.snd

section Runs

variable {boardId : Int32} {temp hum : Int32 → Int32} {t h : Int32} {k c : Nat} {b : Board}

/-- While `loop` prepares the `k`-th reading, the fields it has set are as they will be sent. -/
structure Prepares (boardId : Int32) (temp hum : Int32 → Int32) (t h : Int32) (k c : Nat)
    (b : Board) : Prop where
  cut : c ≤ b.place.done
  temps : b.t = temp^[if 1 < b.place.done then k + 1 else k] t
  hums : b.h = hum^[if 2 < b.place.done then k + 1 else k] h
  count : b.readingId = .ofNat (if 3 < b.place.done then k + 1 else k)
  setId : 0 < b.place.done → b.myData.id = (torn c (reading boardId temp hum t h k)).id
  setTemp : 1 < b.place.done → b.myData.temp = (torn c (reading boardId temp hum t h k)).temp
  setHum : 2 < b.place.done → b.myData.hum = (torn c (reading boardId temp hum t h k)).hum
  setReadingId : 3 < b.place.done →
    b.myData.readingId = (torn c (reading boardId temp hum t h k)).readingId
  setExtraCmd : 4 < b.place.done →
    b.myData.extraCmd = (torn c (reading boardId temp hum t h k)).extraCmd

namespace Prepares

theorem start : Prepares boardId temp hum t h 0 0 (.start t h) where
  cut := Nat.le_refl 0
  temps := rfl
  hums := rfl
  count := rfl
  setId hset := absurd hset (Nat.lt_irrefl 0)
  setTemp hset := absurd hset (Nat.not_lt_zero 1)
  setHum hset := absurd hset (Nat.not_lt_zero 2)
  setReadingId hset := absurd hset (Nat.not_lt_zero 3)
  setExtraCmd hset := absurd hset (Nat.not_lt_zero 4)

theorem edge (hb : Prepares boardId temp hum t h k c b) :
    Prepares boardId temp hum t h k b.place.done (b.handler true) where
  cut := Nat.le_refl _
  temps := hb.temps
  hums := hb.hums
  count := hb.count
  setId hset := (if_pos hset).symm
  setTemp hset := (if_pos hset).symm
  setHum hset := (if_pos hset).symm
  setReadingId hset := (if_pos hset).symm
  setExtraCmd hset := (if_pos hset).symm

theorem loop (hb : Prepares boardId temp hum t h k c b) (hplace : b.place ≠ .send) :
    Prepares boardId temp hum t h k c (b.loop boardId temp hum) := by
  obtain ⟨hcut, htemps, hhums, hcount, hid, htemp, hhum, hreadingId, hextraCmd⟩ := hb
  obtain ⟨myData, t', h', readingId, place, sent⟩ := b
  cases place with
  | send => exact absurd rfl hplace
  | wait => exact ⟨hcut, htemps, hhums, hcount, hid, htemp, hhum, hreadingId, hextraCmd⟩
  | id =>
    have hnot : ¬ 0 < c := Nat.not_lt.mpr hcut
    constructor
    case cut => exact Nat.le_succ_of_le hcut
    all_goals simp_all [Board.loop, Place.next, Place.done, torn, reading]
  | temp =>
    have hnot : ¬ 1 < c := Nat.not_lt.mpr hcut
    constructor
    case cut => exact Nat.le_succ_of_le hcut
    all_goals simp_all [Board.loop, Place.next, Place.done, torn, reading,
      Function.iterate_succ_apply']
  | hum =>
    have hnot : ¬ 2 < c := Nat.not_lt.mpr hcut
    constructor
    case cut => exact Nat.le_succ_of_le hcut
    all_goals simp_all [Board.loop, Place.next, Place.done, torn, reading,
      Function.iterate_succ_apply']
  | readingId =>
    have hnot : ¬ 3 < c := Nat.not_lt.mpr hcut
    constructor
    case cut => exact Nat.le_succ_of_le hcut
    all_goals simp_all [Board.loop, Place.next, Place.done, torn, reading,
      Function.iterate_succ_apply']
  | extraCmd =>
    have hnot : ¬ 4 < c := Nat.not_lt.mpr hcut
    constructor
    case cut => exact Nat.le_succ_of_le hcut
    all_goals simp_all [Board.loop, Place.next, Place.done, torn, reading,
      Function.iterate_succ_apply']

theorem send (hb : Prepares boardId temp hum t h k c b) (hplace : b.place = .send) :
    b.myData = torn c (reading boardId temp hum t h k) ∧
      Prepares boardId temp hum t h (k + 1) 0 (b.loop boardId temp hum) := by
  obtain ⟨hcut, htemps, hhums, hcount, hid, htemp, hhum, hreadingId, hextraCmd⟩ := hb
  obtain ⟨myData, t', h', readingId, place, sent⟩ := b
  obtain rfl : place = .send := hplace
  have hset : ∀ n < 5, n < Place.done .send := fun n hn => hn
  constructor
  · exact Esp32.MyData.ext (hid (hset 0 (by decide))) (htemp (hset 1 (by decide)))
      (hhum (hset 2 (by decide))) (hreadingId (hset 3 (by decide))) (hextraCmd (hset 4 (by decide)))
  · constructor
    all_goals simp_all [Board.loop, Place.next, Place.done]

end Prepares

theorem sentBy_append (b : Board) (p : Bool × StructMessage) (handler : Bool) :
    Board.sentBy { b with sent := b.sent ++ [p] } handler =
      b.sentBy handler ++ if p.1 = handler then [p.2] else [] := by
  unfold Board.sentBy
  rw [List.filter_append, List.map_append]
  congr 1
  by_cases hp : p.1 = handler
  · simp [hp]
  · simp [hp]

theorem cuts_loop {place : Place} (hplace : place ≠ .send) (c : Nat) (events : List BoardEvent) :
    cuts place c (.loop :: events) = cuts place.next c events := by
  cases place with
  | send => exact absurd rfl hplace
  | wait | id | temp | hum | readingId | extraCmd => rfl

theorem loop_place (b : Board) : (b.loop boardId temp hum).place = b.place.next := rfl

theorem loop_sentBy (b : Board) (handler : Bool) :
    (b.loop boardId temp hum).sentBy handler =
      b.sentBy handler ++ if b.place = .send ∧ handler = false then [b.myData] else [] := by
  obtain ⟨myData, t, h, readingId, place, sent⟩ := b
  cases place with
  | wait | id | temp | hum | readingId | extraCmd => exact (List.append_nil _).symm
  | send =>
    rw [Board.loop]
    refine (sentBy_append _ _ handler).trans ?_
    cases handler with
    | true => rfl
    | false => rfl

theorem run_sentBy_loop (hb : Prepares boardId temp hum t h k c b) (events : List BoardEvent) :
    (events.foldl (Board.step boardId temp hum) b).sentBy false =
      b.sentBy false ++ messages (reading boardId temp hum t h) k (cuts b.place c events) := by
  induction events generalizing k c b with
  | nil => exact (List.append_nil _).symm
  | cons event events ih =>
    rw [List.foldl_cons]
    cases event with
    | edge high =>
      cases high with
      | false => exact ih hb
      | true =>
        rw [Board.step, ih hb.edge]
        congr 1
        exact (sentBy_append _ _ false).trans (List.append_nil _)
    | loop =>
      by_cases hplace : b.place = .send
      · obtain ⟨hsent, hnext⟩ := hb.send hplace
        rw [Board.step, ih hnext, loop_sentBy, if_pos ⟨hplace, rfl⟩, loop_place, hplace, hsent,
          List.append_assoc]
        rfl
      · rw [Board.step, ih (hb.loop hplace), loop_sentBy, if_neg (hplace ·.1), loop_place,
          cuts_loop hplace, List.append_nil]

theorem run_sentBy_handler (b : Board) (events : List BoardEvent) :
    (events.foldl (Board.step boardId temp hum) b).sentBy true =
      b.sentBy true ++ List.replicate (events.count (.edge true)) pressed := by
  induction events generalizing b with
  | nil => exact (List.append_nil _).symm
  | cons event events ih =>
    rw [List.foldl_cons, ih]
    cases event with
    | loop =>
      rw [Board.step, loop_sentBy, if_neg (by simp), List.append_nil]
      rfl
    | edge high =>
      cases high with
      | false => rfl
      | true =>
        have hpress : (b.handler true).sentBy true = b.sentBy true ++ [pressed] :=
          sentBy_append _ _ true
        rw [Board.step, hpress, List.append_assoc, List.count_cons_self, Nat.add_comm,
          List.replicate_add]
        rfl

end Runs

/-- `sprintf((char *)msg2, "%u %4.2f %4.2f %d %d", ..)`; `printFloat` is the conversion of a
`float`. -/
def text (printFloat : Int32 → List UInt8) (d : StructMessage) : List UInt8 :=
  Server.decimal d.id.toUInt32.toNat ++ 32 :: printFloat d.temp ++ 32 :: printFloat d.hum ++
    32 :: Server.decimal d.readingId.toInt32.toInt ++ 32 :: Server.decimal d.extraCmd.toInt

/-- `OnDataRecv`: the command and the text that it passes to `send_msg`; undefined when the packet
is shorter than the message or the text does not fit `msg2`. -/
def onDataRecv (printFloat : Int32 → List UInt8) (incomingData : List UInt8) :
    Option (UInt8 × List UInt8) :=
  if incomingData.length < Esp32.MyData.size then none
  else
    let incomingReadings : StructMessage := .ofBytes incomingData
    let msg2 := text printFloat incomingReadings
    if msg2.length < 200 then some (if incomingReadings.extraCmd = 74 then 74 else 73, msg2)
    else none

theorem text_length_lt {printFloat : Int32 → List UInt8}
    (hprint : ∀ x, (printFloat x).length ≤ 43) (d : StructMessage) :
    (text printFloat d).length < 200 := by
  have hunsigned : (Server.decimal d.id.toUInt32.toNat).length ≤ 10 :=
    (Server.decimal_natCast_length_le (by decide)).mpr
      (Nat.lt_trans d.id.toUInt32.toNat_lt (by decide))
  have hsigned (x : Int32) : (Server.decimal x.toInt).length ≤ 11 := by
    have hlow := x.le_toInt
    have hhigh := x.toInt_lt
    refine (@Server.decimal_length_le 10 (by decide) _).mpr ?_
    omega
  have htemp := hprint d.temp
  have hhum := hprint d.hum
  have hreadingId := hsigned d.readingId.toInt32
  have hextraCmd := hsigned d.extraCmd
  simp only [text, List.length_append, List.length_cons]
  omega

theorem onDataRecv_bytes {printFloat : Int32 → List UInt8}
    (hprint : ∀ x, (printFloat x).length ≤ 43) (d : StructMessage) :
    onDataRecv printFloat d.bytes =
      some (if d.extraCmd = 74 then 74 else 73, text printFloat d) := by
  have hlength : ¬ d.bytes.length < Esp32.MyData.size := by
    rw [d.bytes_length]
    exact Nat.lt_irrefl _
  rw [onDataRecv, if_neg hlength]
  simp only [d.ofBytes_bytes, text_length_lt hprint d, if_true]

theorem countP_messages {r : Nat → StructMessage} (hr : ∀ k, (r k).extraCmd = 0) (k : Nat)
    (cs : List Nat) :
    (messages r k cs).countP (fun d => d.extraCmd = 74) = cs.countP (fun c => 4 < c) := by
  induction cs generalizing k with
  | nil => rfl
  | cons c cs ih =>
    have hcmd : (torn c (r k)).extraCmd = 74 ↔ 4 < c := by
      by_cases hc : 4 < c
      · simp [torn, pressed, hc]
      · simp [torn, hc, hr]
    rw [messages, List.countP_cons, List.countP_cons, ih]
    simp only [hcmd]

/-- For every order of the loop's statements and the interrupts: a handler sends one command for
each press, the messages of `loop` are the readings in order, each torn by the last interrupt
since its first statement, and the receiver passes on a command for each press and once more for
each reading that was interrupted right before it was sent. -/
theorem board_commands (boardId : Int32) (temp hum : Int32 → Int32) (t h : Int32)
    (printFloat : Int32 → List UInt8) (hprint : ∀ x, (printFloat x).length ≤ 43)
    (events : List BoardEvent) (b : Board)
    (hrun : events.foldl (Board.step boardId temp hum) (.start t h) = b) :
    b.sentBy true = List.replicate (events.count (.edge true)) pressed ∧
    b.sentBy false = messages (reading boardId temp hum t h) 0 (cuts .wait 0 events) ∧
    (b.sent.map fun p => (onDataRecv printFloat p.2.bytes).map Prod.fst).count (some 74) =
      events.count (.edge true) + (cuts .wait 0 events).countP (fun c => 4 < c) := by
  have hhandler : b.sentBy true = List.replicate (events.count (.edge true)) pressed := by
    rw [← hrun, run_sentBy_handler]
    rfl
  have hloop : b.sentBy false = messages (reading boardId temp hum t h) 0 (cuts .wait 0 events) := by
    rw [← hrun, run_sentBy_loop Prepares.start]
    rfl
  refine ⟨hhandler, hloop, ?_⟩
  have hcmd (p : Bool × StructMessage) :
      ((onDataRecv printFloat p.2.bytes).map Prod.fst == some 74) = decide (p.2.extraCmd = 74) := by
    rw [onDataRecv_bytes hprint, Option.map_some]
    by_cases hp : p.2.extraCmd = 74
    · simp [hp]
    · simp [hp]
  have hsplit : b.sent.countP (fun p => p.2.extraCmd = 74) =
      (b.sentBy true).countP (fun d => d.extraCmd = 74) +
        (b.sentBy false).countP (fun d => d.extraCmd = 74) := by
    rw [Board.sentBy, Board.sentBy, List.countP_map, List.countP_map,
      List.countP_eq_countP_filter_add _ _ fun p => decide (p.1 = true)]
    congr 3
    funext p
    cases p.1 with
    | true => rfl
    | false => rfl
  rw [List.count, List.countP_map]
  simp only [Function.comp_def, hcmd]
  rw [hsplit, hhandler, hloop, countP_messages fun _ => rfl, List.countP_replicate,
    if_pos (by decide)]

/-- A press right before the first reading is sent. -/
def latePress : List BoardEvent := List.replicate 6 .loop ++ [.edge true, .loop]

/-- Board 2 with its temperature 0.01 and its humidity 0.02, and then 0.04 and 0.07. -/
theorem board_commands_twice :
    ((latePress.foldl (Board.step 2 (fun _ => 0x3D23D70A) fun _ => 0x3D8F5C29)
        (.start 0x3C23D70A 0x3CA3D70A)).sent.map fun p =>
      (onDataRecv (fun _ => Server.ascii "0.00") p.2.bytes).map Prod.fst).count (some 74) = 2 :=
  (board_commands 2 (fun _ => 0x3D23D70A) (fun _ => 0x3D8F5C29) 0x3C23D70A 0x3CA3D70A
    (fun _ => Server.ascii "0.00") (fun _ => by decide) latePress _ rfl).2.2

end TcpIot.Arduino
