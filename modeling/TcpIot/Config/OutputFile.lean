import TcpIot.Framework.Layout
import TcpIot.Queue.OllistMap

/-!
# The output configuration file

The file is the byte 0xAA and then the records as they lie in memory, by position only. The list
reader inserts one record after the other while it reads, and never looks at what `read` returns.
-/

namespace TcpIot.Config

open Framework Queue

variable {Addr Addr' : Type*}

/-- `NUM_PORT_BITS`. -/
def numPortBits : Nat := 20

/-- `sizeof(O_DATA)`: the label, two bytes of padding and nine `int`s. -/
def oDataSize : Nat := 68

/-- `id` of a valid file. -/
def fileId : UInt8 := 0xAA

/-- The `int`s of a record, in the order of their declaration. -/
def numbers (d : OData) : List Int32 :=
  [d.port, d.onoff, d.inputPort, d.inputType, d.type, d.timeDelay, d.timeLeft, d.pulseTime, d.reset]

/-- A record as it lies in memory; `pad` are the bytes between the label and the first `int`. -/
def image (pad : Buffer 2) (d : OData) : List UInt8 :=
  d.label.bytes ++ (pad.bytes ++ (numbers d).flatMap intBytes)

/-- The record that lies in these bytes. -/
def oData (l : List UInt8) : OData where
  label := .padded 30 (l.take 30)
  port := intAt l 32
  onoff := intAt l 36
  inputPort := intAt l 40
  inputType := intAt l 44
  type := intAt l 48
  timeDelay := intAt l 52
  timeLeft := intAt l 56
  pulseTime := intAt l 60
  reset := intAt l 64

theorem image_length (pad : Buffer 2) (d : OData) : (image pad d).length = oDataSize := by
  rw [image, List.length_append, List.length_append, flatMap_length intBytes_length,
    Buffer.bytes_length, Buffer.bytes_length]
  rfl

theorem oData_image (pad : Buffer 2) (d : OData) : oData (image pad d) = d := by
  have hlabel : Buffer.padded 30 ((image pad d).take 30) = d.label := by
    rw [image, List.take_left' d.label.bytes_length, Buffer.padded_self]
  have hnumber (k : Nat) : intAt (image pad d) (30 + (2 + 4 * k)) = (numbers d).getD k 0 := by
    rw [image, intAt_append d.label.bytes_length, intAt_append pad.bytes_length, intAt_flatMap]
  rw [oData, hlabel]
  congr 1
  · exact hnumber 0
  · exact hnumber 1
  · exact hnumber 2
  · exact hnumber 3
  · exact hnumber 4
  · exact hnumber 5
  · exact hnumber 6
  · exact hnumber 7
  · exact hnumber 8

/-- What the uninitialised locals of a reader hold. -/
structure Locals where
  id : UInt8
  oData : Buffer oDataSize

structure LoadResult (Addr : Type*) where
  status : Int
  errmsg : String
  oll : Ollist Addr

section Loading

variable [Fintype Addr] [DecidableEq Addr]

/-- The loop of `olLoadConfig` at record `i`, with `n` records to go; `malloc` returns the blocks
`fresh i` there. -/
def loadLoop (fresh : Nat → Addr × Addr) :
    Nat → Nat → Buffer oDataSize → List UInt8 → Ollist Addr → Option (Ollist Addr)
  | 0, _, _, _, oll => some oll
  | n + 1, i, buf, rest, oll =>
    let buf := buf.overwrite rest
    (oll.insertData i (oData buf.bytes) (fresh i).1 (fresh i).2).bind
      (loadLoop fresh n (i + 1) buf (rest.drop oDataSize))

/-- `file` is the text of `strerror` when `open` fails, else the content. -/
def olLoadConfig (file : Except String (List UInt8)) (stale : Locals) (fresh : Nat → Addr × Addr)
    (oll : Ollist Addr) : Option (LoadResult Addr) :=
  match file with
  | .error err => some ⟨-2, err, oll⟩
  | .ok content =>
    if content.headD stale.id ≠ fileId then
      some ⟨-1, "invalid file format - id is not 0x55", oll⟩
    else
      (loadLoop fresh numPortBits 0 stale.oData content.tail oll).map fun oll =>
        ⟨0, "Success", oll⟩

end Loading

/-- The status, `errmsg` and the array. -/
def oLoadConfig {n : Nat} (file : Except String (List UInt8)) (staleId : UInt8)
    (currOArray : Buffer n) : Int × String × Buffer n :=
  match file with
  | .error err => (-2, err, currOArray)
  | .ok content =>
    if content.headD staleId ≠ fileId then
      (-1, "invalid file format - id is not 0x55", currOArray)
    else (0, "Success", currOArray.overwrite content.tail)

section Writing

variable [Fintype Addr]

/-- `write(fp, pio, sizeof(O_DATA))`, which fails at `NULL`; `pads` is the padding of a record. -/
def writeRecord (pads : Addr → Buffer 2) (oll : Ollist Addr) : Option Addr → Option (List UInt8)
  | none => some []
  | some pio => (oll.data pio).map (image (pads pio))

/-- The loop of `olWriteConfig`. -/
def writeLoop (pads : Addr → Buffer 2) (oll : Ollist Addr) : List Nat → Option (List UInt8)
  | [] => some []
  | i :: is =>
    (oll.findData i).bind fun found =>
    (writeRecord pads oll found.2).bind fun written =>
      (writeLoop pads oll is).map (written ++ ·)

/-- The status, `errmsg` and the file; `creat` is the text of `strerror` when `open` fails. -/
def olWriteConfig (creat : Option String) (pads : Addr → Buffer 2) (oll : Ollist Addr)
    (size : Nat) : Option (Int × String × Option (List UInt8)) :=
  match creat with
  | some err => some (-2, err, none)
  | none =>
    (writeLoop pads oll (List.range (size / oDataSize))).map fun written =>
      (0, "Success", some (fileId :: written))

end Writing

/-- The record of the `i`-th turn of the loop. -/
def recordRead (buf : Buffer oDataSize) (rest : List UInt8) (i : Nat) : OData :=
  oData (buf.reads rest (i + 1)).bytes

/-- The inserts of the loop. -/
def loads (fresh : Nat → Addr × Addr) :
    Nat → Nat → Buffer oDataSize → List UInt8 → List (Update Addr)
  | 0, _, _, _ => []
  | n + 1, i, buf, rest =>
    .insert i (oData (buf.overwrite rest).bytes) (fresh i).1 (fresh i).2 ::
      loads fresh n (i + 1) (buf.overwrite rest) (rest.drop oDataSize)

theorem recordAfter_loads (fresh : Nat → Addr × Addr) (n start : Nat) (buf : Buffer oDataSize)
    (rest : List UInt8) (i : Nat) (r : Option OData) :
    recordAfter i r (loads fresh n start buf rest) =
      if start ≤ i ∧ i < start + n then some (recordRead buf rest (i - start)) else r := by
  induction n generalizing start buf rest r with
  | zero =>
    rw [if_neg (by omega)]
    rfl
  | succ n ih =>
    rw [loads, recordAfter_cons, ih, Update.index, Update.effect]
    rcases lt_trichotomy start i with hlt | rfl | hgt
    · have hshift : recordRead buf rest (i - start) =
          recordRead (buf.overwrite rest) (rest.drop oDataSize) (i - (start + 1)) := by
        obtain ⟨k, rfl⟩ : ∃ k, i = start + 1 + k := ⟨i - (start + 1), by omega⟩
        rw [recordRead, Buffer.reads_succ_left, recordRead]
        congr 3
        omega
      rw [hshift, if_neg (show ¬ (start : Int) = i by omega)]
      exact if_congr (by omega) rfl rfl
    · rw [if_neg (by omega), if_pos rfl, if_pos (by omega), Nat.sub_self]
      rfl
    · rw [if_neg (by omega), if_neg (show ¬ (start : Int) = i by omega), if_neg (by omega)]

/-- A lookup of `i` finds the record `d`. -/
def Finds [Fintype Addr] (oll : Ollist Addr) (i : Int) (d : OData) : Prop :=
  ∃ datap, oll.findData i = some (0, some datap) ∧ oll.data datap = some d

theorem finds_iff [Fintype Addr] {l : Ollist Addr} {es : List (Entry Addr)} (h : Lists l es)
    {i : Int} {d : OData} : Finds l i d ↔ recordAt es i = some d := by
  constructor
  · rintro ⟨datap, hfind, hdata⟩
    rw [h.findData] at hfind
    cases hlookup : lookup Entry.index i es with
    | none =>
      rw [hlookup] at hfind
      cases hfind
    | some e =>
      rw [hlookup] at hfind
      cases hfind
      rw [recordAt, hlookup, Option.map_some]
      exact (h.records e (lookup_eq_some hlookup).1).symm.trans hdata
  · exact h.find_record

section Loaded

variable [Fintype Addr] [DecidableEq Addr]

theorem loadLoop_eq (fresh : Nat → Addr × Addr) (n i : Nat) (buf : Buffer oDataSize)
    (rest : List UInt8) (oll : Ollist Addr) :
    loadLoop fresh n i buf rest oll = exec Ollist.update oll (loads fresh n i buf rest) := by
  induction n generalizing i buf rest oll with
  | zero => rfl
  | succ n ih =>
    rw [loadLoop, loads, exec_cons, Ollist.update]
    congr 1
    exact funext fun next => ih _ _ _ next

/-- `malloc` returns blocks that are not live, for a reader of this content. -/
def Mallocs (fresh : Nat → Addr × Addr) (stale : Locals) (content : List UInt8)
    (oll : Ollist Addr) : Prop :=
  AllSteps Ollist.update Allocates oll (loads fresh numPortBits 0 stale.oData content.tail)

instance (fresh : Nat → Addr × Addr) (stale : Locals) (content : List UInt8) (oll : Ollist Addr) :
    Decidable (Mallocs fresh stale content oll) :=
  decidableAllSteps Allocates oll (loads fresh numPortBits 0 stale.oData content.tail)

/-- Behind the id byte the load always succeeds, and every index finds what its turn has read. -/
theorem olLoadConfig_found {l : Ollist Addr} {es : List (Entry Addr)} (h : Lists l es)
    {fresh : Nat → Addr × Addr} {stale : Locals} {content : List UInt8}
    (hmalloc : Mallocs fresh stale content l) (hid : content.headD stale.id = fileId) :
    ∃ oll, olLoadConfig (.ok content) stale fresh l = some ⟨0, "Success", oll⟩ ∧
      ∀ i : Nat, i < numPortBits → ∀ d,
        Finds oll i d ↔ d = recordRead stale.oData content.tail i := by
  obtain ⟨oll, es', hrun, hlists, hrecords⟩ := h.updates hmalloc
  refine ⟨oll, ?_, fun i hi d => ?_⟩
  · simp only [olLoadConfig, hid, ne_eq, not_true_eq_false, if_false, loadLoop_eq, hrun,
      Option.map_some]
  · rw [finds_iff hlists, hrecords, recordAfter_loads, if_pos (by omega), Option.some_inj,
      Nat.sub_zero]
    exact eq_comm

theorem olLoadConfig_rejected (l : Ollist Addr) (fresh : Nat → Addr × Addr) {stale : Locals}
    {content : List UInt8} (hid : content.headD stale.id ≠ fileId) :
    olLoadConfig (.ok content) stale fresh l =
      some ⟨-1, "invalid file format - id is not 0x55", l⟩ := by
  rw [olLoadConfig, if_pos hid]

end Loaded

/-- The id byte and behind it all records. -/
def Complete (content : List UInt8) : Prop :=
  content.head? = some fileId ∧ oDataSize * numPortBits ≤ content.tail.length

instance (content : List UInt8) : Decidable (Complete content) :=
  inferInstanceAs (Decidable (_ ∧ _))

/-- The `i`-th record of a file. -/
def recordOf (content : List UInt8) (i : Nat) : OData :=
  oData ((content.tail.drop (oDataSize * i)).take oDataSize)

theorem recordRead_full {buf : Buffer oDataSize} {rest : List UInt8} {i : Nat}
    (h : oDataSize * (i + 1) ≤ rest.length) :
    recordRead buf rest i = oData ((rest.drop (oDataSize * i)).take oDataSize) := by
  rw [recordRead, buf.reads_full h]

theorem recordRead_complete {buf : Buffer oDataSize} {content : List UInt8}
    (h : oDataSize * numPortBits ≤ content.tail.length) {i : Nat} (hi : i < numPortBits) :
    recordRead buf content.tail i = recordOf content i :=
  recordRead_full ((Nat.mul_le_mul_left oDataSize hi).trans h)

section Accepting

variable [Fintype Addr]

/-- Exactly the complete files are accepted, all of their records are stored, and a file that is
not accepted changes nothing. -/
structure AcceptsComplete (content : List UInt8) (oll : Ollist Addr) (r : LoadResult Addr) :
    Prop where
  accepts : r.status = 0 ↔ Complete content
  stores : Complete content → ∀ i : Nat, i < numPortBits → Finds r.oll i (recordOf content i)
  rejects : ¬ Complete content → r.status < 0 ∧ r.oll = oll

variable [DecidableEq Addr]

def LoadLaw (content : List UInt8) (stale : Locals) (fresh : Nat → Addr × Addr)
    (oll : Ollist Addr) : Prop :=
  ∃ r, olLoadConfig (.ok content) stale fresh oll = some r ∧ AcceptsComplete content oll r

/-- For every content, every prior list and whatever the locals of the call hold: the law holds
exactly when the id that is read is wrong or the file is complete. -/
theorem olLoadConfig_accepts_iff {l : Ollist Addr} {es : List (Entry Addr)} (h : Lists l es)
    (content : List UInt8) (stale : Locals) (fresh : Nat → Addr × Addr)
    (hmalloc : Mallocs fresh stale content l) :
    LoadLaw content stale fresh l ↔ content.headD stale.id ≠ fileId ∨ Complete content := by
  by_cases hid : content.headD stale.id = fileId
  · obtain ⟨oll, hload, hfound⟩ := olLoadConfig_found h hmalloc hid
    rw [LoadLaw, hload]
    constructor
    · rintro ⟨r, hr, hlaw⟩
      cases hr
      exact .inr (hlaw.accepts.mp rfl)
    · intro hok
      have hcomplete := hok.resolve_left (not_not.mpr hid)
      refine ⟨_, rfl, iff_of_true rfl hcomplete, fun _ i hi => ?_, (absurd hcomplete ·)⟩
      exact (hfound i hi _).mpr (recordRead_complete hcomplete.2 hi).symm
  · refine iff_of_true ⟨_, olLoadConfig_rejected l fresh hid, ?_⟩ (.inl hid)
    have hincomplete : ¬ Complete content := by
      rintro ⟨hhead, -⟩
      rw [List.headD_eq_head?_getD, hhead] at hid
      exact hid rfl
    have hneg : (-1 : Int) < 0 := by decide
    exact ⟨iff_of_false hneg.ne hincomplete, (absurd · hincomplete), fun _ => ⟨hneg, rfl⟩⟩

end Accepting

/-- An empty memory of twenty addresses. -/
def freeMemory : Ollist (Fin 20) := ⟨none, fun _ => none, fun _ => none⟩

/-- Record `i` gets the blocks at address `i`. -/
def inTurn (i : Nat) : Fin 20 × Fin 20 := (Fin.ofNat 20 i, Fin.ofNat 20 i)

def zeroLocals : Locals := ⟨0, .zero oDataSize⟩

theorem olLoadConfig_accepts_iff_zeros :
    LoadLaw (fileId :: List.replicate 1360 0) zeroLocals inTurn freeMemory.init ↔
      (fileId :: List.replicate 1360 0).headD zeroLocals.id ≠ fileId ∨
        Complete (fileId :: List.replicate 1360 0) :=
  olLoadConfig_accepts_iff (Lists.init freeMemory) (fileId :: List.replicate 1360 0) zeroLocals
    inTurn (by decide +kernel)

/-- A file of the id byte alone is accepted, and twenty copies of the uninitialised record are
stored. -/
theorem truncated_file_accepted :
    (∃ r ∈ olLoadConfig (.ok [fileId]) zeroLocals inTurn freeMemory.init,
      r.status = 0 ∧ r.errmsg = "Success" ∧ ∀ i : Fin 20, r.oll.findData i = some (0, some i)) ∧
    ¬ LoadLaw [fileId] zeroLocals inTurn freeMemory.init := by
  have hrun : ∃ r ∈ olLoadConfig (.ok [fileId]) zeroLocals inTurn freeMemory.init,
      r.status = 0 ∧ r.errmsg = "Success" ∧
        ∀ i : Fin 20, r.oll.findData i = some (0, some i) := by
    decide +kernel
  refine ⟨hrun, ?_⟩
  obtain ⟨r, hload, hstatus, -⟩ := hrun
  rintro ⟨r', hload', hlaw⟩
  cases Option.some.inj (hload.symm.trans hload')
  exact absurd (hlaw.accepts.mp hstatus) (by decide)

end TcpIot.Config
