import TcpIot.Config.OutputRoundTrip

/-!
# The outputs in memory and on disk

The program loads the file into the list at its start. The list and the array have a reader and a
writer each. Over any sequence of these calls and of changes to the list, the file, the list and
the array are compared with three tables of records that are copied as a whole.
-/

namespace TcpIot.Config

open Framework Queue

/-- The loop of `oWriteConfig`; undefined behind the array. -/
def arrayLoop {n : Nat} (currOArray : Buffer n) : List Nat → Option (List UInt8)
  | [] => some []
  | i :: is =>
    (currOArray.read (oDataSize * i : Nat) oDataSize).bind fun written =>
      (arrayLoop currOArray is).map (written ++ ·)

/-- The status, `errmsg` and the file. -/
def oWriteConfig {n : Nat} (creat : Option String) (currOArray : Buffer n) (size : Nat) :
    Option (Int × String × Option (List UInt8)) :=
  match creat with
  | some err => some (-2, err, none)
  | none =>
    (arrayLoop currOArray (List.range (size / oDataSize))).map fun written =>
      (0, "Success", some (fileId :: written))

/-- `GetFileFormat`, which never closes the file. -/
def getFileFormat (file : Except String (List UInt8)) (staleId : UInt8) : Int :=
  match file with
  | .error _ => -2
  | .ok content => if content.headD staleId = fileId then 1 else -1

theorem arrayLoop_eq {n : Nat} (currOArray : Buffer n) {k : Nat} (hk : oDataSize * k ≤ n) :
    arrayLoop currOArray (List.range k) = some (currOArray.bytes.take (oDataSize * k)) := by
  have hloop (is : List Nat) (his : ∀ i ∈ is, i < k) :
      arrayLoop currOArray is = some
        (is.flatMap fun i => (currOArray.bytes.drop (oDataSize * i)).take oDataSize) := by
    induction is with
    | nil => rfl
    | cons i is ih =>
      have hi : oDataSize * (i + 1) ≤ oDataSize * k :=
        Nat.mul_le_mul_left _ (his i List.mem_cons_self)
      have hread : currOArray.read (oDataSize * i : Nat) oDataSize =
          some ((currOArray.bytes.drop (oDataSize * i)).take oDataSize) := by
        refine Buffer.read_eq_some.mpr ⟨?_, rfl⟩
        rw [Access.inBounds_mk]
        rw [Nat.mul_succ] at hi
        omega
      rw [arrayLoop, hread, Option.bind_some,
        ih fun j hj => his j (List.mem_cons_of_mem i hj)]
      rfl
  rw [hloop (List.range k) fun i hi => List.mem_range.mp hi]
  congr 1
  clear hk hloop
  induction k with
  | zero => rfl
  | succ k ih =>
    rw [List.range_succ, List.flatMap_append, ih, List.flatMap_singleton, Nat.mul_succ,
      List.take_add]

variable {Addr : Type*}

/-- The size of all records. -/
def osize : Nat := numPortBits * oDataSize

structure Store (Addr : Type*) where
  file : List UInt8
  oll : Ollist Addr
  array : Buffer (oDataSize * numPortBits)

/-- The calls; `err` is the text of `strerror` when `open` fails. -/
inductive StoreOp (Addr : Type*) where
  | update (u : Update Addr)
  | olLoadConfig (err : Option String) (stale : Locals) (fresh : Nat → Addr × Addr)
  | olWriteConfig (err : Option String) (pads : Addr → Buffer 2)
  | oLoadConfig (err : Option String) (staleId : UInt8)
  | oWriteConfig (err : Option String)

section Calls

variable [Fintype Addr] [DecidableEq Addr]

/-- What `open` gives a reader. -/
def Store.opened (s : Store Addr) (err : Option String) : Except String (List UInt8) :=
  match err with
  | some err => .error err
  | none => .ok s.file

def Store.step (s : Store Addr) : StoreOp Addr → Option (Store Addr)
  | .update u => (s.oll.update u).map fun oll => { s with oll := oll }
  | .olLoadConfig err stale fresh =>
    (Config.olLoadConfig (s.opened err) stale fresh s.oll).map fun r => { s with oll := r.oll }
  | .olWriteConfig err pads =>
    (Config.olWriteConfig err pads s.oll osize).map fun r =>
      { s with file := r.2.2.getD s.file }
  | .oLoadConfig err staleId =>
    some { s with array := (Config.oLoadConfig (s.opened err) staleId s.array).2.2 }
  | .oWriteConfig err =>
    (Config.oWriteConfig err s.array osize).map fun r => { s with file := r.2.2.getD s.file }

/-- `malloc` returns blocks that are not live. -/
def StoreAllocates (s : Store Addr) : StoreOp Addr → Prop
  | .update u => Allocates s.oll u
  | .olLoadConfig none stale fresh => Mallocs fresh stale s.file s.oll
  | _ => True

end Calls

structure Tables where
  file : Fin numPortBits → OData
  list : Fin numPortBits → OData
  array : Fin numPortBits → OData

/-- A call copies a whole table, or changes one record of the list. -/
def Tables.step (a : Tables) : StoreOp Addr → Tables
  | .update u =>
    { a with list := fun i =>
        if u.index = (i : Nat) then (u.effect (some (a.list i))).getD (a.list i) else a.list i }
  | .olLoadConfig none _ _ => { a with list := a.file }
  | .olWriteConfig none _ => { a with file := a.list }
  | .oLoadConfig none _ => { a with array := a.file }
  | .oWriteConfig none => { a with file := a.array }
  | _ => a

/-- The list holds these records. -/
def Holds (l : Ollist Addr) (records : Fin numPortBits → OData) : Prop :=
  ∃ es, Lists l es ∧ ∀ i : Fin numPortBits, recordAt es (i : Nat) = some (records i)

structure Represents (s : Store Addr) (a : Tables) : Prop where
  complete : Complete s.file
  file : ∀ i : Fin numPortBits, recordOf s.file i = a.file i
  list : Holds s.oll a.list
  array : ∀ i : Fin numPortBits, arrayRecord s.array i = a.array i

theorem Complete.head {content : List UInt8} (h : Complete content) (staleId : UInt8) :
    content.headD staleId = fileId := by
  rw [List.headD_eq_head?_getD, h.1]
  rfl

section Calls

variable [Fintype Addr] {l : Ollist Addr} {records : Fin numPortBits → OData}

theorem holds_load [DecidableEq Addr] {es : List (Entry Addr)} (h : Lists l es)
    {content : List UInt8} (hcomplete : Complete content) {stale : Locals}
    {fresh : Nat → Addr × Addr} (hmalloc : Mallocs fresh stale content l) :
    ∃ oll, Config.olLoadConfig (.ok content) stale fresh l = some ⟨0, "Success", oll⟩ ∧
      Holds oll fun i => recordOf content i := by
  obtain ⟨oll, es', hrun, hlists, hrecords⟩ := h.updates hmalloc
  refine ⟨oll, ?_, es', hlists, fun i => ?_⟩
  · simp only [Config.olLoadConfig, hcomplete.head, ne_eq, not_true_eq_false, if_false,
      loadLoop_eq, hrun, Option.map_some]
  · rw [hrecords, recordAfter_loads, if_pos (by omega), Nat.sub_zero,
      recordRead_complete hcomplete.2 i.isLt]

theorem written_records {images : List (Buffer 2 × OData)} (himages : images.length = numPortBits)
    (hrecords : ∀ i : Fin numPortBits, (images[i.val]?).map Prod.snd = some (records i)) :
    Complete (fileId :: images.flatMap fun r => image r.1 r.2) ∧
      ∀ i : Fin numPortBits,
        recordOf (fileId :: images.flatMap fun r => image r.1 r.2) i = records i := by
  have hsize : ∀ r : Buffer 2 × OData, (image r.1 r.2).length = oDataSize :=
    fun r => image_length r.1 r.2
  refine ⟨⟨rfl, ?_⟩, fun i => ?_⟩
  · rw [List.tail_cons, flatMap_length hsize, himages]
  · obtain ⟨r, hr, hrecord⟩ := Option.map_eq_some_iff.mp (hrecords i)
    rw [recordOf, List.tail_cons, flatMap_chunk hsize hr, oData_image, hrecord]

theorem holds_write (h : Holds l records) (pads : Addr → Buffer 2) :
    ∃ content, Config.olWriteConfig none pads l osize = some (0, "Success", some content) ∧
      Complete content ∧ ∀ i : Fin numPortBits, recordOf content i = records i := by
  obtain ⟨es, hlists, hrecords⟩ := h
  choose e he hrecord using fun i => Option.map_eq_some_iff.mp (hrecords i)
  have hfound : ((List.range numPortBits).map Nat.cast).filterMap
      (fun i => lookup Entry.index i es) = (List.finRange numPortBits).map e := by
    rw [← List.map_coe_finRange_eq_range, List.map_map, List.filterMap_map,
      ← List.filterMap_eq_map]
    exact List.filterMap_congr fun i _ => he i
  have hturns : osize / oDataSize = numPortBits := rfl
  refine ⟨fileId :: ((List.finRange numPortBits).map fun i =>
    (pads (e i).datap, (e i).record)).flatMap fun r => image r.1 r.2, ?_, ?_⟩
  · rw [Config.olWriteConfig, hturns, writeLoop_eq hlists, hfound, List.flatMap_map,
      List.flatMap_map]
    rfl
  · apply written_records
    · simp
    · intro i
      simp [hrecord]

theorem holds_oWrite (array : Buffer (oDataSize * numPortBits)) :
    ∃ content, Config.oWriteConfig none array osize = some (0, "Success", some content) ∧
      Complete content ∧ ∀ i : Fin numPortBits, recordOf content i = arrayRecord array i := by
  have hturns : osize / oDataSize = numPortBits := rfl
  refine ⟨fileId :: array.bytes, ?_, ⟨rfl, ?_⟩, fun i => rfl⟩
  · rw [Config.oWriteConfig, hturns, arrayLoop_eq array (Nat.le_refl _), Option.map_some,
      List.take_of_length_le (Nat.le_of_eq array.bytes_length)]
  · exact Nat.le_of_eq array.bytes_length.symm

theorem arrayRecord_read {content : List UInt8} (h : Complete content)
    (array : Buffer (oDataSize * numPortBits)) (i : Fin numPortBits) :
    arrayRecord (array.overwrite content.tail) i = recordOf content i := by
  have hpiece : oDataSize * (i + 1) ≤ oDataSize * numPortBits :=
    Nat.mul_le_mul_left _ i.isLt
  rw [Nat.mul_succ] at hpiece
  rw [arrayRecord, Buffer.overwrite_full _ h.2, List.drop_take, List.take_take,
    Nat.min_eq_left (by omega), recordOf]

end Calls

section Steps

variable [Fintype Addr] [DecidableEq Addr] {s : Store Addr} {a : Tables}

theorem Represents.update (h : Represents s a) {u : Update Addr} (hu : Allocates s.oll u) :
    ∃ s', s.step (.update u) = some s' ∧ Represents s' (a.step (.update u)) := by
  obtain ⟨es, hlists, hrecords⟩ := h.list
  obtain ⟨oll, es', hcall, hlists', hself, hother⟩ := hlists.update hu
  refine ⟨{ s with oll := oll }, by rw [Store.step, hcall, Option.map_some],
    { h with list := ⟨es', hlists', fun i => ?_⟩ }⟩
  simp only [Tables.step]
  by_cases hi : u.index = (i : Nat)
  · rw [if_pos hi, ← hi, hself, hi, hrecords]
    cases u with
    | insert index datap2 newData newNode => rfl
    | toggle index => rfl
  · rw [if_neg hi, ← hrecords, recordAt, hother _ (Ne.symm hi), recordAt]

/-- Every call succeeds and does to the tables what it says. -/
theorem Represents.step (h : Represents s a) {op : StoreOp Addr} (hop : StoreAllocates s op) :
    ∃ s', s.step op = some s' ∧ Represents s' (a.step op) := by
  cases op with
  | update u => exact h.update hop
  | olLoadConfig err stale fresh =>
    cases err with
    | some err => exact ⟨s, rfl, h⟩
    | none =>
      obtain ⟨es, hlists, -⟩ := h.list
      obtain ⟨oll, hload, hholds⟩ := holds_load hlists h.complete hop
      refine ⟨{ s with oll := oll }, ?_, { h with list := ?_ }⟩
      · simp only [Store.step, Store.opened, hload, Option.map_some]
      · have hfile : (fun i : Fin numPortBits => recordOf s.file i) = a.file := funext h.file
        change Holds oll a.file
        rw [← hfile]
        exact hholds
  | olWriteConfig err pads =>
    cases err with
    | some err => exact ⟨s, rfl, h⟩
    | none =>
      obtain ⟨content, hwrite, hcomplete, hrecords⟩ := holds_write h.list pads
      refine ⟨{ s with file := content }, ?_, { h with complete := hcomplete, file := hrecords }⟩
      simp only [Store.step, hwrite, Option.map_some, Option.getD_some]
  | oLoadConfig err staleId =>
    cases err with
    | some err => exact ⟨s, rfl, h⟩
    | none =>
      refine ⟨{ s with array := s.array.overwrite s.file.tail }, ?_,
        { h with array := fun i => (arrayRecord_read h.complete s.array i).trans (h.file i) }⟩
      simp only [Store.step, Store.opened, Config.oLoadConfig, h.complete.head, ne_eq,
        not_true_eq_false, if_false]
  | oWriteConfig err =>
    cases err with
    | some err => exact ⟨s, rfl, h⟩
    | none =>
      obtain ⟨content, hwrite, hcomplete, hrecords⟩ := holds_oWrite s.array
      refine ⟨{ s with file := content }, ?_,
        { h with complete := hcomplete, file := fun i => (hrecords i).trans (h.array i) }⟩
      simp only [Store.step, hwrite, Option.map_some, Option.getD_some]

theorem Represents.run (h : Represents s a) {ops : List (StoreOp Addr)}
    (hops : AllSteps Store.step StoreAllocates s ops) :
    ∃ s', exec Store.step s ops = some s' ∧ Represents s' (ops.foldl Tables.step a) := by
  induction ops generalizing s a with
  | nil => exact ⟨s, rfl, h⟩
  | cons op ops ih =>
    obtain ⟨t, ht, hrepresents⟩ := h.step hops.1
    obtain ⟨s', hs', hend⟩ := ih hrepresents (hops.2 t ht)
    exact ⟨s', by rw [exec_cons, ht, Option.bind_some, hs'], hend⟩

end Steps

/-- The program starts with a complete file and loads it into the new list. After any calls, also
with failing `open`s, the file is complete and recognised, and the file, the list and the array
hold the records of the tables that are copied as a whole. -/
theorem store_refines [Fintype Addr] [DecidableEq Addr] (l : Ollist Addr) {content : List UInt8}
    (hcomplete : Complete content) (array : Buffer (oDataSize * numPortBits)) (stale : Locals)
    (fresh : Nat → Addr × Addr) (ops : List (StoreOp Addr))
    (hmalloc : AllSteps Store.step StoreAllocates ⟨content, l.init, array⟩
      (.olLoadConfig none stale fresh :: ops)) :
    ∃ s, exec Store.step ⟨content, l.init, array⟩ (.olLoadConfig none stale fresh :: ops) =
        some s ∧
      (∀ staleId, getFileFormat (.ok s.file) staleId = 1) ∧
      Represents s (ops.foldl Tables.step
        ⟨fun i => recordOf content i, fun i => recordOf content i,
          fun i => arrayRecord array i⟩) := by
  obtain ⟨oll, hload, hholds⟩ := holds_load (Lists.init l) hcomplete hmalloc.1
  have hstep : Store.step ⟨content, l.init, array⟩ (.olLoadConfig none stale fresh) =
      some ⟨content, oll, array⟩ := by
    simp only [Store.step, Store.opened, hload, Option.map_some]
  have hstart : Represents (⟨content, oll, array⟩ : Store Addr)
      ⟨fun i => recordOf content i, fun i => recordOf content i, fun i => arrayRecord array i⟩ :=
    ⟨hcomplete, fun _ => rfl, hholds, fun _ => rfl⟩
  obtain ⟨s, hs, hend⟩ := hstart.run (hmalloc.2 _ hstep)
  refine ⟨s, by rw [exec_cons, hstep, Option.bind_some, hs], fun staleId => ?_, hend⟩
  rw [getFileFormat, if_pos (hend.complete.head staleId)]

/-- Output 3 is switched on, and the list is saved for the array. -/
def toggleAndSave : List (StoreOp (Fin 20)) :=
  [.update (.toggle 3), .olWriteConfig none fun _ => .zero 2, .oLoadConfig none 0]

theorem store_refines_toggled :
    ∃ s, exec Store.step ⟨fileId :: List.replicate 1360 0, freeMemory.init, .zero _⟩
        (.olLoadConfig none zeroLocals inTurn :: toggleAndSave) = some s ∧
      (arrayRecord s.array 3).onoff = 1 ∧ (arrayRecord s.array 4).onoff = 0 := by
  have hmalloc : AllSteps Store.step StoreAllocates
      ⟨fileId :: List.replicate 1360 0, freeMemory.init, .zero _⟩
      (.olLoadConfig none zeroLocals inTurn :: toggleAndSave) := by
    have hload : Mallocs inTurn zeroLocals (fileId :: List.replicate 1360 0) freeMemory.init := by
      decide +kernel
    exact ⟨hload, fun _ _ => ⟨trivial, fun _ _ => ⟨trivial, fun _ _ => ⟨trivial, fun _ _ =>
      trivial⟩⟩⟩⟩
  obtain ⟨s, hs, -, hend⟩ := store_refines freeMemory (by decide +kernel :
    Complete (fileId :: List.replicate 1360 0)) (.zero _) zeroLocals inTurn toggleAndSave hmalloc
  refine ⟨s, hs, ?_, ?_⟩
  · exact (congrArg OData.onoff (hend.array ⟨3, by decide⟩)).trans (by decide +kernel)
  · exact (congrArg OData.onoff (hend.array ⟨4, by decide⟩)).trans (by decide +kernel)

end TcpIot.Config
