import TcpIot.Config.OutputFile

/-!
# Writing and loading the outputs

The writer skips an index that the list does not hold, so a record stands in the file at its
position in the list, and the reader stores it under that position.
-/

namespace TcpIot.Config

open Framework Queue

variable {Addr Addr' : Type*}

/-- The bytes that the writer makes of an entry. -/
def entryImage (pads : Addr → Buffer 2) (e : Entry Addr) : List UInt8 :=
  image (pads e.datap) e.record

/-- The file of a list. -/
def outputFile (pads : Addr → Buffer 2) (es : List (Entry Addr)) : List UInt8 :=
  fileId :: es.flatMap (entryImage pads)

theorem entryImage_length (pads : Addr → Buffer 2) (e : Entry Addr) :
    (entryImage pads e).length = oDataSize := image_length _ _

section Writing

variable [Fintype Addr] {l : Ollist Addr} {es : List (Entry Addr)}

theorem writeLoop_eq (h : Lists l es) (pads : Addr → Buffer 2) (is : List Nat) :
    writeLoop pads l is = some
      (((is.map Nat.cast).filterMap fun i => lookup Entry.index i es).flatMap
        (entryImage pads)) := by
  induction is with
  | nil => rfl
  | cons i is ih =>
    rw [writeLoop, h.findData, Option.bind_some, ih, List.map_cons]
    cases hlookup : lookup Entry.index (i : Int) es with
    | none => simp [writeRecord, hlookup]
    | some e =>
      have hrecord := h.records e (lookup_eq_some hlookup).1
      simp [writeRecord, hlookup, hrecord, entryImage]

/-- Every index of the list is a port bit. -/
def PortBits (es : List (Entry Addr)) : Prop := ∀ e ∈ es, 0 ≤ e.index ∧ e.index < numPortBits

instance (es : List (Entry Addr)) : Decidable (PortBits es) :=
  inferInstanceAs (Decidable (∀ e ∈ es, _))

theorem olWriteConfig_eq (h : Lists l es) (hbits : PortBits es) (pads : Addr → Buffer 2) :
    olWriteConfig none pads l (numPortBits * oDataSize) =
      some (0, "Success", some (outputFile pads es)) := by
  have hall : ((List.range numPortBits).map (Nat.cast : Nat → Int)).filterMap
      (fun i => lookup Entry.index i es) = es := by
    refine h.ascending.filterMap_lookup ?_ fun e he => ?_
    · exact List.pairwise_map.mpr (List.pairwise_lt_range.imp fun hlt => Int.ofNat_lt.mpr hlt)
    · obtain ⟨hpos, hlt⟩ := hbits e he
      refine List.mem_map.mpr ⟨e.index.toNat, List.mem_range.mpr ?_, Int.toNat_of_nonneg hpos⟩
      omega
  have hturns : numPortBits * oDataSize / oDataSize = numPortBits := rfl
  rw [olWriteConfig, hturns, writeLoop_eq h, hall, Option.map_some, outputFile]

end Writing

/-- Behind the last record the reader stores the last record again. -/
theorem recordRead_outputs (pads : Addr → Buffer 2) (buf : Buffer oDataSize)
    {es : List (Entry Addr)} {i : Nat} {e : Entry Addr}
    (he : es[min i (es.length - 1)]? = some e) :
    recordRead buf (es.flatMap (entryImage pads)) i = e.record := by
  obtain ⟨hpos, -⟩ := List.getElem?_eq_some_iff.mp he
  have hlength := flatMap_length (entryImage_length pads) es
  have hreads : buf.reads (es.flatMap (entryImage pads)) (i + 1) =
      buf.reads (es.flatMap (entryImage pads)) (min i (es.length - 1) + 1) := by
    rcases le_total i (es.length - 1) with hle | hle
    · rw [min_eq_left hle]
    · obtain ⟨k, rfl⟩ := Nat.exists_eq_add_of_le hle
      rw [min_eq_right hle, Nat.add_right_comm]
      refine buf.reads_end ?_
      rw [hlength]
      exact Nat.mul_le_mul_left _ (by omega)
  have hfull : oDataSize * (min i (es.length - 1) + 1) ≤
      (es.flatMap (entryImage pads)).length := by
    rw [hlength]
    exact Nat.mul_le_mul_left _ hpos
  rw [recordRead, hreads, buf.reads_full hfull, flatMap_chunk (entryImage_length pads) he,
    entryImage, oData_image]

/-- The `i`-th record of an array. -/
def arrayRecord (array : Buffer (oDataSize * numPortBits)) (i : Nat) : OData :=
  oData ((array.bytes.drop (oDataSize * i)).take oDataSize)

section Laws

variable [Fintype Addr] [Fintype Addr'] [DecidableEq Addr'] {l : Ollist Addr}
  {es : List (Entry Addr)}

/-- The list `l` is written and loaded into an empty list `l'`: what was found before is found
again, and on a full list the array reader reads the same records. -/
def RoundTripLaw (pads : Addr → Buffer 2) (l : Ollist Addr) (stale : Locals)
    (fresh : Nat → Addr' × Addr') (l' : Ollist Addr')
    (currOArray : Buffer (oDataSize * numPortBits)) : Prop :=
  ∃ content oll array,
    olWriteConfig none pads l (numPortBits * oDataSize) = some (0, "Success", some content) ∧
    olLoadConfig (.ok content) stale fresh l'.init = some ⟨0, "Success", oll⟩ ∧
    oLoadConfig (.ok content) stale.id currOArray = (0, "Success", array) ∧
    (∀ i d, Finds l i d → Finds oll i d) ∧
    ((∀ i : Nat, i < numPortBits → ∃ d, Finds l i d) →
      ∀ i : Nat, i < numPortBits → Finds oll i (arrayRecord array i))

/-- The record at the position that the index of an entry names, or the last record when there
is no such position, is the record of the entry. -/
def Positioned (es : List (Entry Addr)) : Prop :=
  ∀ e ∈ es, ∀ f ∈ es[min e.index.toNat (es.length - 1)]?, f.record = e.record

instance (es : List (Entry Addr)) : Decidable (Positioned es) :=
  inferInstanceAs (Decidable (∀ e ∈ es, _))

omit [DecidableEq Addr'] in
private theorem kept_iff_positioned (h : Lists l es) (hbits : PortBits es)
    {pads : Addr → Buffer 2} {buf : Buffer oDataSize} {oll : Ollist Addr'}
    (hfound : ∀ i : Nat, i < numPortBits → ∀ d,
      Finds oll i d ↔ d = recordRead buf (es.flatMap (entryImage pads)) i) :
    (∀ i d, Finds l i d → Finds oll i d) ↔ Positioned es := by
  have hentry (e : Entry Addr) (he : e ∈ es) : Finds l e.index e.record := by
    have hself : lookup Entry.index e.index es = some e := by
      cases hlookup : lookup Entry.index e.index es with
      | none => exact absurd rfl (lookup_eq_none.mp hlookup e he)
      | some f =>
        obtain ⟨hf, hkey⟩ := lookup_eq_some hlookup
        rw [h.ascending.key_inj hf he hkey]
    rw [finds_iff h, recordAt, hself, Option.map_some]
  have hread (e : Entry Addr) (he : e ∈ es) (f : Entry Addr)
      (hf : es[min e.index.toNat (es.length - 1)]? = some f) :
      Finds oll e.index e.record ↔ f.record = e.record := by
    obtain ⟨hpos, hlt⟩ := hbits e he
    have hindex := hfound e.index.toNat (by omega) e.record
    rw [Int.toNat_of_nonneg hpos, recordRead_outputs pads buf hf] at hindex
    rw [hindex]
    exact eq_comm
  constructor
  · exact fun hkept e he f hf => (hread e he f hf).mp (hkept _ _ (hentry e he))
  · intro hpos i d hfind
    obtain ⟨e, hlookup, rfl⟩ := Option.map_eq_some_iff.mp ((finds_iff h).mp hfind)
    obtain ⟨he, rfl⟩ := lookup_eq_some hlookup
    have hlen := List.length_pos_of_mem he
    obtain ⟨f, hf⟩ : ∃ f, es[min e.index.toNat (es.length - 1)]? = some f :=
      ⟨_, List.getElem?_eq_getElem (by omega)⟩
    exact (hread e he f hf).mpr (hpos e he f hf)

private theorem full_length (h : Lists l es)
    (hfull : ∀ i : Nat, i < numPortBits → ∃ d, Finds l i d) : numPortBits ≤ es.length := by
  have hsub : ((List.range numPortBits).map (Nat.cast : Nat → Int)) ⊆ es.map Entry.index := by
    intro k hk
    obtain ⟨i, hi, rfl⟩ := List.mem_map.mp hk
    obtain ⟨d, hd⟩ := hfull i (List.mem_range.mp hi)
    obtain ⟨e, hlookup, -⟩ := Option.map_eq_some_iff.mp ((finds_iff h).mp hd)
    obtain ⟨he, hindex⟩ := lookup_eq_some hlookup
    exact List.mem_map.mpr ⟨e, he, hindex⟩
  have hnodup : ((List.range numPortBits).map (Nat.cast : Nat → Int)).Nodup :=
    List.nodup_range.map Nat.cast_injective
  have hlength := (hnodup.subperm hsub).length_le
  rwa [List.length_map, List.length_map, List.length_range] at hlength

/-- For every list whose indices are port bits and whatever the locals of the reader hold: the
round trip keeps every record exactly when every record is positioned. -/
theorem output_roundTrip_iff (h : Lists l es) (hbits : PortBits es)
    (pads : Addr → Buffer 2) (stale : Locals) (fresh : Nat → Addr' × Addr') (l' : Ollist Addr')
    (currOArray : Buffer (oDataSize * numPortBits))
    (hmalloc : Mallocs fresh stale (outputFile pads es) l'.init) :
    RoundTripLaw pads l stale fresh l' currOArray ↔ Positioned es := by
  have hwrite := olWriteConfig_eq h hbits pads
  obtain ⟨oll, hload, hfound⟩ := olLoadConfig_found (Lists.init l') hmalloc rfl
  have harray : oLoadConfig (.ok (outputFile pads es)) stale.id currOArray =
      (0, "Success", currOArray.overwrite (es.flatMap (entryImage pads))) := rfl
  rw [← kept_iff_positioned h hbits hfound]
  constructor
  · rintro ⟨content, oll', array, hwrite', hload', -, hkept, -⟩
    cases hwrite.symm.trans hwrite'
    cases hload.symm.trans hload'
    exact hkept
  · refine fun hkept => ⟨_, oll, _, hwrite, hload, harray, hkept, fun hfull i hi => ?_⟩
    have hlength : oDataSize * numPortBits ≤ (es.flatMap (entryImage pads)).length := by
      rw [flatMap_length (entryImage_length pads)]
      exact Nat.mul_le_mul_left _ (full_length h hfull)
    have hrest : oDataSize * (i + 1) ≤ oDataSize * numPortBits := Nat.mul_le_mul_left _ hi
    have hpiece : oDataSize ≤ oDataSize * numPortBits - oDataSize * i := by
      rw [Nat.mul_succ] at hrest
      omega
    rw [hfound i hi, arrayRecord, Buffer.overwrite_full _ hlength, List.drop_take, List.take_take,
      min_eq_left hpiece]
    exact (recordRead_full (hrest.trans hlength)).symm

end Laws

/-- Two outputs, the second one on. -/
def pairEntries (i j : Int) : List (Entry Bool) :=
  [⟨false, i, false, offOutput⟩, ⟨true, j, true, offOutput.toggled⟩]

/-- They fill a memory of two addresses. -/
def pairAt (i j : Int) : Ollist Bool where
  first := some false
  nodes a := if a then some ⟨j, true, none⟩ else some ⟨i, false, some true⟩
  data a := if a then some offOutput.toggled else some offOutput

theorem pairAt_lists {i j : Int} (h : i < j) : Lists (pairAt i j) (pairEntries i j) where
  chain := ⟨rfl, _, rfl, rfl, rfl, _, rfl, rfl, rfl⟩
  ascending := List.pairwise_pair.mpr h
  records e he := by
    rcases List.mem_pair.mp he with rfl | rfl <;> rfl
  distinct := by simp [pairEntries]

def noPads (_ : Bool) : Buffer 2 := .zero 2

theorem output_roundTrip_iff_pair :
    RoundTripLaw noPads (pairAt 0 1) zeroLocals inTurn freeMemory (.zero _) ↔
      Positioned (pairEntries 0 1) :=
  output_roundTrip_iff (pairAt_lists (by decide)) (by decide) noPads zeroLocals inTurn freeMemory
    (.zero _) (by decide +kernel)

/-- Outputs 1 and 2 were inserted and output 0 never. After the round trip index 1 finds what was
the record of index 2. -/
theorem removed_index_shifts_records :
    (∃ content ∈ (olWriteConfig none noPads (pairAt 1 2) (numPortBits * oDataSize)).bind (·.2.2),
      ∃ r ∈ olLoadConfig (.ok content) zeroLocals inTurn freeMemory.init,
        r.oll.findData 1 = some (0, some 1) ∧ r.oll.data 1 = some offOutput.toggled) ∧
    (pairAt 1 2).findData 1 = some (0, some false) ∧ (pairAt 1 2).data false = some offOutput ∧
    ¬ RoundTripLaw noPads (pairAt 1 2) zeroLocals inTurn freeMemory (.zero _) := by
  have hrun : ∃ content ∈
      (olWriteConfig none noPads (pairAt 1 2) (numPortBits * oDataSize)).bind (·.2.2),
      ∃ r ∈ olLoadConfig (.ok content) zeroLocals inTurn freeMemory.init,
        r.oll.findData 1 = some (0, some 1) ∧ r.oll.data 1 = some offOutput.toggled := by
    decide +kernel
  refine ⟨hrun, by decide +kernel, rfl, ?_⟩
  obtain ⟨content, hwrite, r, hload, hfind, hdata⟩ := hrun
  rintro ⟨content', oll, -, hwrite', hload', -, hkept, -⟩
  rw [hwrite'] at hwrite
  cases hwrite
  rw [hload'] at hload
  cases hload
  obtain ⟨datap, hfind', hdata'⟩ := hkept 1 offOutput ⟨false, by decide +kernel, rfl⟩
  cases hfind.symm.trans hfind'
  exact absurd (hdata.symm.trans hdata') (by decide +kernel)

end TcpIot.Config
