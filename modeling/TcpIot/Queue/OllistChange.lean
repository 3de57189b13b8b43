import TcpIot.Queue.OllistDelete

/-!
# Changing a record in place

`ollist_change_data` stores the new pointer into the node of the index and then unlinks and frees
that node, with the two statements of `ollist_remove_data`.
-/

namespace TcpIot.Queue

open Framework

variable {Addr : Type*} [Fintype Addr]

section Dangling

variable {l : Ollist Addr}

private theorem Dangling.seek (hl : Dangling l) (index : Int) : l.seek index = none := by
  obtain ⟨a, hfirst, hdead⟩ := hl
  simp only [Ollist.seek, hfirst, walk, hdead, Option.bind_none]

theorem Dangling.findData (hl : Dangling l) (index : Int) : l.findData index = none := by
  rw [Ollist.findData, hl.seek, Option.map_none]

variable [DecidableEq Addr]

private theorem Dangling.changeData (hl : Dangling l) (index : Int) (datap : Addr) :
    l.changeData index datap = none := by
  rw [Ollist.changeData, hl.seek, Option.bind_none]

theorem Dangling.step (hl : Dangling l) (op : Op Addr) : l.step op = none := by
  cases op with
  | update u =>
    cases u with
    | insert index datap2 newData newNode =>
      simp only [Ollist.step, Ollist.update, Ollist.insertData, hl.seek, Option.bind_none,
        Option.bind_fun_none]
    | toggle index =>
      simp only [Ollist.step, Ollist.update, Ollist.toggleOutput, hl.seek, Option.bind_none,
        Option.map_none]
  | remove index =>
    simp only [Ollist.step, Ollist.removeData, hl.seek, Option.bind_none, Option.map_none]
  | removeall =>
    obtain ⟨a, hfirst, hdead⟩ := hl
    simp only [Ollist.step, Ollist.removeallData, hfirst, Ollist.removeallLoop, Ollist.unlink,
      hdead, Option.bind_none, Option.map_none]
  | change index datap =>
    simp only [Ollist.step, hl.changeData, Option.map_none]

end Dangling

/-- What the calls leave behind. -/
def Shaped (l : Ollist Addr) : Prop := (∃ es, Lists l es) ∨ Dangling l

variable [DecidableEq Addr]

theorem Shaped.step {l l' : Ollist Addr} {op : Op Addr} (hl : Shaped l)
    (halloc : OpAllocates l op) (hstep : l.step op = some l') : Shaped l' := by
  rcases hl with ⟨es, hlists⟩ | hdangling
  · by_cases hstays : HeadStays l op
    · exact .inl (hlists.step halloc hstays hstep)
    · cases op with
      | update u => exact absurd trivial hstays
      | remove index =>
        obtain ⟨next, datap, hcall, hdangling⟩ := hlists.removeData_head hstays
        rw [Ollist.step, hcall] at hstep
        cases hstep
        exact .inr hdangling
      | removeall =>
        rw [HeadStays] at hstays
        rw [Ollist.step, hlists.removeallData_eq, if_neg hstays] at hstep
        cases hstep
      | change index datap =>
        obtain ⟨next, status, hcall, hdangling⟩ := hlists.changeData_head hstays datap
        rw [Ollist.step, hcall] at hstep
        cases hstep
        exact .inr hdangling
  · rw [hdangling.step] at hstep
    cases hstep

/-- The record that a lookup finds. -/
def Ollist.foundRecord (l : Ollist Addr) (index : Int) : Option (Option OData) :=
  (l.findData index).map fun r => r.2.bind l.data

/-- A present index gets the record at `datap`, every other one keeps what it has, and inserting
a copy would come to the same; for an absent index the call fails and changes nothing. -/
structure ChangedInPlace (l : Ollist Addr) (index : Int) (datap : Addr) (l' : Ollist Addr)
    (status : Int) : Prop where
  present : ∀ old, l.findData index = some (0, some old) → status = 0 ∧
    (∃ new, l'.findData index = some (0, some new) ∧ l'.data new = l.data datap) ∧
    (∀ j ≠ index, l'.findData j = l.findData j ∧ l'.foundRecord j = l.foundRecord j) ∧
    ∀ d newData newNode copied, l.data datap = some d → l.data newData = none →
      l.insertData index d newData newNode = some copied →
        ∀ j, l'.foundRecord j = copied.foundRecord j
  absent : l.findData index = some (-1, none) → status = -1 ∧ l' = l

def ChangeLaw (l : Ollist Addr) (index : Int) (datap : Addr) : Prop :=
  ∃ l' status, l.changeData index datap = some (l', status) ∧
    ChangedInPlace l index datap l' status

section Calls

variable {l : Ollist Addr} {es : List (Entry Addr)} {index : Int}

/-- The node of the index is gone after the call, or freed and still the first. -/
private theorem Lists.changeData_lost (h : Lists l es) (index : Int) (datap : Addr) :
    ∃ l' status, l.changeData index datap = some (l', status) ∧
      ∀ new, l'.findData index ≠ some (0, some new) := by
  by_cases hbehind : BehindHead l index
  · obtain ⟨l', status, hcall, hlists⟩ := h.changeData_behind hbehind datap
    refine ⟨l', status, hcall, fun new hnew => ?_⟩
    rw [hlists.findData, lookup_erase_self h.ascending] at hnew
    cases hnew
  · obtain ⟨l', status, hcall, hdangling⟩ := h.changeData_head hbehind datap
    refine ⟨l', status, hcall, fun new hnew => ?_⟩
    rw [hdangling.findData] at hnew
    cases hnew

theorem Lists.changeData_absent (h : Lists l es) (hfind : l.findData index = some (-1, none))
    (datap : Addr) : l.changeData index datap = some (l, -1) := by
  cases hlookup : lookup Entry.index index es with
  | some e =>
    rw [h.findData, hlookup] at hfind
    cases hfind
  | none =>
    obtain ⟨cur, hfound, hseek, -, -⟩ := h.seek_absent hlookup
    simp only [Ollist.changeData, hseek, Option.bind_some, hfound]

theorem Shaped.changeLaw_iff (hl : Shaped l) (datap : Addr) :
    ChangeLaw l index datap ↔ l.findData index = some (-1, none) := by
  rcases hl with ⟨es, hlists⟩ | hdangling
  · constructor
    · rintro ⟨l', status, hcall, hlaw⟩
      cases hlookup : lookup Entry.index index es with
      | none => rw [hlists.findData, hlookup]
      | some e =>
        have hfind : l.findData index = some (0, some e.datap) := by
          rw [hlists.findData, hlookup]
        obtain ⟨next, status', hnext, hlost⟩ := hlists.changeData_lost index datap
        cases hcall.symm.trans hnext
        obtain ⟨new, hnew, -⟩ := (hlaw.present e.datap hfind).2.1
        exact absurd hnew (hlost new)
    · intro hfind
      refine ⟨l, -1, hlists.changeData_absent hfind datap, fun old hold => ?_, fun _ => ⟨rfl, rfl⟩⟩
      cases hfind.symm.trans hold
  · constructor
    · rintro ⟨l', status, hcall, -⟩
      rw [hdangling.changeData] at hcall
      cases hcall
    · intro hfind
      rw [hdangling.findData] at hfind
      cases hfind

end Calls

/-- For every run of the calls, every index and every record: the change is in place exactly when
the index is absent. -/
theorem changeData_inPlace_iff {l l' : Ollist Addr} {ops : List (Op Addr)}
    (halloc : AllSteps Ollist.step OpAllocates l.init ops)
    (hrun : exec Ollist.step l.init ops = some l') (index : Int) (datap : Addr) :
    ChangeLaw l' index datap ↔ l'.findData index = some (-1, none) := by
  have hshaped : Shaped l' := halloc.exec_inv (fun _ _ _ hl hserved hstep => hl.step hserved hstep)
    (.inl ⟨[], Lists.init l⟩) hrun
  exact hshaped.changeLaw_iff datap

/-- A record at address 2 that no list points to. -/
def spareRecord : Ollist (Fin 4) :=
  { noMemory with data := Function.update noMemory.data 2 (some offOutput.toggled) }

private theorem twoOutputs_isSome : (exec Ollist.step spareRecord.init
    [.update (.insert 2 offOutput 0 0), .update (.insert 5 offOutput 1 1)]).isSome := by
  decide +kernel

/-- Two outputs beside the record at address 2. -/
def twoOutputs : Ollist (Fin 4) :=
  (exec Ollist.step spareRecord.init
    [.update (.insert 2 offOutput 0 0), .update (.insert 5 offOutput 1 1)]).get twoOutputs_isSome

theorem changeData_inPlace_iff_two :
    ChangeLaw twoOutputs 7 2 ↔ twoOutputs.findData 7 = some (-1, none) :=
  @changeData_inPlace_iff _ _ _ spareRecord _
    [.update (.insert 2 offOutput 0 0), .update (.insert 5 offOutput 1 1)]
    (by decide +kernel) (Option.some_get _).symm 7 2

/-- The second of two outputs is changed: the call reports success and the output is gone. -/
theorem changed_output_lost :
    ((∃ r ∈ twoOutputs.changeData 5 2, r.2 = 0 ∧ r.1.findData 5 = some (-1, none)) ∧
      twoOutputs.findData 5 = some (0, some 1)) ∧ ¬ ChangeLaw twoOutputs 5 2 := by
  have hrun : (∃ r ∈ twoOutputs.changeData 5 2, r.2 = 0 ∧ r.1.findData 5 = some (-1, none)) ∧
      twoOutputs.findData 5 = some (0, some 1) := by
    decide +kernel
  refine ⟨hrun, ?_⟩
  obtain ⟨⟨r, hr, -, hgone⟩, hfind⟩ := hrun
  rintro ⟨l', status, hcall, hlaw⟩
  obtain ⟨new, hnew, -⟩ := (hlaw.present 1 hfind).2.1
  cases hcall.symm.trans hr
  cases hgone.symm.trans hnew

end TcpIot.Queue
