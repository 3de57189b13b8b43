import TcpIot.Framework.Run
import TcpIot.Queue.Ollist

/-!
# The output list is a finite map

Over any run of inserts and toggles the list stays ascending, and a lookup finds the record of
the last insert, flipped once for every toggle since.
-/

namespace TcpIot.Queue

open Framework

variable {Addr : Type*}

/-- The calls that write records. -/
inductive Update (Addr : Type*) where
  | insert (index : Int) (datap2 : OData) (newData newNode : Addr)
  | toggle (index : Int)

namespace Update

def index : Update Addr → Int
  | .insert index _ _ _ => index
  | .toggle index => index

def insertsAt (i : Int) : Update Addr → Bool
  | .insert index _ _ _ => index = i
  | .toggle _ => false

def togglesAt (i : Int) : Update Addr → Bool
  | .insert _ _ _ _ => false
  | .toggle index => index = i

/-- What the call makes of the record at its index. -/
def effect : Update Addr → Option OData → Option OData
  | .insert _ datap2 _ _, _ => some datap2
  | .toggle _, r => r.map OData.toggled

end Update

/-- `malloc` returns blocks that are not live. -/
def Allocates (l : Ollist Addr) : Update Addr → Prop
  | .insert _ _ newData newNode => l.data newData = none ∧ l.nodes newNode = none
  | .toggle _ => True

instance (l : Ollist Addr) : (u : Update Addr) → Decidable (Allocates l u)
  | .insert _ _ newData newNode =>
    decidable_of_iff ((l.data newData).isNone ∧ (l.nodes newNode).isNone) (by simp [Allocates])
  | .toggle _ => isTrue trivial

/-- The abstract list: the record at every index. -/
def recordAt (es : List (Entry Addr)) (i : Int) : Option OData :=
  (lookup Entry.index i es).map Entry.record

/-- The record at `i` after the calls, when it was `r` before. -/
def recordAfter (i : Int) (r : Option OData) (us : List (Update Addr)) : Option OData :=
  us.foldl (fun r u => if u.index = i then u.effect r else r) r

private theorem recordAt_put (e : Entry Addr) (es : List (Entry Addr)) :
    recordAt (put Entry.index e es) e.index = some e.record := by
  rw [recordAt, lookup_put_self]
  rfl

theorem recordAfter_cons (i : Int) (r : Option OData) (u : Update Addr) (us : List (Update Addr)) :
    recordAfter i r (u :: us) = recordAfter i (if u.index = i then u.effect r else r) us := rfl

theorem recordAfter_toggles {i : Int} {us : List (Update Addr)}
    (hus : ∀ u ∈ us, u.insertsAt i = false) (r : Option OData) :
    recordAfter i r us = r.map (OData.toggled^[us.countP (·.togglesAt i)]) := by
  induction us generalizing r with
  | nil => simp [recordAfter]
  | cons u us ih =>
    have hu := hus u List.mem_cons_self
    rw [recordAfter_cons, ih fun v hv => hus v (List.mem_cons_of_mem u hv)]
    cases u with
    | insert index datap2 newData newNode =>
      have hne : index ≠ i := by simpa [Update.insertsAt] using hu
      rw [List.countP_cons_of_neg (by simp [Update.togglesAt]), Update.index, if_neg hne]
    | toggle index =>
      by_cases hindex : index = i
      · rw [List.countP_cons_of_pos (by simp [Update.togglesAt, hindex]), Update.index,
          if_pos hindex, Update.effect, Option.map_map, Function.iterate_succ]
      · rw [List.countP_cons_of_neg (by simp [Update.togglesAt, hindex]), Update.index,
          if_neg hindex]

theorem recordAfter_insert {i : Int} {before after : List (Update Addr)} {d : OData}
    {newData newNode : Addr} (hafter : ∀ u ∈ after, u.insertsAt i = false) (r : Option OData) :
    recordAfter i r (before ++ .insert i d newData newNode :: after) =
      some (OData.toggled^[after.countP (·.togglesAt i)] d) := by
  rw [recordAfter, List.foldl_append, List.foldl_cons, Update.index, if_pos rfl, Update.effect]
  exact recordAfter_toggles hafter (some d)

theorem Lists.find_record [Fintype Addr] {l : Ollist Addr} {es : List (Entry Addr)}
    (h : Lists l es) {i : Int} {d : OData} (hrecord : recordAt es i = some d) :
    ∃ datap, l.findData i = some (0, some datap) ∧ l.data datap = some d := by
  obtain ⟨e, hlookup, rfl⟩ := Option.map_eq_some_iff.mp hrecord
  refine ⟨e.datap, ?_, h.records e (lookup_eq_some hlookup).1⟩
  rw [h.findData, hlookup]

theorem Lists.find_absent [Fintype Addr] {l : Ollist Addr} {es : List (Entry Addr)}
    (h : Lists l es) {i : Int} (hrecord : recordAt es i = none) :
    l.findData i = some (-1, none) := by
  rw [h.findData, Option.map_eq_none_iff.mp hrecord]

variable [DecidableEq Addr] [Fintype Addr]

def Ollist.update (l : Ollist Addr) : Update Addr → Option (Ollist Addr)
  | .insert index datap2 newData newNode => l.insertData index datap2 newData newNode
  | .toggle index => (l.toggleOutput index).map Prod.fst

section Runs

variable {l l' : Ollist Addr} {es : List (Entry Addr)} {u : Update Addr}

theorem Lists.update (h : Lists l es) (halloc : Allocates l u) :
    ∃ l' es', l.update u = some l' ∧ Lists l' es' ∧
      recordAt es' u.index = u.effect (recordAt es u.index) ∧
      ∀ j, j ≠ u.index → lookup Entry.index j es' = lookup Entry.index j es := by
  cases u with
  | insert index datap2 newData newNode =>
    cases hlookup : lookup Entry.index index es with
    | some e =>
      obtain ⟨l', hcall, hlists⟩ := h.insertData_replace halloc.1 hlookup
      refine ⟨l', _, hcall, hlists, ?_, fun j hj => lookup_put_of_ne h.ascending hj⟩
      exact recordAt_put _ es
    | none =>
      obtain ⟨l', hcall, hlists⟩ := h.insertData_new halloc.1 halloc.2 hlookup
      refine ⟨l', _, hcall, hlists, ?_, fun j hj => lookup_put_of_ne h.ascending hj⟩
      exact recordAt_put _ es
  | toggle index =>
    cases hlookup : lookup Entry.index index es with
    | some e =>
      obtain ⟨l', hcall, hlists⟩ := h.toggleOutput_found hlookup
      obtain ⟨-, rfl⟩ := lookup_eq_some hlookup
      refine ⟨l', _, by rw [Ollist.update, hcall]; rfl, hlists, ?_,
        fun j hj => lookup_put_of_ne h.ascending hj⟩
      have hbefore : recordAt es e.index = some e.record := by
        rw [recordAt, hlookup]
        rfl
      rw [Update.index, hbefore]
      exact recordAt_put { e with record := e.record.toggled } es
    | none =>
      refine ⟨l, es, by rw [Ollist.update, h.toggleOutput_absent hlookup]; rfl, h, ?_,
        fun _ _ => rfl⟩
      simp [recordAt, Update.index, Update.effect, hlookup]

theorem Lists.updates {us : List (Update Addr)} (h : Lists l es)
    (halloc : AllSteps Ollist.update Allocates l us) :
    ∃ l' es', exec Ollist.update l us = some l' ∧ Lists l' es' ∧
      ∀ i, recordAt es' i = recordAfter i (recordAt es i) us := by
  induction us generalizing l es with
  | nil => exact ⟨l, es, rfl, h, fun _ => rfl⟩
  | cons u us ih =>
    obtain ⟨next, esNext, hcall, hlists, hself, hother⟩ := h.update halloc.1
    obtain ⟨l', es', hrun, hlists', hrecords⟩ := ih hlists (halloc.2 next hcall)
    refine ⟨l', es', by rw [exec_cons, hcall, Option.bind_some, hrun], hlists', fun i => ?_⟩
    rw [hrecords, recordAfter_cons]
    congr 1
    split
    · rename_i hindex
      rw [← hindex, hself]
    · rename_i hindex
      rw [recordAt, hother i (Ne.symm hindex), recordAt]

/-- A call leaves what is found at other indices: the same pointer to the same record. -/
theorem Lists.update_frame (h : Lists l es) (halloc : Allocates l u)
    (hcall : l.update u = some l') {j : Int} (hj : j ≠ u.index) :
    l'.findData j = l.findData j ∧
      ∀ datap, l.findData j = some (0, some datap) → l'.data datap = l.data datap := by
  obtain ⟨next, es', hnext, hlists, -, hother⟩ := h.update halloc
  cases hcall.symm.trans hnext
  have hsame := hother j hj
  constructor
  · rw [hlists.findData, h.findData, hsame]
  · intro datap hfind
    rw [h.findData] at hfind
    cases hlookup : lookup Entry.index j es with
    | none =>
      rw [hlookup] at hfind
      cases hfind
    | some e =>
      rw [hlookup] at hfind hsame
      cases hfind
      rw [h.records e (lookup_eq_some hlookup).1, hlists.records e (lookup_eq_some hsame).1]

end Runs

/-- An empty memory of four addresses. -/
def noMemory : Ollist (Fin 4) := ⟨none, fun _ => none, fun _ => none⟩

/-- An output that is off. -/
def offOutput : OData := ⟨.zero 30, 3, 0, 0xFF, 0, 0, 0, 0, 0, 0⟩

/-- An output labelled `lamp` that is on, with an input. -/
def lampOutput : OData := ⟨.padded 30 [108, 97, 109, 112], 1, 1, 7, 2, 3, 15, -4, 1, 0⟩

end TcpIot.Queue
