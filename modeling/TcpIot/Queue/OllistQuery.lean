import TcpIot.Queue.OllistMap

/-!
# Failed lookups

Four calls look for a record. All of them start with the status -1, but they differ in when they
set the result, in whether a node that fails the test ends the loop, and in what they return.
-/

namespace TcpIot.Queue

open Framework

variable {Addr : Type*}

namespace Ollist

/-- The loop of `ollist_find_data_ip`. A node of the index with input port 0x41 sets `*datapp`
and the loop goes on. -/
def findDataIpLoop (index : Int) (l : Ollist Addr) :
    Nat → Option Addr → Option Addr → Option (Int32 × Option Addr)
  | 0, _, _ => none
  | _ + 1, datapp, none => some (-1, datapp)
  | fuel + 1, datapp, some a =>
    (l.nodes a).bind fun cur =>
      if cur.index = index then
        (l.data cur.datap).bind fun d =>
          if d.inputPort ≠ 0x41 then some (d.inputPort, some cur.datap)
          else findDataIpLoop index l fuel (some cur.datap) cur.nextp
      else if index < cur.index then some (-1, datapp)
      else findDataIpLoop index l fuel datapp cur.nextp

def findDataIp [Fintype Addr] (index : Int) (l : Ollist Addr) : Option (Int32 × Option Addr) :=
  l.findDataIpLoop index (Fintype.card Addr + 1) none l.first

/-- The test of `ollist_find_data_op`. -/
def opens (index port : Int32) (d : OData) : Bool :=
  d.inputPort ≠ 0x41 ∧ d.port = port ∧ d.inputPort = index

/-- The loop of `ollist_find_data_op`; every node that it passes sets `*datapp`. -/
def findDataOpLoop (index port : Int32) (l : Ollist Addr) :
    Nat → Option Addr → Option Addr → Option (Int32 × Option Addr)
  | 0, _, _ => none
  | _ + 1, datapp, none => some (-1, datapp)
  | fuel + 1, _, some a =>
    (l.nodes a).bind fun cur =>
    (l.data cur.datap).bind fun d =>
      if opens index port d then some (d.port, some cur.datap)
      else findDataOpLoop index port l fuel (some cur.datap) cur.nextp

def findDataOp [Fintype Addr] (index port : Int32) (l : Ollist Addr) :
    Option (Int32 × Option Addr) :=
  l.findDataOpLoop index port (Fintype.card Addr + 1) none l.first

end Ollist

section Loops

variable {l : Ollist Addr} {es : List (Entry Addr)}

private theorem findDataIpLoop_eq {index : Int} {p : Option Addr} {fuel : Nat}
    (hchain : Segment Node.entry Node.nextp l.nodes p (es.map Entry.cell) none)
    (hsorted : Ascending Entry.index es) (hrecords : ∀ e ∈ es, l.data e.datap = some e.record)
    (hfuel : es.length < fuel) (datapp : Option Addr) :
    l.findDataIpLoop index fuel datapp p = some
      (match lookup Entry.index index es with
      | some e => (if e.record.inputPort ≠ 0x41 then e.record.inputPort else -1, some e.datap)
      | none => (-1, datapp)) := by
  induction es generalizing p fuel datapp with
  | nil =>
    obtain ⟨fuel, rfl⟩ := Nat.exists_eq_add_of_lt hfuel
    cases hchain
    rfl
  | cons e es ih =>
    obtain ⟨rfl, cur, hcur, hpay, hrest⟩ := hchain
    obtain ⟨hhead, htail⟩ := List.pairwise_cons.mp hsorted
    obtain ⟨fuel, rfl⟩ : ∃ k, fuel = k + 1 := ⟨fuel - 1, by omega⟩
    have hindex : cur.index = e.index := congrArg Prod.fst hpay
    have hdatap : cur.datap = e.datap := congrArg Prod.snd hpay
    have hnext := @ih cur.nextp fuel hrest htail
      (fun f hf => hrecords f (List.mem_cons_of_mem e hf)) (Nat.lt_of_succ_lt_succ hfuel)
    have hnode : l.nodes e.node = some cur := hcur
    have habove (hle : index ≤ e.index) : lookup Entry.index index es = none :=
      lookup_eq_none.mpr fun f hf => (hle.trans_lt (hhead f hf)).ne'
    simp only [Ollist.findDataIpLoop, hnode, Option.bind_some, hindex, hdatap,
      hrecords e List.mem_cons_self, lookup_cons]
    by_cases hequal : e.index = index
    · rw [if_pos hequal, if_pos hequal]
      by_cases hport : e.record.inputPort ≠ 0x41
      · simp only [if_pos hport]
      · simp only [if_neg hport, hnext, habove hequal.ge]
    · rw [if_neg hequal, if_neg hequal]
      by_cases hlt : index < e.index
      · rw [if_pos hlt, habove hlt.le]
      · rw [if_neg hlt]
        exact hnext datapp

private theorem findDataOpLoop_eq {index port : Int32} {p : Option Addr} {fuel : Nat}
    (hchain : Segment Node.entry Node.nextp l.nodes p (es.map Entry.cell) none)
    (hrecords : ∀ e ∈ es, l.data e.datap = some e.record)
    (hfuel : es.length < fuel) (datapp : Option Addr) :
    l.findDataOpLoop index port fuel datapp p = some
      (match es.find? fun e => Ollist.opens index port e.record with
      | some e => (e.record.port, some e.datap)
      | none => (-1, (es.getLast?.map Entry.datap).or datapp)) := by
  induction es generalizing p fuel datapp with
  | nil =>
    obtain ⟨fuel, rfl⟩ := Nat.exists_eq_add_of_lt hfuel
    cases hchain
    rfl
  | cons e es ih =>
    obtain ⟨rfl, cur, hcur, hpay, hrest⟩ := hchain
    obtain ⟨fuel, rfl⟩ : ∃ k, fuel = k + 1 := ⟨fuel - 1, by omega⟩
    have hdatap : cur.datap = e.datap := congrArg Prod.snd hpay
    have hnext := @ih cur.nextp fuel hrest
      (fun f hf => hrecords f (List.mem_cons_of_mem e hf)) (Nat.lt_of_succ_lt_succ hfuel)
    have hnode : l.nodes e.node = some cur := hcur
    simp only [Ollist.findDataOpLoop, hnode, Option.bind_some, hdatap,
      hrecords e List.mem_cons_self, List.find?_cons]
    by_cases hopen : Ollist.opens index port e.record = true
    · rw [if_pos hopen, hopen]
    · rw [if_neg hopen, hnext, Bool.eq_false_of_not_eq_true hopen]
      have hlast : (es.getLast?.map Entry.datap).or (some e.datap) =
          ((e :: es).getLast?.map Entry.datap).or datapp := by
        rw [List.getLast?_cons]
        cases es.getLast? <;> rfl
      rw [hlast]

variable [Fintype Addr]

private theorem Lists.length_lt (h : Lists l es) : es.length < Fintype.card Addr + 1 := by
  have hlen := h.chain.length_le_card
  rw [List.length_map] at hlen
  exact Nat.lt_succ_of_le hlen

theorem Lists.findDataIp (h : Lists l es) (index : Int) :
    l.findDataIp index = some
      (match lookup Entry.index index es with
      | some e => (if e.record.inputPort ≠ 0x41 then e.record.inputPort else -1, some e.datap)
      | none => (-1, none)) :=
  findDataIpLoop_eq h.chain h.ascending h.records h.length_lt none

theorem Lists.findDataOp (h : Lists l es) (index port : Int32) :
    l.findDataOp index port = some
      (match es.find? fun e => Ollist.opens index port e.record with
      | some e => (e.record.port, some e.datap)
      | none => (-1, es.getLast?.map Entry.datap)) := by
  rw [Ollist.findDataOp, findDataOpLoop_eq h.chain h.records h.length_lt none, Option.or_none]

end Loops

inductive Query where
  | find (index : Int)
  | findIp (index : Int)
  | findOp (index port : Int32)
  | toggle (index : Int)
deriving DecidableEq

/-- The record of the entry is one that the query asks for. -/
def Query.Meets (e : Entry Addr) : Query → Prop
  | .find index => e.index = index
  | .findIp index => e.index = index ∧ e.record.inputPort ≠ 0x41
  | .findOp index port => e.record.port = port ∧ e.record.inputPort = index
  | .toggle index => e.index = index

/-- What a call returns: the list, the status, which may be an uninitialised variable, and
`*datapp` where the call has one. -/
structure Answer (Addr : Type*) where
  oll : Ollist Addr
  status : Option Int
  datapp : Option (Option Addr)

def Ollist.ask [Fintype Addr] [DecidableEq Addr] (l : Ollist Addr) : Query → Option (Answer Addr)
  | .find index => (l.findData index).map fun r => ⟨l, some r.1, some r.2⟩
  | .findIp index => (l.findDataIp index).map fun r => ⟨l, some r.1.toInt, some r.2⟩
  | .findOp index port => (l.findDataOp index port).map fun r => ⟨l, some r.1.toInt, some r.2⟩
  | .toggle index => (l.toggleOutput index).map fun r => ⟨r.1, r.2.map Int32.toInt, none⟩

/-- Without such a record: -1, `NULL` and the same list. With one: a pointer to such a record. -/
structure Honest (l : Ollist Addr) (es : List (Entry Addr)) (q : Query) (r : Answer Addr) :
    Prop where
  fails : (∀ e ∈ es, ¬ q.Meets e) → r.status = some (-1) ∧ (∀ p ∈ r.datapp, p = none) ∧ r.oll = l
  finds : (∃ e ∈ es, q.Meets e) → ∀ p ∈ r.datapp, ∃ e ∈ es, p = some e.datap ∧ q.Meets e

def LookupLaw [Fintype Addr] [DecidableEq Addr] (l : Ollist Addr) (es : List (Entry Addr))
    (q : Query) : Prop := ∃ r, l.ask q = some r ∧ Honest l es q r

/-- The condition on a query. -/
def Answerable (es : List (Entry Addr)) : Query → Prop
  | .find _ => True
  | .findIp index => ∀ e ∈ es, e.index = index → e.record.inputPort ≠ 0x41
  | .findOp index port => es = [] ∨ (∃ e ∈ es, (Query.findOp index port).Meets e) ∧
      (index = 0x41 → ∀ e ∈ es.getLast?, (Query.findOp index port).Meets e)
  | .toggle index => ∃ e ∈ es, e.index = index

section Laws

variable [Fintype Addr] [DecidableEq Addr] {l : Ollist Addr} {es : List (Entry Addr)}

private theorem Lists.find_law (h : Lists l es) (index : Int) : LookupLaw l es (.find index) := by
  refine ⟨_, by rw [Ollist.ask, h.findData, Option.map_some], ?_⟩
  cases hlookup : lookup Entry.index index es with
  | none =>
    refine ⟨fun _ => ⟨rfl, by simp, rfl⟩, ?_⟩
    rintro ⟨e, he, hmeets⟩
    exact absurd hmeets (lookup_eq_none.mp hlookup e he)
  | some e =>
    obtain ⟨he, hindex⟩ := lookup_eq_some hlookup
    refine ⟨fun hnone => absurd hindex (hnone e he), fun _ p hp => ⟨e, he, ?_, hindex⟩⟩
    exact (Option.some.inj hp).symm

private theorem Lists.findIp_law_iff (h : Lists l es) (index : Int) :
    LookupLaw l es (.findIp index) ↔ Answerable es (.findIp index) := by
  rw [LookupLaw, Ollist.ask, h.findDataIp, Option.map_some]
  cases hlookup : lookup Entry.index index es with
  | none =>
    have habsent := lookup_eq_none.mp hlookup
    refine iff_of_true ⟨_, rfl, fun _ => ⟨rfl, by simp, rfl⟩, ?_⟩ fun e he hindex =>
      absurd hindex (habsent e he)
    rintro ⟨e, he, hmeets⟩
    exact absurd hmeets.1 (habsent e he)
  | some e =>
    obtain ⟨he, hindex⟩ := lookup_eq_some hlookup
    have honly (f : Entry Addr) (hf : f ∈ es) (hfi : f.index = index) : f = e :=
      h.ascending.key_inj hf he (hfi.trans hindex.symm)
    by_cases hport : e.record.inputPort ≠ 0x41
    · refine iff_of_true ⟨_, rfl, fun hnone => absurd ⟨hindex, hport⟩ (hnone e he), ?_⟩ ?_
      · exact fun _ p hp => ⟨e, he, (Option.some.inj hp).symm, hindex, hport⟩
      · exact fun f hf hfi => honly f hf hfi ▸ hport
    · refine iff_of_false ?_ fun hok => hport (hok e he hindex)
      rintro ⟨r, hr, hhonest⟩
      cases hr
      have hnone (f : Entry Addr) (hf : f ∈ es) : ¬ (Query.findIp index).Meets f := by
        rintro ⟨hfi, hfp⟩
        exact hport (honly f hf hfi ▸ hfp)
      have hnull := (hhonest.fails hnone).2.1 (some e.datap) rfl
      cases hnull

private theorem Lists.findOp_law_iff (h : Lists l es) (index port : Int32) :
    LookupLaw l es (.findOp index port) ↔ Answerable es (.findOp index port) := by
  rw [LookupLaw, Ollist.ask, h.findDataOp, Option.map_some]
  cases hfind : es.find? fun e => Ollist.opens index port e.record with
  | some e =>
    have he := List.mem_of_find?_eq_some hfind
    have hopen : e.record.inputPort ≠ 0x41 ∧ (Query.findOp index port).Meets e := by
      simpa [Ollist.opens, Query.Meets] using List.find?_some hfind
    refine iff_of_true ⟨_, rfl, fun hnone => absurd hopen.2 (hnone e he), ?_⟩ (.inr ?_)
    · exact fun _ p hp => ⟨e, he, (Option.some.inj hp).symm, hopen.2⟩
    · refine ⟨⟨e, he, hopen.2⟩, fun hindex => absurd ?_ hopen.1⟩
      exact hopen.2.2.trans hindex
  | none =>
    have hclosed (e : Entry Addr) (he : e ∈ es) (hmeets : (Query.findOp index port).Meets e) :
        index = 0x41 := by
      have hno := List.find?_eq_none.mp hfind e he
      by_contra hindex
      refine hno ?_
      rw [Ollist.opens, decide_eq_true_iff]
      exact ⟨fun hport => hindex (hmeets.2.symm.trans hport), hmeets⟩
    cases hlast : es.getLast? with
    | none =>
      have hnil := List.getLast?_eq_none_iff.mp hlast
      subst hnil
      refine iff_of_true ⟨_, rfl, fun _ => ⟨rfl, by simp, rfl⟩, ?_⟩ (.inl rfl)
      rintro ⟨e, he, -⟩
      cases he
    | some last =>
      have hmem := List.mem_of_getLast? hlast
      constructor
      · rintro ⟨r, hr, hhonest⟩
        cases hr
        have hsome : ∃ e ∈ es, (Query.findOp index port).Meets e := by
          by_contra hno
          push Not at hno
          cases (hhonest.fails hno).2.1 (some last.datap) rfl
        refine .inr ⟨hsome, fun _ e he => ?_⟩
        obtain ⟨f, hf, hdatap, hmeets⟩ := hhonest.finds hsome (some last.datap) rfl
        have hsame : last = f :=
          List.inj_on_of_nodup_map h.distinct hmem hf (Option.some.inj hdatap)
        rw [hlast] at he
        cases he
        rwa [hsame]
      · rintro (rfl | ⟨⟨e, he, hmeets⟩, hok⟩)
        · cases hlast
        · refine ⟨_, rfl, fun hnone => absurd hmeets (hnone e he), fun _ p hp => ?_⟩
          refine ⟨last, hmem, (Option.some.inj hp).symm, hok (hclosed e he hmeets) last ?_⟩
          exact hlast

private theorem Lists.toggle_law_iff (h : Lists l es) (index : Int) :
    LookupLaw l es (.toggle index) ↔ Answerable es (.toggle index) := by
  cases hlookup : lookup Entry.index index es with
  | none =>
    have habsent := lookup_eq_none.mp hlookup
    refine iff_of_false ?_ fun hpresent => ?_
    · rintro ⟨r, hr, hhonest⟩
      rw [Ollist.ask, h.toggleOutput_absent hlookup, Option.map_some] at hr
      cases hr
      cases (hhonest.fails habsent).1
    · obtain ⟨e, he, hindex⟩ := hpresent
      exact habsent e he hindex
  | some e =>
    obtain ⟨he, hindex⟩ := lookup_eq_some hlookup
    obtain ⟨l', hcall, -⟩ := h.toggleOutput_found hlookup
    refine iff_of_true ⟨_, by rw [Ollist.ask, hcall, Option.map_some], ?_, ?_⟩ ⟨e, he, hindex⟩
    · exact fun hnone => absurd hindex (hnone e he)
    · exact fun _ p hp => by cases hp

theorem Lists.lookupLaw_iff (h : Lists l es) (q : Query) :
    LookupLaw l es q ↔ Answerable es q := by
  cases q with
  | find index => exact iff_of_true (h.find_law index) trivial
  | findIp index => exact h.findIp_law_iff index
  | findOp index port => exact h.findOp_law_iff index port
  | toggle index => exact h.toggle_law_iff index

end Laws

/-- For every memory and every run of inserts and toggles: the list can be told from the memory,
and a lookup is honest exactly when it is answerable. -/
theorem lookups_honest_iff [Fintype Addr] [DecidableEq Addr] (l : Ollist Addr)
    (us : List (Update Addr)) (halloc : AllSteps Ollist.update Allocates l.init us) :
    ∃ l' es, exec Ollist.update l.init us = some l' ∧ Lists l' es ∧
      ∀ q, LookupLaw l' es q ↔ Answerable es q := by
  obtain ⟨l', es, hrun, hlists, -⟩ := (Lists.init l).updates halloc
  exact ⟨l', es, hrun, hlists, hlists.lookupLaw_iff⟩

theorem lookups_honest_iff_lamp :
    ∃ l' es, exec Ollist.update noMemory.init [.insert 5 lampOutput 0 0, .insert 2 offOutput 1 1] =
        some l' ∧
      Lists l' es ∧ ∀ q, LookupLaw l' es q ↔ Answerable es q :=
  lookups_honest_iff noMemory [.insert 5 lampOutput 0 0, .insert 2 offOutput 1 1]
    (by decide +kernel)

/-- An output whose input port is 0x41. -/
def unassigned : OData := { offOutput with inputPort := 0x41 }

/-- It is the only output. The two lookups by port return -1 with a pointer to it, and a toggle
of another index returns a variable that was never written. -/
theorem failed_lookups_lie :
    ∃ l ∈ exec Ollist.update noMemory.init [.insert 5 unassigned 0 0],
      l.findDataIp 5 = some (-1, some 0) ∧ l.findDataOp 1 2 = some (-1, some 0) ∧
      (∃ r ∈ l.toggleOutput 7, r.2 = none) ∧
      ∃ es, Lists l es ∧ ¬ LookupLaw l es (.findIp 5) ∧ ¬ LookupLaw l es (.findOp 1 2) ∧
        ¬ LookupLaw l es (.toggle 7) := by
  obtain ⟨l, hcall, hlists⟩ := @Lists.insertData_new _ _ _ 5 _ _ unassigned 0 0
    (Lists.init noMemory) rfl rfl rfl
  have hrun : ∃ l ∈ exec Ollist.update noMemory.init [.insert 5 unassigned 0 0],
      l.findDataIp 5 = some (-1, some 0) ∧ l.findDataOp 1 2 = some (-1, some 0) ∧
      ∃ r ∈ l.toggleOutput 7, r.2 = none := by
    decide +kernel
  obtain ⟨l', hl', hip, hop, htoggle⟩ := hrun
  have hexec : exec Ollist.update noMemory.init [.insert 5 unassigned 0 0] = some l := by
    rw [exec_cons, Ollist.update, hcall, Option.bind_some, exec_nil]
  cases hexec.symm.trans hl'
  refine ⟨l, hexec, hip, hop, htoggle, _, hlists, ?_, ?_, ?_⟩
  · rw [hlists.lookupLaw_iff]
    intro hok
    exact hok _ (List.mem_singleton_self _) rfl rfl
  · rw [hlists.lookupLaw_iff]
    rintro (hnil | ⟨⟨e, he, hport, -⟩, -⟩)
    · cases hnil
    · rw [List.mem_singleton.mp he] at hport
      exact absurd hport (by decide)
  · rw [hlists.lookupLaw_iff]
    rintro ⟨e, he, hindex⟩
    rw [List.mem_singleton.mp he] at hindex
    exact absurd hindex (by decide)

end TcpIot.Queue
