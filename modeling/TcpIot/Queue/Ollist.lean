import TcpIot.Framework.Ascending
import TcpIot.Framework.Buffer
import TcpIot.Framework.Chain

/-!
# The output list

A singly linked list of output records, kept in ascending order of the index. Pointers are
addresses of a finite memory, the address that `malloc` returns is an argument of the call, and
a call is undefined when it touches a block that is not live or walks in circles.
-/

namespace TcpIot.Queue

open Framework

/-- `O_DATA`. -/
structure OData where
  label : Buffer 30
  port : Int32
  onoff : Int32
  inputPort : Int32
  inputType : Int32
  type : Int32
  timeDelay : Int32
  timeLeft : Int32
  pulseTime : Int32
  reset : Int32
deriving DecidableEq

def OData.toggled (d : OData) : OData := { d with onoff := if d.onoff = 1 then 0 else 1 }

/-- `ollist_node_t`. -/
structure Node (Addr : Type*) where
  index : Int
  datap : Addr
  nextp : Option Addr
deriving DecidableEq

/-- `ollist_t`, with the memory its nodes and records live in. -/
structure Ollist (Addr : Type*) where
  first : Option Addr
  nodes : Addr → Option (Node Addr)
  data : Addr → Option OData

variable {Addr : Type*}

def Node.entry (n : Node Addr) : Int × Addr := (n.index, n.datap)

namespace Ollist

def init (l : Ollist Addr) : Ollist Addr := { l with first := none }

/-- The test in the loop body of most calls. -/
def stops (index : Int) (e : Int × Addr) : Bool := e.1 = index ∨ index < e.1

/-- The loop of most calls, up to the node of `index` or the first one above. A loop that reads
more nodes than there are addresses never ends. -/
def seek [Fintype Addr] (index : Int) (l : Ollist Addr) :
    Option (Option Addr × Option (Addr × Node Addr)) :=
  walk Node.entry Node.nextp (stops index) l.nodes (Fintype.card Addr + 1) l.first l.first

/-- The node that the loop stopped at, when it is the one of `index`. -/
def found (index : Int) (cur : Option (Addr × Node Addr)) : Option (Addr × Node Addr) :=
  cur.filter fun c => c.2.index = index

/-- The status and `*datapp`. -/
def findData [Fintype Addr] (index : Int) (l : Ollist Addr) : Option (Int × Option Addr) :=
  (l.seek index).map fun (_, cur) =>
    match found index cur with
    | some (_, node) => (0, some node.datap)
    | none => (-1, none)

variable [DecidableEq Addr]

/-- `newData` and `newNode` are what the two calls of `malloc` return. -/
def insertData [Fintype Addr] (index : Int) (datap2 : OData) (newData newNode : Addr)
    (l : Ollist Addr) : Option (Ollist Addr) :=
  (alloc l.data newData datap2).bind fun data =>
  (l.seek index).bind fun (prev, cur) =>
    match found index cur with
    | some (a, node) =>
      (free data node.datap).bind fun data =>
      (store l.nodes a fun n => { n with datap := newData }).map fun nodes =>
        { l with nodes := nodes, data := data }
    | none =>
      (alloc l.nodes newNode ⟨index, newData, cur.map Prod.fst⟩).bind fun nodes =>
        if cur.map Prod.fst = l.first then
          some { first := some newNode, nodes := nodes, data := data }
        else
          prev.bind fun p =>
          (store nodes p fun n => { n with nextp := some newNode }).map fun nodes =>
            { l with nodes := nodes, data := data }

/-- The list and the returned `onoff`, which is uninitialised when there is no such node. -/
def toggleOutput [Fintype Addr] (index : Int) (l : Ollist Addr) :
    Option (Ollist Addr × Option Int32) :=
  (l.seek index).bind fun (_, cur) =>
    match found index cur with
    | some (_, node) =>
      (l.data node.datap).bind fun oData =>
      (store l.data node.datap fun _ => oData.toggled).map fun data =>
        ({ l with data := data }, some oData.toggled.onoff)
    | none => some (l, none)

/-- `prev->nextp = cur->nextp; free(cur);` -/
def unlink (prev : Option Addr) (cur : Addr) (nodes : Addr → Option (Node Addr)) :
    Option (Addr → Option (Node Addr)) :=
  (nodes cur).bind fun node =>
  prev.bind fun p =>
  (store nodes p fun n => { n with nextp := node.nextp }).bind fun nodes =>
    free nodes cur

/-- The list and `*datapp`. -/
def removeData [Fintype Addr] (index : Int) (l : Ollist Addr) :
    Option (Ollist Addr × Option Addr) :=
  (l.seek index).bind fun (prev, cur) =>
    match found index cur with
    | some (a, node) =>
      (unlink prev a l.nodes).map fun nodes => ({ l with nodes := nodes }, some node.datap)
    | none => some (l, none)

/-- The loop of `ollist_removeall_data`; it takes the next node out of the one it has freed. -/
def removeallLoop : Nat → Option Addr → Option Addr → (Addr → Option (Node Addr)) →
    Option (Addr → Option (Node Addr))
  | 0, _, _, _ => none
  | _ + 1, _, none, nodes => some nodes
  | fuel + 1, prev, some a, nodes =>
    (unlink prev a nodes).bind fun nodes =>
    (nodes a).bind fun cur =>
      removeallLoop fuel (some a) cur.nextp nodes

def removeallData [Fintype Addr] (l : Ollist Addr) : Option (Ollist Addr) :=
  (removeallLoop (Fintype.card Addr + 1) l.first l.first l.nodes).map fun nodes =>
    { l with nodes := nodes }

/-- The list and the status. The node that gets the new `datap` is unlinked and freed. -/
def changeData [Fintype Addr] (index : Int) (datap : Addr) (l : Ollist Addr) :
    Option (Ollist Addr × Int) :=
  (l.seek index).bind fun (prev, cur) =>
    match found index cur with
    | some (a, _) =>
      (store l.nodes a fun n => { n with datap := datap }).bind fun nodes =>
      (unlink prev a nodes).map fun nodes => ({ l with nodes := nodes }, 0)
    | none => some (l, -1)

end Ollist

/-- An element of the list: its node and its record with their addresses. -/
structure Entry (Addr : Type*) where
  node : Addr
  index : Int
  datap : Addr
  record : OData

def Entry.cell (e : Entry Addr) : Addr × (Int × Addr) := (e.node, (e.index, e.datap))

/-- From `first` the live nodes of the entries are reachable up to `NULL`, ascending, each with a
live record of its own. -/
structure Lists (l : Ollist Addr) (es : List (Entry Addr)) : Prop where
  chain : Segment Node.entry Node.nextp l.nodes l.first (es.map Entry.cell) none
  ascending : Ascending Entry.index es
  records : ∀ e ∈ es, l.data e.datap = some e.record
  distinct : (es.map Entry.datap).Nodup

theorem Lists.init (l : Ollist Addr) : Lists l.init [] where
  chain := rfl
  ascending := List.Pairwise.nil
  records := fun _ he => by cases he
  distinct := List.nodup_nil

section Seeking

variable {l : Ollist Addr} {es : List (Entry Addr)} {index : Int} {e : Entry Addr}

/-- The nodes below `index`, as the loop meets them. -/
def belowCells (index : Int) (es : List (Entry Addr)) : List (Addr × (Int × Addr)) :=
  (below Entry.index index es).map Entry.cell

def aboveCells (index : Int) (es : List (Entry Addr)) : List (Addr × (Int × Addr)) :=
  (above Entry.index index es).map Entry.cell

private theorem stops_below {c : Addr × (Int × Addr)} (h : c ∈ belowCells index es) :
    Ollist.stops index c.2 = false := by
  obtain ⟨e, he, rfl⟩ := List.mem_map.mp h
  have hlt := key_lt_of_mem_below he
  simp [Ollist.stops, Entry.cell, hlt.ne, hlt.le]

theorem Lists.parts (h : Lists l es) (index : Int) :
    ∃ q, Segment Node.entry Node.nextp l.nodes l.first (belowCells index es) q ∧
      Segment Node.entry Node.nextp l.nodes q
        ((lookup Entry.index index es).toList.map Entry.cell ++ aboveCells index es) none := by
  have hchain := h.chain
  rw [h.ascending.split index, List.map_append, List.map_append] at hchain
  exact segment_append.mp hchain

variable [Fintype Addr]

private theorem Lists.below_fits (h : Lists l es) (index : Int) :
    (belowCells index es).length < Fintype.card Addr + 1 := by
  have hall := h.chain.length_le_card
  have hinitial := (List.takeWhile_prefix (l := es) fun e => e.index < index).length_le
  rw [List.length_map] at hall
  rw [belowCells, List.length_map]
  exact Nat.lt_succ_of_le (hinitial.trans hall)

theorem Lists.seek_found (h : Lists l es) (hlookup : lookup Entry.index index es = some e) :
    ∃ node, l.nodes e.node = some node ∧ node.index = index ∧ node.datap = e.datap ∧
      l.seek index =
        some (lastAddr (belowCells index es) l.first, some (e.node, node)) ∧
      Segment Node.entry Node.nextp l.nodes l.first (belowCells index es) (some e.node) ∧
      Segment Node.entry Node.nextp l.nodes node.nextp (aboveCells index es) none := by
  obtain ⟨q, hbelow, hrest⟩ := h.parts index
  rw [hlookup] at hrest
  obtain ⟨rfl, node, hnode, hentry, habove⟩ := hrest
  have hindex : node.index = index :=
    (congrArg Prod.fst hentry).trans (lookup_eq_some hlookup).2
  refine ⟨node, hnode, hindex, congrArg Prod.snd hentry, ?_, hbelow, habove⟩
  refine walk_stop hbelow (fun c hc => stops_below hc) hnode ?_ (h.below_fits index) l.first
  simp [Ollist.stops, Node.entry, hindex]

theorem Lists.seek_absent (h : Lists l es) (hlookup : lookup Entry.index index es = none) :
    ∃ cur, Ollist.found index cur = none ∧
      l.seek index = some (lastAddr (belowCells index es) l.first, cur) ∧
      Segment Node.entry Node.nextp l.nodes l.first (belowCells index es) (cur.map Prod.fst) ∧
      Segment Node.entry Node.nextp l.nodes (cur.map Prod.fst) (aboveCells index es) none := by
  obtain ⟨q, hbelow, hrest⟩ := h.parts index
  rw [hlookup] at hrest
  change Segment _ _ _ q (aboveCells index es) none at hrest
  cases habove : above Entry.index index es with
  | nil =>
    have hnull : q = none := by
      rw [aboveCells, habove] at hrest
      exact hrest
    subst hnull
    refine ⟨none, rfl, ?_, hbelow, hrest⟩
    exact walk_null hbelow (fun c hc => stops_below hc) (h.below_fits index) l.first
  | cons e rest =>
    have hlt : index < e.index :=
      key_lt_of_mem_above h.ascending (habove ▸ List.mem_cons_self)
    obtain ⟨hq, node, hnode, hentry, -⟩ := (by rwa [aboveCells, habove] at hrest :
      Segment Node.entry Node.nextp l.nodes q ((e :: rest).map Entry.cell) none)
    subst hq
    have hindex : node.index = e.index := congrArg Prod.fst hentry
    refine ⟨some (e.node, node), ?_, ?_, hbelow, hrest⟩
    · simp [Ollist.found, hindex, hlt.ne']
    · refine walk_stop hbelow (fun c hc => stops_below hc) hnode ?_ (h.below_fits index) l.first
      simp [Ollist.stops, Node.entry, hindex, hlt]

theorem Lists.findData (h : Lists l es) (index : Int) :
    l.findData index = some
      (match lookup Entry.index index es with
      | some e => (0, some e.datap)
      | none => (-1, none)) := by
  cases hlookup : lookup Entry.index index es with
  | some e =>
    obtain ⟨node, hnode, hindex, hdatap, hseek, -, -⟩ := h.seek_found hlookup
    have hfound : Ollist.found index (some (e.node, node)) = some (e.node, node) := by
      simp [Ollist.found, hindex]
    simp only [Ollist.findData, hseek, Option.map_some, hfound, hdatap]
  | none =>
    obtain ⟨cur, hfound, hseek, -, -⟩ := h.seek_absent hlookup
    simp only [Ollist.findData, hseek, Option.map_some, hfound]

end Seeking

section Calls

variable {l : Ollist Addr} {es : List (Entry Addr)} {index : Int} {e e' : Entry Addr}

private theorem map_put {β : Type*} (g : Entry Addr → β) (e : Entry Addr) :
    (put Entry.index e es).map g =
      (below Entry.index e.index es).map g ++ g e :: (above Entry.index e.index es).map g := by
  rw [put, List.map_append, List.map_cons]

private theorem map_put_same {β : Type*} (hsorted : Ascending Entry.index es)
    (hlookup : lookup Entry.index e'.index es = some e) {g : Entry Addr → β} (hg : g e' = g e) :
    (put Entry.index e' es).map g = es.map g := by
  conv_rhs => rw [hsorted.split e'.index, hlookup]
  rw [map_put, hg, List.map_append, List.map_append]
  rfl

private theorem Lists.datap_ne (h : Lists l es) (hlookup : lookup Entry.index index es = some e)
    {f : Entry Addr} (hf : f ∈ es) (hne : f.index ≠ index) : f.datap ≠ e.datap := by
  obtain ⟨he, hindex⟩ := lookup_eq_some hlookup
  intro heq
  rw [List.inj_on_of_nodup_map h.distinct hf he heq] at hne
  exact hne hindex

private theorem mem_put_cases {f : Entry Addr} (hsorted : Ascending Entry.index es)
    (hf : f ∈ put Entry.index e es) : f = e ∨ f ∈ es ∧ f.index ≠ e.index := by
  rcases List.mem_append.mp hf with hlow | hrest
  · exact .inr ⟨mem_of_mem_below hlow, (key_lt_of_mem_below hlow).ne⟩
  · rcases List.mem_cons.mp hrest with rfl | hhigh
    · exact .inl rfl
    · exact .inr ⟨mem_of_mem_above hhigh, (key_lt_of_mem_above hsorted hhigh).ne'⟩

theorem Lists.node_apart (h : Lists l es)
    (hlookup : lookup Entry.index index es = some e) :
    e.node ∉ (belowCells index es).map Prod.fst ∧ e.node ∉ (aboveCells index es).map Prod.fst := by
  have hnodup := h.chain.nodup
  rw [h.ascending.split index, hlookup, List.map_append, List.map_append, List.map_append,
    List.map_append] at hnodup
  have hmiddle := (List.nodup_middle.mp hnodup : (_ :: (_ ++ _)).Nodup)
  have hnot := (List.nodup_cons.mp hmiddle).1
  rw [List.mem_append, not_or] at hnot
  exact hnot

private theorem Lists.fresh_data (h : Lists l es) {newData : Addr} (hdata : l.data newData = none)
    {f : Entry Addr} (hf : f ∈ es) : f.datap ≠ newData := by
  rintro rfl
  cases (h.records f hf).symm.trans hdata

private theorem Lists.put_distinct (h : Lists l es) {newData : Addr} (hdata : l.data newData = none)
    (hdatap : e.datap = newData) : ((put Entry.index e es).map Entry.datap).Nodup := by
  have hrest : ((erase Entry.index e.index es).map Entry.datap).Nodup :=
    h.distinct.sublist ((h.ascending.erase_sublist e.index).map _)
  rw [erase, List.map_append] at hrest
  rw [map_put, List.nodup_middle, List.nodup_cons]
  refine ⟨fun hmem => ?_, hrest⟩
  rw [← List.map_append] at hmem
  obtain ⟨f, hf, heq⟩ := List.mem_map.mp hmem
  exact h.fresh_data hdata ((h.ascending.erase_sublist e.index).subset hf) (heq.trans hdatap)

variable [DecidableEq Addr] [Fintype Addr]

theorem Lists.toggleOutput_found (h : Lists l es)
    (hlookup : lookup Entry.index index es = some e) :
    ∃ l', l.toggleOutput index = some (l', some e.record.toggled.onoff) ∧
      Lists l' (put Entry.index { e with record := e.record.toggled } es) := by
  obtain ⟨he, hindex⟩ := lookup_eq_some hlookup
  obtain ⟨node, hnode, hnodeIndex, hdatap, hseek, -, -⟩ := h.seek_found hlookup
  have hfound : Ollist.found index (some (e.node, node)) = some (e.node, node) := by
    simp [Ollist.found, hnodeIndex]
  have hrecord := h.records e he
  refine ⟨{ l with data := Function.update l.data e.datap (some e.record.toggled) }, ?_, ?_⟩
  · simp only [Ollist.toggleOutput, hseek, Option.bind_some, hfound, hdatap, hrecord,
      store_eq hrecord, Option.map_some]
  · have hsame : lookup Entry.index ({ e with record := e.record.toggled } : Entry Addr).index es =
        some e := by rwa [← hindex] at hlookup
    refine ⟨?_, h.ascending.put _, fun f hf => ?_, ?_⟩
    · rw [map_put_same h.ascending hsame rfl]
      exact h.chain
    · rcases mem_put_cases h.ascending hf with rfl | ⟨hmem, hne⟩
      · exact Function.update_self _ _ _
      · rw [← h.records f hmem]
        exact Function.update_of_ne (h.datap_ne hsame hmem hne) _ _
    · rw [map_put_same h.ascending hsame rfl]
      exact h.distinct

theorem Lists.toggleOutput_absent (h : Lists l es)
    (hlookup : lookup Entry.index index es = none) : l.toggleOutput index = some (l, none) := by
  obtain ⟨cur, hfound, hseek, -, -⟩ := h.seek_absent hlookup
  simp only [Ollist.toggleOutput, hseek, Option.bind_some, hfound]

section Insert

variable {datap2 : OData} {newData newNode : Addr}

theorem Lists.insertData_replace (h : Lists l es) (hdata : l.data newData = none)
    (hlookup : lookup Entry.index index es = some e) :
    ∃ l', l.insertData index datap2 newData newNode = some l' ∧
      Lists l' (put Entry.index ⟨e.node, index, newData, datap2⟩ es) := by
  obtain ⟨he, hindex⟩ := lookup_eq_some hlookup
  obtain ⟨node, hnode, hnodeIndex, hdatap, hseek, hbelow, habove⟩ := h.seek_found hlookup
  obtain ⟨hnotBelow, hnotAbove⟩ := h.node_apart hlookup
  have hfound : Ollist.found index (some (e.node, node)) = some (e.node, node) := by
    simp [Ollist.found, hnodeIndex]
  have hold : Function.update l.data newData (some datap2) e.datap = some e.record := by
    rw [Function.update_of_ne (h.fresh_data hdata he)]
    exact h.records e he
  have hrecords (f : Entry Addr)
      (hf : f ∈ put Entry.index (⟨e.node, index, newData, datap2⟩ : Entry Addr) es) :
      Function.update (Function.update l.data newData (some datap2)) e.datap none f.datap =
        some f.record := by
    rcases mem_put_cases h.ascending hf with rfl | ⟨hmem, hne⟩
    · rw [Function.update_of_ne (h.fresh_data hdata he).symm]
      exact Function.update_self _ _ _
    · rw [Function.update_of_ne (h.datap_ne hlookup hmem hne),
        Function.update_of_ne (h.fresh_data hdata hmem)]
      exact h.records f hmem
  refine ⟨⟨l.first, Function.update l.nodes e.node (some { node with datap := newData }),
    Function.update (Function.update l.data newData (some datap2)) e.datap none⟩, ?_, ?_⟩
  · simp only [Ollist.insertData, alloc_eq hdata, hseek, Option.bind_some, hfound, hdatap,
      free_eq hold, store_eq hnode, Option.map_some]
  · refine ⟨?_, h.ascending.put _, hrecords, h.put_distinct hdata rfl⟩
    rw [map_put]
    refine segment_append.mpr ⟨_, hbelow.update hnotBelow _, rfl, _, Function.update_self _ _ _,
      ?_, habove.update hnotAbove _⟩
    rw [Node.entry, hnodeIndex]

theorem Lists.insertData_new (h : Lists l es) (hdata : l.data newData = none)
    (hnode : l.nodes newNode = none) (hlookup : lookup Entry.index index es = none) :
    ∃ l', l.insertData index datap2 newData newNode = some l' ∧
      Lists l' (put Entry.index ⟨newNode, index, newData, datap2⟩ es) := by
  obtain ⟨cur, hfound, hseek, hbelow, habove⟩ := h.seek_absent hlookup
  set new : Node Addr := ⟨index, newData, cur.map Prod.fst⟩ with hnew
  have hrecords (f : Entry Addr)
      (hf : f ∈ put Entry.index (⟨newNode, index, newData, datap2⟩ : Entry Addr) es) :
      Function.update l.data newData (some datap2) f.datap = some f.record := by
    rcases mem_put_cases h.ascending hf with rfl | ⟨hmem, -⟩
    · exact Function.update_self _ _ _
    · rw [Function.update_of_ne (h.fresh_data hdata hmem)]
      exact h.records f hmem
  have hcall : l.insertData index datap2 newData newNode =
      if cur.map Prod.fst = l.first then
        some ⟨some newNode, Function.update l.nodes newNode (some new),
          Function.update l.data newData (some datap2)⟩
      else
        (lastAddr (belowCells index es) l.first).bind fun p =>
        (store (Function.update l.nodes newNode (some new)) p
          fun n => { n with nextp := some newNode }).map fun nodes =>
            ⟨l.first, nodes, Function.update l.data newData (some datap2)⟩ := by
    simp only [Ollist.insertData, alloc_eq hdata, hseek, Option.bind_some, hfound,
      alloc_eq hnode, ← hnew]
  by_cases hfirst : cur.map Prod.fst = l.first
  · rw [if_pos hfirst] at hcall
    refine ⟨_, hcall, ?_, h.ascending.put _, hrecords, h.put_distinct hdata rfl⟩
    have hnil : belowCells index es = [] := by
      have hshort : Segment Node.entry Node.nextp l.nodes l.first (aboveCells index es) none :=
        hfirst ▸ habove
      have hsame := hshort.unique (segment_append.mpr ⟨_, hbelow, habove⟩)
      exact List.append_left_eq_self.mp hsame.symm
    rw [map_put]
    change Segment _ _ _ _ (belowCells index es ++ _) _
    rw [hnil]
    exact ⟨rfl, new, Function.update_self _ _ _, rfl, habove.update (habove.not_mem hnode) _⟩
  · rw [if_neg hfirst] at hcall
    cases hcells : belowCells index es using List.reverseRec with
    | nil =>
      rw [hcells, segment_nil] at hbelow
      exact absurd hbelow.symm hfirst
    | append_singleton cells last =>
      obtain ⟨p, x⟩ := last
      rw [hcells] at hbelow
      obtain ⟨prev, hprev, hpay⟩ := (hbelow.update (hbelow.not_mem hnode) (some new)).of_mem
        (y := (p, x)) (by simp)
      rw [hcells, lastAddr_concat, Option.bind_some, store_eq hprev, Option.map_some] at hcall
      refine ⟨_, hcall, ?_, h.ascending.put _, hrecords, h.put_distinct hdata rfl⟩
      rw [map_put]
      change Segment _ _ _ _ (belowCells index es ++ _) _
      rw [hcells]
      exact hbelow.link habove hnode rfl hpay rfl

end Insert

end Calls

end TcpIot.Queue
