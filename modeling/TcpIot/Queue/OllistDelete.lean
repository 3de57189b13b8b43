import TcpIot.Queue.OllistMap

/-!
# Deletion from the output list

`prev->nextp = cur->nextp` unlinks every node but the first, for which `prev` is `cur`, and
nothing but an insert ever writes `first`. `ollist_removeall_data` reads the successor of a node
after it has freed it.
-/

namespace TcpIot.Queue

open Framework

variable {Addr : Type*}

section Unlinking

variable [DecidableEq Addr] {nodes : Addr → Option (Node Addr)} {first : Option Addr}
  {cells above : List (Addr × (Int × Addr))} {p a : Addr} {x : Int × Addr} {node : Node Addr}

private theorem unlink_inner
    (hbelow : Segment Node.entry Node.nextp nodes first (cells ++ [(p, x)]) (some a))
    (hnode : nodes a = some node)
    (habove : Segment Node.entry Node.nextp nodes node.nextp above none) :
    ∃ nodes', Ollist.unlink (some p) a nodes = some nodes' ∧
      Segment Node.entry Node.nextp nodes' first (cells ++ [(p, x)] ++ above) none := by
  obtain ⟨prev, hprev, hpay⟩ := hbelow.of_mem (y := (p, x)) (by simp)
  obtain ⟨hne, hsegment⟩ := hbelow.unlink (c := { prev with nextp := node.nextp }) hnode habove
    hpay rfl
  refine ⟨_, ?_, hsegment⟩
  rw [Ollist.unlink, hnode, Option.bind_some, Option.bind_some, store_eq hprev, Option.bind_some]
  exact free_eq ((Function.update_of_ne hne _ _).trans hnode)

private theorem unlink_head (hnode : nodes a = some node) :
    ∃ nodes', Ollist.unlink (some a) a nodes = some nodes' ∧ nodes' a = none := by
  refine ⟨Function.update (Function.update nodes a (some { node with nextp := node.nextp })) a none,
    ?_, Function.update_self _ _ _⟩
  rw [Ollist.unlink, hnode, Option.bind_some, Option.bind_some, store_eq hnode, Option.bind_some]
  exact free_eq (Function.update_self _ _ _)

private theorem stored_same (hnode : nodes a = some node) :
    Function.update nodes a (some { node with datap := node.datap }) = nodes := by
  rw [← hnode]
  exact Function.update_eq_self a nodes

end Unlinking

private theorem Lists.erased {l : Ollist Addr} {es : List (Entry Addr)} {index : Int}
    {nodes : Addr → Option (Node Addr)} (h : Lists l es)
    (hchain : Segment Node.entry Node.nextp nodes l.first
      (belowCells index es ++ aboveCells index es) none) :
    Lists { l with nodes := nodes } (erase Entry.index index es) := by
  have hsublist := h.ascending.erase_sublist index
  refine ⟨?_, h.ascending.erase index, fun f hf => h.records f (hsublist.subset hf),
    h.distinct.sublist (hsublist.map _)⟩
  rw [erase, List.map_append]
  exact hchain

/-- The calls that change the list. -/
inductive Op (Addr : Type*) where
  | update (u : Update Addr)
  | remove (index : Int)
  | removeall
  | change (index : Int) (datap : Addr)

/-- `malloc` returns blocks that are not live. -/
def OpAllocates (l : Ollist Addr) : Op Addr → Prop
  | .update u => Allocates l u
  | _ => True

instance (l : Ollist Addr) : (op : Op Addr) → Decidable (OpAllocates l op)
  | .update u => inferInstanceAs (Decidable (Allocates l u))
  | .remove _ => isTrue trivial
  | .removeall => isTrue trivial
  | .change _ _ => isTrue trivial

/-- The index is not that of the node `first` points to. -/
def BehindHead (l : Ollist Addr) (index : Int) : Prop :=
  ∀ a ∈ l.first, ∀ node ∈ l.nodes a, node.index ≠ index

/-- The condition on a call. -/
def HeadStays (l : Ollist Addr) : Op Addr → Prop
  | .update _ => True
  | .remove index => BehindHead l index
  | .removeall => l.first = none
  | .change index _ => BehindHead l index

private theorem Lists.behind_of_absent {l : Ollist Addr} {es : List (Entry Addr)} {index : Int}
    (h : Lists l es) (hlookup : lookup Entry.index index es = none) : BehindHead l index := by
  intro a ha node hnode hindex
  have hchain := h.chain
  cases es with
  | nil => cases ha.symm.trans hchain
  | cons e es =>
    obtain ⟨hstart, node', hnode', hpay, -⟩ := hchain
    cases ha.symm.trans hstart
    cases hnode.symm.trans hnode'
    refine lookup_eq_none.mp hlookup e List.mem_cons_self ?_
    exact (congrArg Prod.fst hpay).symm.trans hindex

private theorem Lists.below_nil_iff [Fintype Addr] {l : Ollist Addr} {es : List (Entry Addr)}
    {index : Int} {e : Entry Addr} (h : Lists l es)
    (hlookup : lookup Entry.index index es = some e) :
    belowCells index es = [] ↔ ¬ BehindHead l index := by
  obtain ⟨node, hnode, hindex, -, -, hbelow, -⟩ := h.seek_found hlookup
  constructor
  · intro hnil hbehind
    rw [hnil, segment_nil] at hbelow
    exact hbehind e.node hbelow node hnode hindex
  · intro hhead
    cases hcells : belowCells index es with
    | nil => rfl
    | cons c cells =>
      rw [hcells] at hbelow
      refine absurd (fun a ha first hfirst heq => ?_) hhead
      obtain ⟨hstart, c', hc', hpay, -⟩ := hbelow
      cases ha.symm.trans hstart
      cases hfirst.symm.trans hc'
      have hmem : c ∈ belowCells index es := hcells ▸ List.mem_cons_self
      obtain ⟨f, hf, rfl⟩ := List.mem_map.mp hmem
      have hlt := key_lt_of_mem_below hf
      rw [← heq] at hlt
      exact hlt.ne (congrArg Prod.fst hpay).symm

/-- `first` points to a node that is not live. -/
def Dangling (l : Ollist Addr) : Prop := ∃ a, l.first = some a ∧ l.nodes a = none

private theorem Dangling.not_lists {l : Ollist Addr} {es : List (Entry Addr)} (hl : Dangling l) :
    ¬ Lists l es := by
  obtain ⟨a, hfirst, hdead⟩ := hl
  intro h
  have hchain := h.chain
  cases es with
  | nil => cases hfirst.symm.trans hchain
  | cons e es =>
    obtain ⟨hstart, node, hnode, -⟩ := hchain
    cases hfirst.symm.trans hstart
    cases hdead.symm.trans hnode

variable [DecidableEq Addr] [Fintype Addr]

def Ollist.step (l : Ollist Addr) : Op Addr → Option (Ollist Addr)
  | .update u => l.update u
  | .remove index => (l.removeData index).map Prod.fst
  | .removeall => l.removeallData
  | .change index datap => (l.changeData index datap).map Prod.fst

/-- Finds and inserts behave as on the list `es`. -/
structure Behaves (l : Ollist Addr) (es : List (Entry Addr)) : Prop where
  find : ∀ index, l.findData index = some
    (match lookup Entry.index index es with
    | some e => (0, some e.datap)
    | none => (-1, none))
  insert : ∀ index datap2 newData newNode, l.data newData = none → l.nodes newNode = none →
    ∃ l' e, l.insertData index datap2 newData newNode = some l' ∧ e.index = index ∧
      e.record = datap2 ∧ Lists l' (put Entry.index e es)

/-- A removal returns the node's record and leaves the shorter list, `removeall` leaves none, and
no call leaves a freed node reachable from `first`. -/
def DeletionLaw (l : Ollist Addr) : Op Addr → Prop
  | .remove index => ∃ es, Lists l es ∧ ∃ l',
      l.removeData index = some (l', (lookup Entry.index index es).map Entry.datap) ∧
      Lists l' (erase Entry.index index es) ∧ Behaves l' (erase Entry.index index es) ∧
      ∀ e ∈ lookup Entry.index index es, l'.data e.datap = some e.record
  | .removeall => ∃ l', l.removeallData = some l' ∧ l'.first = none ∧
      ∀ index, l'.findData index = some (-1, none)
  | op => ∃ l' es', l.step op = some l' ∧ Lists l' es'

section Calls

variable {l l' : Ollist Addr} {es : List (Entry Addr)} {index : Int} {e : Entry Addr}
  {nodes : Addr → Option (Node Addr)}

theorem Lists.behaves (h : Lists l es) : Behaves l es where
  find := h.findData
  insert := by
    intro index datap2 newData newNode hdata hnode
    cases hlookup : lookup Entry.index index es with
    | some e =>
      obtain ⟨l', hcall, hlists⟩ := h.insertData_replace hdata hlookup
      exact ⟨l', _, hcall, rfl, rfl, hlists⟩
    | none =>
      obtain ⟨l', hcall, hlists⟩ := h.insertData_new hdata hnode hlookup
      exact ⟨l', _, hcall, rfl, rfl, hlists⟩

private theorem Lists.unlink_behind (h : Lists l es) (hbehind : BehindHead l index)
    (hlookup : lookup Entry.index index es = some e) (datap : Addr) :
    ∃ node nodes', l.nodes e.node = some node ∧ node.datap = e.datap ∧
      l.seek index = some (lastAddr (belowCells index es) l.first, some (e.node, node)) ∧
      Ollist.found index (some (e.node, node)) = some (e.node, node) ∧
      Ollist.unlink (lastAddr (belowCells index es) l.first) e.node
        (Function.update l.nodes e.node (some { node with datap := datap })) = some nodes' ∧
      Lists { l with nodes := nodes' } (erase Entry.index index es) := by
  obtain ⟨node, hnode, hindex, hdatap, hseek, hbelow, habove⟩ := h.seek_found hlookup
  obtain ⟨hnotBelow, hnotAbove⟩ := h.node_apart hlookup
  have hfound : Ollist.found index (some (e.node, node)) = some (e.node, node) := by
    simp [Ollist.found, hindex]
  have hstored := hbelow.update hnotBelow (some { node with datap := datap })
  cases hcells : belowCells index es using List.reverseRec with
  | nil => exact absurd hbehind ((h.below_nil_iff hlookup).mp hcells)
  | append_singleton cells last =>
    obtain ⟨p, x⟩ := last
    rw [hcells] at hstored
    obtain ⟨nodes', hunlink, hchain⟩ := unlink_inner hstored (Function.update_self _ _ _)
      (habove.update hnotAbove _)
    refine ⟨node, nodes', hnode, hdatap, hcells ▸ hseek, hfound, ?_, h.erased (hcells ▸ hchain)⟩
    rw [lastAddr_concat]
    exact hunlink

private theorem Lists.unlink_head (h : Lists l es) (hhead : ¬ BehindHead l index)
    (hlookup : lookup Entry.index index es = some e) (datap : Addr) :
    ∃ node nodes', l.nodes e.node = some node ∧ node.datap = e.datap ∧
      l.seek index = some (l.first, some (e.node, node)) ∧
      Ollist.found index (some (e.node, node)) = some (e.node, node) ∧
      Ollist.unlink l.first e.node
        (Function.update l.nodes e.node (some { node with datap := datap })) = some nodes' ∧
      l.first = some e.node ∧ nodes' e.node = none := by
  obtain ⟨node, hnode, hindex, hdatap, hseek, hbelow, -⟩ := h.seek_found hlookup
  have hfound : Ollist.found index (some (e.node, node)) = some (e.node, node) := by
    simp [Ollist.found, hindex]
  have hnil := (h.below_nil_iff hlookup).mpr hhead
  rw [hnil] at hseek hbelow
  obtain ⟨nodes', hunlink, hfreed⟩ := @Queue.unlink_head _ _
    (Function.update l.nodes e.node (some { node with datap := datap })) e.node _
    (Function.update_self _ _ _)
  rw [segment_nil] at hbelow
  exact ⟨node, nodes', hnode, hdatap, hseek, hfound, hbelow ▸ hunlink, hbelow, hfreed⟩

theorem Lists.removeData_behind (h : Lists l es) (hbehind : BehindHead l index) :
    ∃ l', l.removeData index = some (l', (lookup Entry.index index es).map Entry.datap) ∧
      Lists l' (erase Entry.index index es) ∧ l'.data = l.data := by
  cases hlookup : lookup Entry.index index es with
  | none =>
    obtain ⟨cur, hfound, hseek, -, -⟩ := h.seek_absent hlookup
    refine ⟨l, ?_, ?_, rfl⟩
    · simp only [Ollist.removeData, hseek, Option.bind_some, hfound, Option.map_none]
    · rwa [h.ascending.erase_eq_self hlookup]
  | some e =>
    obtain ⟨node, nodes', hnode, hdatap, hseek, hfound, hunlink, hlists⟩ :=
      h.unlink_behind hbehind hlookup e.datap
    rw [← hdatap, stored_same hnode] at hunlink
    refine ⟨{ l with nodes := nodes' }, ?_, hlists, rfl⟩
    simp only [Ollist.removeData, hseek, Option.bind_some, hfound, hunlink, Option.map_some,
      hdatap]

theorem Lists.changeData_behind (h : Lists l es) (hbehind : BehindHead l index) (datap : Addr) :
    ∃ l' status, l.changeData index datap = some (l', status) ∧
      Lists l' (erase Entry.index index es) := by
  cases hlookup : lookup Entry.index index es with
  | none =>
    obtain ⟨cur, hfound, hseek, -, -⟩ := h.seek_absent hlookup
    refine ⟨l, -1, ?_, ?_⟩
    · simp only [Ollist.changeData, hseek, Option.bind_some, hfound]
    · rwa [h.ascending.erase_eq_self hlookup]
  | some e =>
    obtain ⟨node, nodes', hnode, -, hseek, hfound, hunlink, hlists⟩ :=
      h.unlink_behind hbehind hlookup datap
    refine ⟨{ l with nodes := nodes' }, 0, ?_, hlists⟩
    simp only [Ollist.changeData, hseek, Option.bind_some, hfound, store_eq hnode, hunlink,
      Option.map_some]

theorem Lists.removeData_head (h : Lists l es) (hhead : ¬ BehindHead l index) :
    ∃ l' datap, l.removeData index = some (l', datap) ∧ Dangling l' := by
  cases hlookup : lookup Entry.index index es with
  | none => exact absurd (h.behind_of_absent hlookup) hhead
  | some e =>
    obtain ⟨node, nodes', hnode, hdatap, hseek, hfound, hunlink, hfirst, hfreed⟩ :=
      h.unlink_head hhead hlookup e.datap
    rw [← hdatap, stored_same hnode] at hunlink
    refine ⟨{ l with nodes := nodes' }, some node.datap, ?_, e.node, hfirst, hfreed⟩
    simp only [Ollist.removeData, hseek, Option.bind_some, hfound, hunlink, Option.map_some]

theorem Lists.changeData_head (h : Lists l es) (hhead : ¬ BehindHead l index) (datap : Addr) :
    ∃ l' status, l.changeData index datap = some (l', status) ∧ Dangling l' := by
  cases hlookup : lookup Entry.index index es with
  | none => exact absurd (h.behind_of_absent hlookup) hhead
  | some e =>
    obtain ⟨node, nodes', hnode, -, hseek, hfound, hunlink, hfirst, hfreed⟩ :=
      h.unlink_head hhead hlookup datap
    refine ⟨{ l with nodes := nodes' }, 0, ?_, e.node, hfirst, hfreed⟩
    simp only [Ollist.changeData, hseek, Option.bind_some, hfound, store_eq hnode, hunlink,
      Option.map_some]

/-- On any list the loop takes the second node out of the first one, which it has freed. -/
theorem Lists.removeallData_eq (h : Lists l es) :
    l.removeallData = if l.first = none then some l else none := by
  have hchain := h.chain
  cases es with
  | nil =>
    rw [List.map_nil, segment_nil] at hchain
    rw [if_pos hchain, Ollist.removeallData, hchain]
    simp only [Ollist.removeallLoop, Option.map_some, ← hchain]
  | cons e es =>
    obtain ⟨hfirst, node, hnode, -⟩ := hchain
    obtain ⟨nodes', hunlink, hfreed⟩ := Queue.unlink_head hnode
    simp only [Ollist.removeallData, hfirst, Ollist.removeallLoop, hunlink, Option.bind_some,
      hfreed, Option.bind_none, Option.map_none, reduceCtorEq, if_false]

private theorem Lists.removeall_law_iff (h : Lists l es) :
    DeletionLaw l .removeall ↔ l.first = none := by
  constructor
  · rintro ⟨l', hcall, -, -⟩
    by_contra hfirst
    rw [h.removeallData_eq, if_neg hfirst] at hcall
    cases hcall
  · intro hfirst
    have hnil : es = [] := by
      cases es with
      | nil => rfl
      | cons e es => cases hfirst.symm.trans h.chain.1
    refine ⟨l, by rw [h.removeallData_eq, if_pos hfirst], hfirst, fun index => ?_⟩
    rw [h.findData, hnil]
    rfl

/-- A call that the allocator serves obeys the law exactly when it meets the condition. -/
theorem Lists.law_iff (h : Lists l es) {op : Op Addr} (halloc : OpAllocates l op) :
    DeletionLaw l op ↔ HeadStays l op := by
  cases op with
  | update u =>
    obtain ⟨l', es', hcall, hlists, -⟩ := h.update halloc
    exact iff_of_true ⟨l', es', hcall, hlists⟩ trivial
  | remove index =>
    constructor
    · rintro ⟨es', -, l', hcall, hlists, -, -⟩
      by_contra hhead
      obtain ⟨next, datap, hnext, hdangling⟩ := h.removeData_head hhead
      cases hcall.symm.trans hnext
      exact hdangling.not_lists hlists
    · intro hbehind
      obtain ⟨l', hcall, hlists, hdata⟩ := h.removeData_behind hbehind
      refine ⟨es, h, l', hcall, hlists, hlists.behaves, fun e he => ?_⟩
      rw [hdata]
      exact h.records e (lookup_eq_some he).1
  | removeall => exact h.removeall_law_iff
  | change index datap =>
    constructor
    · rintro ⟨l', es', hcall, hlists⟩
      by_contra hhead
      obtain ⟨next, status, hnext, hdangling⟩ := h.changeData_head hhead datap
      rw [Ollist.step, hnext] at hcall
      cases hcall
      exact hdangling.not_lists hlists
    · intro hbehind
      obtain ⟨l', status, hcall, hlists⟩ := h.changeData_behind hbehind datap
      exact ⟨l', _, by rw [Ollist.step, hcall]; rfl, hlists⟩

theorem Lists.step (h : Lists l es) {op : Op Addr} (halloc : OpAllocates l op)
    (hcondition : HeadStays l op) (hstep : l.step op = some l') : ∃ es', Lists l' es' := by
  have hlaw := (h.law_iff halloc).mpr hcondition
  cases op with
  | update u =>
    obtain ⟨next, es', hcall, hlists⟩ := hlaw
    cases hstep.symm.trans hcall
    exact ⟨es', hlists⟩
  | remove index =>
    obtain ⟨es', -, next, hcall, hlists, -, -⟩ := hlaw
    rw [Ollist.step, hcall] at hstep
    cases hstep
    exact ⟨_, hlists⟩
  | removeall =>
    have hfirst : l.first = none := hcondition
    rw [Ollist.step, h.removeallData_eq, if_pos hfirst] at hstep
    cases hstep
    exact ⟨es, h⟩
  | change index datap =>
    obtain ⟨next, es', hcall, hlists⟩ := hlaw
    cases hstep.symm.trans hcall
    exact ⟨es', hlists⟩

end Calls

/-- For every memory, every choice of fresh addresses and every sequence of calls: each call
obeys the deletion law exactly when no call removes or changes the node `first` points to and
`removeall` is called on the empty list only. -/
theorem ollist_deletion_iff (l : Ollist Addr) (ops : List (Op Addr))
    (halloc : AllSteps Ollist.step OpAllocates l.init ops) :
    AllSteps Ollist.step DeletionLaw l.init ops ↔ AllSteps Ollist.step HeadStays l.init ops := by
  refine @allSteps_iff_of_inv _ _ _ OpAllocates _ _ (fun l => ∃ es, Lists l es) _ _
    (fun l op hl hserved => ?_) (fun l op l' hl hserved hcondition hstep => ?_) halloc
    ⟨[], Lists.init l⟩
  · obtain ⟨es, hlists⟩ := hl
    exact hlists.law_iff hserved
  · obtain ⟨es, hlists⟩ := hl
    exact hlists.step hserved hcondition hstep

/-- The second of two outputs is removed. -/
theorem ollist_deletion_iff_second :
    AllSteps Ollist.step DeletionLaw noMemory.init
        [.update (.insert 2 offOutput 0 0), .update (.insert 5 offOutput 1 1), .remove 5] ↔
      AllSteps Ollist.step HeadStays noMemory.init
        [.update (.insert 2 offOutput 0 0), .update (.insert 5 offOutput 1 1), .remove 5] :=
  ollist_deletion_iff _ _ (by decide +kernel)

/-- The only output is removed and stays the first node, freed: the next lookup reads it. On the
same list `removeall` reads the node it has freed. -/
theorem freed_node_reachable :
    ∃ l ∈ exec Ollist.step noMemory.init [.update (.insert 5 offOutput 0 0)],
      ((∃ r ∈ l.removeData 5, r.2 = some 0 ∧ r.1.first = some 0 ∧ r.1.nodes 0 = none ∧
        r.1.findData 5 = none) ∧ l.removeallData.isNone) ∧
      ¬ DeletionLaw l (.remove 5) ∧ ¬ DeletionLaw l .removeall := by
  have hrun : ∃ l ∈ exec Ollist.step noMemory.init [.update (.insert 5 offOutput 0 0)],
      (∃ r ∈ l.removeData 5, r.2 = some 0 ∧ r.1.first = some 0 ∧ r.1.nodes 0 = none ∧
        r.1.findData 5 = none) ∧ l.removeallData.isNone := by
    decide +kernel
  obtain ⟨l, hl, ⟨r, hr, hdatap, hfirst, hfreed, hfind⟩, hall⟩ := hrun
  refine ⟨l, hl, ⟨⟨r, hr, hdatap, hfirst, hfreed, hfind⟩, hall⟩, ?_, ?_⟩
  · rintro ⟨es, -, l', hcall, hlists, -, -⟩
    have hdangling : Dangling r.1 := ⟨0, hfirst, hfreed⟩
    rw [Option.some.inj (hr.symm.trans hcall)] at hdangling
    exact hdangling.not_lists hlists
  · rintro ⟨l', hcall, -, -⟩
    rw [hcall] at hall
    cases hall

end TcpIot.Queue
