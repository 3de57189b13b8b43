import TcpIot.Framework.Critical
import TcpIot.Queue.OllistQuery

/-!
# The calls of the output list in pieces

Every turn of a loop and every store of `ollist_insert_data`, `ollist_toggle_output` and the three
lookups is a piece of its own; this is what other threads can come between. A call whose pieces
are executed without interruption is the call as a whole.
-/

namespace TcpIot.Queue

open Framework

variable {Addr : Type*}

/-- The calls that the threads make, with the blocks `malloc` will return. -/
inductive Call (Addr : Type*) where
  | find (index : Int)
  | findIp (index : Int)
  | findOp (index port : Int32)
  | insert (index : Int) (datap2 : OData) (newData newNode : Addr)
  | toggle (index : Int)

/-- What a call returns and what it stores through `datapp`, where it does. -/
structure Ret (Addr : Type*) where
  status : Option Int
  datapp : Option (Option Addr)
deriving DecidableEq

def Ollist.call [Fintype Addr] [DecidableEq Addr] (l : Ollist Addr) :
    Call Addr → Option (Ollist Addr × Ret Addr)
  | .find index => (l.findData index).map fun r => (l, ⟨some r.1, some r.2⟩)
  | .findIp index => (l.findDataIp index).map fun r => (l, ⟨some r.1.toInt, some r.2⟩)
  | .findOp index port => (l.findDataOp index port).map fun r => (l, ⟨some r.1.toInt, some r.2⟩)
  | .insert index datap2 newData newNode =>
    (l.insertData index datap2 newData newNode).map fun l => (l, ⟨some 0, none⟩)
  | .toggle index => (l.toggleOutput index).map fun r => (r.1, ⟨r.2.map Int32.toInt, none⟩)

/-- Where a thread stands in its call, with the locals of the call. -/
inductive Pc (Addr : Type*) where
  | enter (c : Call Addr)
  | find (index : Int) (cur : Option Addr)
  | findIp (index : Int) (datapp cur : Option Addr)
  | findOp (index port : Int32) (datapp cur : Option Addr)
  | insert (index : Int) (datap new : Addr) (prev cur : Option Addr)
  | insertFree (datap cur : Addr)
  | insertStore (datap cur : Addr)
  | insertAlloc (index : Int) (datap new : Addr) (prev cur : Option Addr)
  | insertLink (new : Addr) (prev cur : Option Addr)
  | toggle (index : Int) (cur : Option Addr)
  | toggleRead (datap : Addr)
  | toggleWrite (datap : Addr) (oData : OData)

abbrev Outcome (Addr : Type*) := Option (Ollist Addr × (Pc Addr ⊕ Ret Addr))

/-- The call goes on with the same list. -/
def goto (l : Ollist Addr) (pc : Pc Addr) : Outcome Addr := some (l, .inl pc)

def done (l : Ollist Addr) (status : Option Int) (datapp : Option (Option Addr)) : Outcome Addr :=
  some (l, .inr ⟨status, datapp⟩)

/-- What the calls do with the place at which their loop has stopped. -/
abbrev Tail (Addr : Type*) :=
  Option Addr × Option (Addr × Node Addr) → Option (Ollist Addr × Ret Addr)

/-- The loop of a call, continued, and what comes behind it end in the target. -/
def LoopEnds (index : Int) (l : Ollist Addr) (prev cur : Option Addr) (tail : Tail Addr)
    (target : Ollist Addr × Ret Addr) : Prop :=
  ∃ fuel, (walk Node.entry Node.nextp (Ollist.stops index) l.nodes fuel prev cur).bind tail =
    some target

section Loops

variable {index : Int} {l : Ollist Addr} {prev cur : Option Addr} {tail : Tail Addr}
  {target : Ollist Addr × Ret Addr} {a : Addr} {node : Node Addr}

theorem found_eq (hindex : node.index = index) :
    Ollist.found index (some (a, node)) = some (a, node) := by
  simp [Ollist.found, hindex]

theorem found_ne (hindex : node.index ≠ index) :
    Ollist.found index (some (a, node)) = none := by
  simp [Ollist.found, hindex]

theorem LoopEnds.null (h : LoopEnds index l prev none tail target) :
    tail (prev, none) = some target := by
  obtain ⟨fuel, hwalk⟩ := h
  cases fuel with
  | zero => cases hwalk
  | succ fuel => exact hwalk

theorem LoopEnds.turn (h : LoopEnds index l prev (some a) tail target) :
    ∃ node, l.nodes a = some node ∧
      ((node.index = index ∨ index < node.index) ∧ tail (prev, some (a, node)) = some target ∨
        node.index ≠ index ∧ ¬ index < node.index ∧
          LoopEnds index l (some a) node.nextp tail target) := by
  obtain ⟨fuel, hwalk⟩ := h
  cases fuel with
  | zero => cases hwalk
  | succ fuel =>
    rw [walk, Option.bind_assoc] at hwalk
    obtain ⟨node, hnode, hrest⟩ := Option.bind_eq_some_iff.mp hwalk
    refine ⟨node, hnode, ?_⟩
    by_cases hstop : node.index = index ∨ index < node.index
    · left
      have hstops : Ollist.stops index node.entry = true := decide_eq_true hstop
      rw [if_pos hstops, Option.bind_some] at hrest
      exact ⟨hstop, hrest⟩
    · right
      have hstops : ¬ Ollist.stops index node.entry = true := by
        intro htrue
        exact hstop (of_decide_eq_true htrue)
      rw [if_neg hstops] at hrest
      rw [not_or] at hstop
      exact ⟨hstop.1, hstop.2, fuel, hrest⟩

end Loops

theorem walk_reads {index : Int} {nodes : Addr → Option (Node Addr)} {fuel : Nat}
    {prev cur p : Option Addr} {a : Addr} {node : Node Addr}
    (h : walk Node.entry Node.nextp (Ollist.stops index) nodes fuel prev cur =
      some (p, some (a, node))) : nodes a = some node := by
  induction fuel generalizing prev cur with
  | zero => cases h
  | succ fuel ih =>
    cases cur with
    | none => cases h
    | some b =>
      obtain ⟨c, hc, hrest⟩ := Option.bind_eq_some_iff.mp h
      split at hrest
      · cases hrest
        exact hc
      · exact ih hrest

variable [DecidableEq Addr]

/-- The first piece: the initialisation of the loop, behind the copy of the record that
`ollist_insert_data` makes. -/
def enterPiece (l : Ollist Addr) : Call Addr → Outcome Addr
  | .find index => goto l (.find index l.first)
  | .findIp index => goto l (.findIp index none l.first)
  | .findOp index port => goto l (.findOp index port none l.first)
  | .insert index datap2 newData newNode =>
    (alloc l.data newData datap2).bind fun data =>
      goto { l with data := data } (.insert index newData newNode l.first l.first)
  | .toggle index => goto l (.toggle index l.first)

/-- What is executed of the call between two points where another thread may be scheduled. -/
def piece (pc : Pc Addr) (l : Ollist Addr) : Outcome Addr :=
  match pc with
  | .enter c => enterPiece l c
  | .find _ none => done l (some (-1)) (some none)
  | .find index (some a) =>
    (l.nodes a).bind fun cur =>
      if cur.index = index then done l (some 0) (some (some cur.datap))
      else if index < cur.index then done l (some (-1)) (some none)
      else goto l (.find index cur.nextp)
  | .findIp _ datapp none => done l (some (-1)) (some datapp)
  | .findIp index datapp (some a) =>
    (l.nodes a).bind fun cur =>
      if cur.index = index then
        (l.data cur.datap).bind fun d =>
          if d.inputPort ≠ 0x41 then done l (some d.inputPort.toInt) (some (some cur.datap))
          else goto l (.findIp index (some cur.datap) cur.nextp)
      else if index < cur.index then done l (some (-1)) (some datapp)
      else goto l (.findIp index datapp cur.nextp)
  | .findOp _ _ datapp none => done l (some (-1)) (some datapp)
  | .findOp index port _ (some a) =>
    (l.nodes a).bind fun cur =>
    (l.data cur.datap).bind fun d =>
      if Ollist.opens index port d then done l (some d.port.toInt) (some (some cur.datap))
      else goto l (.findOp index port (some cur.datap) cur.nextp)
  | .insert index datap new prev none => goto l (.insertAlloc index datap new prev none)
  | .insert index datap new prev (some a) =>
    (l.nodes a).bind fun cur =>
      if cur.index = index then goto l (.insertFree datap a)
      else if index < cur.index then goto l (.insertAlloc index datap new prev (some a))
      else goto l (.insert index datap new (some a) cur.nextp)
  | .insertFree datap a =>
    (l.nodes a).bind fun cur =>
    (free l.data cur.datap).bind fun data => goto { l with data := data } (.insertStore datap a)
  | .insertStore datap a =>
    (store l.nodes a fun n => { n with datap := datap }).bind fun nodes =>
      done { l with nodes := nodes } (some 0) none
  | .insertAlloc index datap new prev cur =>
    (alloc l.nodes new ⟨index, datap, cur⟩).bind fun nodes =>
      goto { l with nodes := nodes } (.insertLink new prev cur)
  | .insertLink new prev cur =>
    if cur = l.first then done { l with first := some new } (some 0) none
    else
      prev.bind fun p =>
      (store l.nodes p fun n => { n with nextp := some new }).bind fun nodes =>
        done { l with nodes := nodes } (some 0) none
  | .toggle _ none => done l none none
  | .toggle index (some a) =>
    (l.nodes a).bind fun cur =>
      if cur.index = index then goto l (.toggleRead cur.datap)
      else if index < cur.index then done l none none
      else goto l (.toggle index cur.nextp)
  | .toggleRead datap => (l.data datap).bind fun oData => goto l (.toggleWrite datap oData)
  | .toggleWrite datap oData =>
    (store l.data datap fun _ => oData.toggled).bind fun data =>
      done { l with data := data } (some oData.toggled.onoff.toInt) none

def findTail (index : Int) (l : Ollist Addr) : Tail Addr := fun (_, cur) =>
  match Ollist.found index cur with
  | some (_, node) => some (l, ⟨some 0, some (some node.datap)⟩)
  | none => some (l, ⟨some (-1), some none⟩)

def storeTail (datap a : Addr) (l : Ollist Addr) : Option (Ollist Addr × Ret Addr) :=
  (store l.nodes a fun n => { n with datap := datap }).map fun nodes =>
    ({ l with nodes := nodes }, ⟨some 0, none⟩)

def freeTail (datap a : Addr) (l : Ollist Addr) : Option (Ollist Addr × Ret Addr) :=
  (l.nodes a).bind fun node =>
  (free l.data node.datap).bind fun data => storeTail datap a { l with data := data }

def linkTail (new : Addr) (prev cur : Option Addr) (l : Ollist Addr) :
    Option (Ollist Addr × Ret Addr) :=
  if cur = l.first then some ({ l with first := some new }, ⟨some 0, none⟩)
  else
    prev.bind fun p =>
    (store l.nodes p fun n => { n with nextp := some new }).map fun nodes =>
      ({ l with nodes := nodes }, ⟨some 0, none⟩)

def allocTail (index : Int) (datap new : Addr) (prev cur : Option Addr) (l : Ollist Addr) :
    Option (Ollist Addr × Ret Addr) :=
  (alloc l.nodes new ⟨index, datap, cur⟩).bind fun nodes =>
    linkTail new prev cur { l with nodes := nodes }

def insertTail (index : Int) (datap new : Addr) (l : Ollist Addr) : Tail Addr := fun (prev, cur) =>
  match Ollist.found index cur with
  | some (a, _) => freeTail datap a l
  | none => allocTail index datap new prev (cur.map Prod.fst) l

def writeTail (datap : Addr) (oData : OData) (l : Ollist Addr) :
    Option (Ollist Addr × Ret Addr) :=
  (store l.data datap fun _ => oData.toggled).map fun data =>
    ({ l with data := data }, ⟨some oData.toggled.onoff.toInt, none⟩)

def readTail (datap : Addr) (l : Ollist Addr) : Option (Ollist Addr × Ret Addr) :=
  (l.data datap).bind fun oData => writeTail datap oData l

def toggleTail (index : Int) (l : Ollist Addr) : Tail Addr := fun (_, cur) =>
  match Ollist.found index cur with
  | some (_, node) => readTail node.datap l
  | none => some (l, ⟨none, none⟩)

/-- What remains of the call ends in the target. -/
def Remains [Fintype Addr] (target : Ollist Addr × Ret Addr) (x : Pc Addr ⊕ Ret Addr)
    (l : Ollist Addr) : Prop :=
  match x with
  | .inr r => (l, r) = target
  | .inl (.enter c) => l.call c = some target
  | .inl (.find index cur) => ∃ prev, LoopEnds index l prev cur (findTail index l) target
  | .inl (.findIp index datapp cur) =>
    ∃ fuel r, l.findDataIpLoop index fuel datapp cur = some r ∧
      (l, ⟨some r.1.toInt, some r.2⟩) = target
  | .inl (.findOp index port datapp cur) =>
    ∃ fuel r, l.findDataOpLoop index port fuel datapp cur = some r ∧
      (l, ⟨some r.1.toInt, some r.2⟩) = target
  | .inl (.insert index datap new prev cur) =>
    LoopEnds index l prev cur (insertTail index datap new l) target
  | .inl (.insertFree datap a) => freeTail datap a l = some target
  | .inl (.insertStore datap a) => storeTail datap a l = some target
  | .inl (.insertAlloc index datap new prev cur) =>
    allocTail index datap new prev cur l = some target
  | .inl (.insertLink new prev cur) => linkTail new prev cur l = some target
  | .inl (.toggle index cur) => ∃ prev, LoopEnds index l prev cur (toggleTail index l) target
  | .inl (.toggleRead datap) => readTail datap l = some target
  | .inl (.toggleWrite datap oData) => writeTail datap oData l = some target

section Whole

variable [Fintype Addr] (index : Int) (l : Ollist Addr)

theorem call_find : l.call (.find index) = (l.seek index).bind (findTail index l) := by
  rw [Ollist.call, Ollist.findData, Option.map_map]
  cases l.seek index with
  | none => rfl
  | some r =>
    simp only [Option.map_some, Function.comp_apply, Option.bind_some, findTail]
    cases Ollist.found index r.2 <;> rfl

theorem call_toggle : l.call (.toggle index) = (l.seek index).bind (toggleTail index l) := by
  rw [Ollist.call, Ollist.toggleOutput, Option.map_bind]
  congr 1
  funext r
  simp only [Function.comp_apply, toggleTail]
  cases Ollist.found index r.2 with
  | none => rfl
  | some c =>
    simp only [readTail, writeTail]
    cases l.data c.2.datap with
    | none => rfl
    | some oData => simp only [Option.bind_some, Option.map_map]; rfl

theorem call_insert (datap2 : OData) (newData newNode : Addr) :
    l.call (.insert index datap2 newData newNode) =
      (alloc l.data newData datap2).bind fun data =>
        (({ l with data := data } : Ollist Addr).seek index).bind
          (insertTail index newData newNode { l with data := data }) := by
  rw [Ollist.call, Ollist.insertData, Option.map_bind]
  congr 1
  funext data
  simp only [Function.comp_apply, Option.map_bind]
  apply Option.bind_congr
  intro r hr
  simp only [insertTail]
  cases hfound : Ollist.found index r.2 with
  | none =>
    simp only [allocTail, linkTail, Option.map_bind]
    congr 1
    funext nodes
    simp only [Function.comp_apply]
    split
    · rfl
    · rw [Option.map_bind]
      congr 1
      funext p
      rw [Function.comp_apply, Option.map_map]
      rfl
  | some c =>
    obtain ⟨prev, cur⟩ := r
    obtain ⟨hcur, -⟩ := Option.filter_eq_some_iff.mp hfound
    simp only at hcur
    subst hcur
    have hnode : l.nodes c.1 = some c.2 := walk_reads hr
    simp only [freeTail, storeTail, hnode, Option.bind_some, Option.map_bind]
    congr 1
    funext data'
    rw [Function.comp_apply, Option.map_map]
    rfl

end Whole

section Steps

variable [Fintype Addr] {l : Ollist Addr} {target : Ollist Addr × Ret Addr}

/-- The piece is defined and the rest of the call still ends in the target. -/
def GoesOn (target : Ollist Addr × Ret Addr) (result : Outcome Addr) : Prop :=
  ∃ l' x, result = some (l', x) ∧ Remains target x l'

theorem goesOn_goto {pc : Pc Addr} (h : Remains target (.inl pc) l) :
    GoesOn target (goto l pc) := ⟨l, .inl pc, rfl, h⟩

theorem goesOn_done {status : Option Int} {datapp : Option (Option Addr)}
    (h : (l, (⟨status, datapp⟩ : Ret Addr)) = target) : GoesOn target (done l status datapp) :=
  ⟨l, .inr ⟨status, datapp⟩, rfl, h⟩

theorem enterPiece_goesOn (c : Call Addr) (h : l.call c = some target) :
    GoesOn target (enterPiece l c) := by
  cases c with
  | find index =>
    rw [call_find] at h
    exact goesOn_goto ⟨l.first, _, h⟩
  | findIp index =>
    obtain ⟨r, hr, htarget⟩ := Option.map_eq_some_iff.mp h
    exact goesOn_goto ⟨_, r, hr, htarget⟩
  | findOp index port =>
    obtain ⟨r, hr, htarget⟩ := Option.map_eq_some_iff.mp h
    exact goesOn_goto ⟨_, r, hr, htarget⟩
  | insert index datap2 newData newNode =>
    rw [call_insert] at h
    obtain ⟨data, hdata, hrest⟩ := Option.bind_eq_some_iff.mp h
    rw [enterPiece, hdata, Option.bind_some]
    exact goesOn_goto ⟨_, hrest⟩
  | toggle index =>
    rw [call_toggle] at h
    exact goesOn_goto ⟨l.first, _, h⟩

private theorem find_goesOn {index : Int} {cur : Option Addr}
    (h : Remains target (.inl (.find index cur)) l) :
    GoesOn target (piece (.find index cur) l) := by
  obtain ⟨prev, hloop⟩ := h
  cases cur with
  | none => exact goesOn_done (Option.some.inj hloop.null)
  | some a =>
    obtain ⟨node, hnode, ⟨hstop, htail⟩ | ⟨hne, hnlt, hrest⟩⟩ := hloop.turn
    · rw [piece, hnode, Option.bind_some]
      by_cases hindex : node.index = index
      · rw [if_pos hindex]
        rw [findTail, found_eq hindex] at htail
        exact goesOn_done (Option.some.inj htail)
      · rw [if_neg hindex, if_pos (hstop.resolve_left hindex)]
        rw [findTail, found_ne hindex] at htail
        exact goesOn_done (Option.some.inj htail)
    · rw [piece, hnode, Option.bind_some, if_neg hne, if_neg hnlt]
      exact goesOn_goto ⟨some a, hrest⟩

private theorem toggle_goesOn {index : Int} {cur : Option Addr}
    (h : Remains target (.inl (.toggle index cur)) l) :
    GoesOn target (piece (.toggle index cur) l) := by
  obtain ⟨prev, hloop⟩ := h
  cases cur with
  | none => exact goesOn_done (Option.some.inj hloop.null)
  | some a =>
    obtain ⟨node, hnode, ⟨hstop, htail⟩ | ⟨hne, hnlt, hrest⟩⟩ := hloop.turn
    · rw [piece, hnode, Option.bind_some]
      by_cases hindex : node.index = index
      · rw [if_pos hindex]
        rw [toggleTail, found_eq hindex] at htail
        exact goesOn_goto htail
      · rw [if_neg hindex, if_pos (hstop.resolve_left hindex)]
        rw [toggleTail, found_ne hindex] at htail
        exact goesOn_done (Option.some.inj htail)
    · rw [piece, hnode, Option.bind_some, if_neg hne, if_neg hnlt]
      exact goesOn_goto ⟨some a, hrest⟩

private theorem insert_goesOn {index : Int} {datap new : Addr} {prev cur : Option Addr}
    (h : Remains target (.inl (.insert index datap new prev cur)) l) :
    GoesOn target (piece (.insert index datap new prev cur) l) := by
  have hloop : LoopEnds index l prev cur (insertTail index datap new l) target := h
  cases cur with
  | none => exact goesOn_goto hloop.null
  | some a =>
    obtain ⟨node, hnode, ⟨hstop, htail⟩ | ⟨hne, hnlt, hrest⟩⟩ := hloop.turn
    · rw [piece, hnode, Option.bind_some]
      by_cases hindex : node.index = index
      · rw [if_pos hindex]
        rw [insertTail, found_eq hindex] at htail
        exact goesOn_goto htail
      · rw [if_neg hindex, if_pos (hstop.resolve_left hindex)]
        rw [insertTail, found_ne hindex] at htail
        exact goesOn_goto htail
    · rw [piece, hnode, Option.bind_some, if_neg hne, if_neg hnlt]
      exact goesOn_goto hrest

private theorem findIp_goesOn {index : Int} {datapp cur : Option Addr}
    (h : Remains target (.inl (.findIp index datapp cur)) l) :
    GoesOn target (piece (.findIp index datapp cur) l) := by
  obtain ⟨fuel, r, hloop, htarget⟩ := h
  cases fuel with
  | zero => cases hloop
  | succ fuel =>
    cases cur with
    | none =>
      cases hloop
      exact goesOn_done htarget
    | some a =>
      obtain ⟨node, hnode, hbody⟩ := Option.bind_eq_some_iff.mp hloop
      rw [piece, hnode, Option.bind_some]
      by_cases hindex : node.index = index
      · rw [if_pos hindex] at hbody ⊢
        obtain ⟨d, hd, hbody⟩ := Option.bind_eq_some_iff.mp hbody
        rw [hd, Option.bind_some]
        by_cases hport : d.inputPort ≠ 0x41
        · rw [if_pos hport] at hbody ⊢
          cases hbody
          exact goesOn_done htarget
        · rw [if_neg hport] at hbody ⊢
          exact goesOn_goto ⟨fuel, r, hbody, htarget⟩
      · rw [if_neg hindex] at hbody ⊢
        by_cases hlt : index < node.index
        · rw [if_pos hlt] at hbody ⊢
          cases hbody
          exact goesOn_done htarget
        · rw [if_neg hlt] at hbody ⊢
          exact goesOn_goto ⟨fuel, r, hbody, htarget⟩

private theorem findOp_goesOn {index port : Int32} {datapp cur : Option Addr}
    (h : Remains target (.inl (.findOp index port datapp cur)) l) :
    GoesOn target (piece (.findOp index port datapp cur) l) := by
  obtain ⟨fuel, r, hloop, htarget⟩ := h
  cases fuel with
  | zero => cases hloop
  | succ fuel =>
    cases cur with
    | none =>
      cases hloop
      exact goesOn_done htarget
    | some a =>
      obtain ⟨node, hnode, hbody⟩ := Option.bind_eq_some_iff.mp hloop
      obtain ⟨d, hd, hbody⟩ := Option.bind_eq_some_iff.mp hbody
      rw [piece, hnode, Option.bind_some, hd, Option.bind_some]
      by_cases hopens : Ollist.opens index port d = true
      · rw [if_pos hopens] at hbody ⊢
        cases hbody
        exact goesOn_done htarget
      · rw [if_neg hopens] at hbody ⊢
        exact goesOn_goto ⟨fuel, r, hbody, htarget⟩

/-- Every piece of a call that is defined as a whole is defined, and the call keeps its outcome. -/
theorem piece_goesOn {pc : Pc Addr} (h : Remains target (.inl pc) l) :
    GoesOn target (piece pc l) := by
  cases pc with
  | enter c => exact enterPiece_goesOn c h
  | find => exact find_goesOn h
  | findIp => exact findIp_goesOn h
  | findOp => exact findOp_goesOn h
  | insert => exact insert_goesOn h
  | insertFree datap a =>
    obtain ⟨node, hnode, hrest⟩ := Option.bind_eq_some_iff.mp h
    obtain ⟨data, hdata, hrest⟩ := Option.bind_eq_some_iff.mp hrest
    rw [piece, hnode, Option.bind_some, hdata, Option.bind_some]
    exact goesOn_goto hrest
  | insertStore datap a =>
    obtain ⟨nodes, hnodes, htarget⟩ := Option.map_eq_some_iff.mp h
    rw [piece, hnodes, Option.bind_some]
    exact goesOn_done htarget
  | insertAlloc index datap new prev cur =>
    obtain ⟨nodes, hnodes, hrest⟩ := Option.bind_eq_some_iff.mp h
    rw [piece, hnodes, Option.bind_some]
    exact goesOn_goto hrest
  | insertLink new prev cur =>
    have hlink : linkTail new prev cur l = some target := h
    rw [linkTail] at hlink
    rw [piece]
    split at hlink
    · rename_i hfirst
      rw [if_pos hfirst]
      exact goesOn_done (Option.some.inj hlink)
    · rename_i hfirst
      obtain ⟨p, hp, hrest⟩ := Option.bind_eq_some_iff.mp hlink
      obtain ⟨nodes, hnodes, htarget⟩ := Option.map_eq_some_iff.mp hrest
      rw [if_neg hfirst, hp, Option.bind_some, hnodes, Option.bind_some]
      exact goesOn_done htarget
  | toggle => exact toggle_goesOn h
  | toggleRead datap =>
    obtain ⟨oData, hread, hrest⟩ := Option.bind_eq_some_iff.mp h
    rw [piece, hread, Option.bind_some]
    exact goesOn_goto hrest
  | toggleWrite datap oData =>
    obtain ⟨data, hdata, htarget⟩ := Option.map_eq_some_iff.mp h
    rw [piece, hdata, Option.bind_some]
    exact goesOn_done htarget

theorem Pieces.remains {c : Call Addr} {l' : Ollist Addr} {x : Pc Addr ⊕ Ret Addr}
    (h : Pieces piece l (.enter c) l' x) (hcall : l.call c = some target) :
    Remains target x l' := by
  apply h.rule _ hcall
  intro q s s' y hq hpiece
  obtain ⟨s'', y', hgoes, hremains⟩ := piece_goesOn hq
  rw [hpiece] at hgoes
  cases hgoes
  exact hremains

end Steps

end TcpIot.Queue
