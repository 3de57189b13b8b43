import Mathlib.Algebra.GroupWithZero.Nat
import TcpIot.Queue.OllistPieces
import TcpIot.Queue.Rdwr

/-!
# Threads on the output list

Any number of threads that look up, insert and toggle through the reader/writer lock, with the
sections of the lock library and the pieces of the calls interleaved in any way. The list behaves
as if the calls had been made one after the other, in the order in which they gave the lock back.
-/

namespace TcpIot.Queue

open Framework

variable {Addr : Type*}

theorem recordAfter_append (i : Int) (r : Option OData) (us vs : List (Update Addr)) :
    recordAfter i r (us ++ vs) = recordAfter i (recordAfter i r us) vs := List.foldl_append ..

variable [DecidableEq Addr]

namespace Call

/-- The lock that the call takes. -/
def role : Call Addr → Role
  | .find _ | .findIp _ | .findOp _ _ => .reader
  | .insert _ _ _ _ | .toggle _ => .writer

def update : Call Addr → Option (Update Addr)
  | .insert index datap2 newData newNode => some (.insert index datap2 newData newNode)
  | .toggle index => some (.toggle index)
  | .find _ | .findIp _ | .findOp _ _ => none

/-- `malloc` returns blocks that are not live. -/
def Allocates (l : Ollist Addr) (c : Call Addr) : Prop := ∀ u ∈ c.update, Queue.Allocates l u

instance (l : Ollist Addr) (c : Call Addr) : Decidable (c.Allocates l) :=
  match h : c.update with
  | none => isTrue (by simp [Allocates, h])
  | some u => decidable_of_iff (Queue.Allocates l u) (by simp [Allocates, h])

end Call

section Sequence

variable [Fintype Addr]

/-- A call that is made alone and returns what it returned. -/
def replay (l : Ollist Addr) (e : Call Addr × Ret Addr) : Option (Ollist Addr) :=
  (l.call e.1).bind fun r => if r.2 = e.2 then some r.1 else none

/-- The updates among the calls, in their order. -/
def updatesOf (log : List (Call Addr × Ret Addr)) : List (Update Addr) :=
  log.filterMap fun e => e.1.update

/-- The calls, made one after the other on a list, return what they returned and leave a list. -/
def Sequential (start : Ollist Addr) (log : List (Call Addr × Ret Addr)) (l : Ollist Addr) :
    Prop :=
  AllSteps replay (fun l e => e.1.Allocates l) start log ∧ exec replay start log = some l

variable {l l' : Ollist Addr} {es : List (Entry Addr)} {c : Call Addr}

theorem Lists.call (h : Lists l es) (hallocates : c.Allocates l) :
    ∃ l' r es', l.call c = some (l', r) ∧ Lists l' es' ∧
      ∀ i, recordAt es' i = recordAfter i (recordAt es i) c.update.toList := by
  have hupdate : ∀ u, c.update = some u → ∃ l' es', l.update u = some l' ∧ Lists l' es' ∧
      ∀ i, recordAt es' i = recordAfter i (recordAt es i) [u] := by
    intro u hu
    obtain ⟨l', es', hcall, hlists, hself, hother⟩ := h.update (hallocates u hu)
    refine ⟨l', es', hcall, hlists, fun i => ?_⟩
    rw [recordAfter_cons]
    by_cases hi : u.index = i
    · subst hi
      rw [if_pos rfl, hself]
      rfl
    · rw [if_neg hi, recordAt, hother i (Ne.symm hi)]
      rfl
  cases c with
  | find index => exact ⟨l, _, es, by rw [Ollist.call, h.findData]; rfl, h, fun _ => rfl⟩
  | findIp index => exact ⟨l, _, es, by rw [Ollist.call, h.findDataIp]; rfl, h, fun _ => rfl⟩
  | findOp index port => exact ⟨l, _, es, by rw [Ollist.call, h.findDataOp]; rfl, h, fun _ => rfl⟩
  | insert index datap2 newData newNode =>
    obtain ⟨l', es', hcall, hlists, hrecords⟩ := hupdate _ rfl
    have hinsert : l.insertData index datap2 newData newNode = some l' := hcall
    exact ⟨l', _, es', by rw [Ollist.call, hinsert]; rfl, hlists, hrecords⟩
  | toggle index =>
    obtain ⟨l', es', hcall, hlists, hrecords⟩ := hupdate _ rfl
    obtain ⟨r, htoggle, rfl⟩ := Option.map_eq_some_iff.mp hcall
    exact ⟨r.1, _, es', by rw [Ollist.call, htoggle]; rfl, hlists, hrecords⟩

theorem Sequential.lists {log : List (Call Addr × Ret Addr)} (h : Sequential l log l')
    (hlists : Lists l es) :
    ∃ es', Lists l' es' ∧ ∀ i, recordAt es' i = recordAfter i (recordAt es i) (updatesOf log) := by
  obtain ⟨hall, hrun⟩ := h
  induction log generalizing l es with
  | nil =>
    cases hrun
    exact ⟨es, hlists, fun _ => rfl⟩
  | cons e log ih =>
    obtain ⟨next, hnext, hrest⟩ := Option.bind_eq_some_iff.mp hrun
    obtain ⟨out, r, esNext, hcall, hnextLists, hrecords⟩ := hlists.call hall.1
    have hout : out = next := by
      rw [replay, hcall, Option.bind_some] at hnext
      split at hnext
      · exact Option.some.inj hnext
      · cases hnext
    subst hout
    obtain ⟨es', hlists', hrecords'⟩ := ih hnextLists (hall.2 _ hnext) hrest
    refine ⟨es', hlists', fun i => ?_⟩
    rw [hrecords', hrecords, ← recordAfter_append]
    congr 1
    rw [updatesOf, updatesOf, List.filterMap_cons]
    cases e.1.update <;> rfl

theorem Sequential.split {before after : List (Call Addr × Ret Addr)}
    (h : Sequential l (before ++ after) l') :
    ∃ m, Sequential l before m ∧ Sequential m after l' := by
  obtain ⟨hall, hrun⟩ := h
  rw [exec_append] at hrun
  obtain ⟨m, hm, hrest⟩ := Option.bind_eq_some_iff.mp hrun
  rw [allSteps_append] at hall
  exact ⟨m, ⟨hall.1, hm⟩, hall.2 m hm, hrest⟩

end Sequence

/-- The lock, the list, for each thread the call it is making and how far it is, and the calls
that have returned, in the order in which they gave the lock back. -/
structure Threads (n : Nat) (Addr : Type*) where
  monitor : Monitor n
  list : Ollist Addr
  calls : Fin n → Option (Call Addr × (Pc Addr ⊕ Ret Addr))
  log : List (Call Addr × Ret Addr)

inductive ThreadEvent (n : Nat) (Addr : Type*) where
  /-- `t` begins a call with `rlock` or `wlock`. -/
  | call (t : Fin n) (c : Call Addr)
  | retest (t : Fin n)
  | spurious (t : Fin n)
  /-- `t` executes the next piece of its call. -/
  | work (t : Fin n)
  /-- `t` ends its call with `runlock` or `wunlock`, waking `chosen`. -/
  | ret (t : Fin n) (chosen : Fin n → Bool)

namespace Threads

variable {n : Nat}

def start (l : Ollist Addr) : Threads n Addr := ⟨Monitor.start, l.init, fun _ => none, []⟩

def step (s : Threads n Addr) : ThreadEvent n Addr → Option (Threads n Addr)
  | .call t c =>
    (s.monitor.step (.lock t c.role)).map fun m =>
      { s with monitor := m, calls := Function.update s.calls t (some (c, .inl (.enter c))) }
  | .retest t => (s.monitor.step (.retest t)).map fun m => { s with monitor := m }
  | .spurious t => (s.monitor.step (.spurious t)).map fun m => { s with monitor := m }
  | .work t =>
    match s.monitor.threads t, s.calls t with
    | .inside _, some (c, .inl pc) =>
      (piece pc s.list).map fun r =>
        { s with list := r.1, calls := Function.update s.calls t (some (c, r.2)) }
    | _, _ => none
  | .ret t chosen =>
    match s.calls t with
    | some (c, .inr r) =>
      (s.monitor.step (.unlock t chosen)).map fun m =>
        { s with monitor := m, calls := Function.update s.calls t none, log := s.log ++ [(c, r)] }
    | _ => none

/-- When a thread gets the lock, the blocks that `malloc` will return to its call are not live. -/
def Allocates (s : Threads n Addr) : ThreadEvent n Addr → Prop
  | .call _ c => (c.role.lock s.monitor.rdwr).isSome → c.Allocates s.list
  | .retest t => ∀ c ∈ s.calls t, (c.1.role.lock s.monitor.rdwr).isSome → c.1.Allocates s.list
  | _ => True

instance (s : Threads n Addr) : (e : ThreadEvent n Addr) → Decidable (s.Allocates e)
  | .call _ c => inferInstanceAs
      (Decidable ((c.role.lock s.monitor.rdwr).isSome → c.Allocates s.list))
  | .retest t => inferInstanceAs
      (Decidable (∀ c ∈ s.calls t, (c.1.role.lock s.monitor.rdwr).isSome → c.1.Allocates s.list))
  | .spurious _ | .work _ | .ret _ _ => isTrue trivial

/-- The calls that may change the list. -/
def writes : Pc Addr → Prop
  | .enter c => c.role = .writer
  | .find _ _ | .findIp _ _ _ | .findOp _ _ _ _ => False
  | _ => True

def admits (l : Ollist Addr) : Pc Addr → Prop
  | .enter c => c.Allocates l
  | _ => False

/-- A thread's place in the sections. -/
def place (s : Threads n Addr) (t : Fin n) : Option (Pc Addr × (Pc Addr ⊕ Ret Addr)) :=
  match s.monitor.threads t with
  | .inside _ => (s.calls t).map fun c => (.enter c.1, c.2)
  | _ => none

/-- A call that has returned, as the sections see it. -/
def logged (e : Call Addr × Ret Addr) : Pc Addr × Ret Addr := (.enter e.1, e.2)

/-- The threads as critical sections. -/
def sections (s : Threads n Addr) : Sections (Fin n) (Ollist Addr) (Pc Addr) (Ret Addr) :=
  ⟨s.list, s.place, s.log.map logged⟩

structure Inv (l : Ollist Addr) (s : Threads n Addr) : Prop where
  consistent : s.monitor.Consistent
  waiting : ∀ t role, s.monitor.threads t = .asleep role ∨ s.monitor.threads t = .woken role →
    ∃ c, s.calls t = some (c, .inl (.enter c)) ∧ c.role = role
  inside : ∀ t role, s.monitor.threads t = .inside role →
    ∃ c x, s.calls t = some (c, x) ∧ c.role = role
  sections : Sections.Inv piece admits writes l s.sections

section Reading

variable {list list' : Ollist Addr} {pc : Pc Addr} {x : Pc Addr ⊕ Ret Addr}

/-- The piece has left the list alone, and the call does not write later either. -/
def Reads (list list' : Ollist Addr) (x : Pc Addr ⊕ Ret Addr) : Prop :=
  list' = list ∧ ∀ pc, x = .inl pc → ¬ writes pc

omit [DecidableEq Addr] in
theorem reads_goto (h : goto list pc = some (list', x)) (hpc : ¬ writes pc) :
    Reads list list' x := by
  cases h
  refine ⟨rfl, fun q hq => ?_⟩
  cases hq
  exact hpc

omit [DecidableEq Addr] in
theorem reads_done {status : Option Int} {datapp : Option (Option Addr)}
    (h : done list status datapp = some (list', x)) : Reads list list' x := by
  cases h
  refine ⟨rfl, fun q hq => ?_⟩
  cases hq

theorem piece_reads (hreads : ¬ writes pc) (h : piece pc list = some (list', x)) :
    Reads list list' x := by
  cases pc with
  | enter c =>
    cases c with
    | find | findIp | findOp => exact reads_goto h not_false
    | insert | toggle => exact absurd rfl hreads
  | find index cur =>
    cases cur with
    | none => exact reads_done h
    | some a =>
      obtain ⟨node, -, hrest⟩ := Option.bind_eq_some_iff.mp h
      split at hrest
      · exact reads_done hrest
      · split at hrest
        · exact reads_done hrest
        · exact reads_goto hrest not_false
  | findIp index datapp cur =>
    cases cur with
    | none => exact reads_done h
    | some a =>
      obtain ⟨node, -, hrest⟩ := Option.bind_eq_some_iff.mp h
      split at hrest
      · obtain ⟨d, -, hrest⟩ := Option.bind_eq_some_iff.mp hrest
        split at hrest
        · exact reads_done hrest
        · exact reads_goto hrest not_false
      · split at hrest
        · exact reads_done hrest
        · exact reads_goto hrest not_false
  | findOp index port datapp cur =>
    cases cur with
    | none => exact reads_done h
    | some a =>
      obtain ⟨node, -, hrest⟩ := Option.bind_eq_some_iff.mp h
      obtain ⟨d, -, hrest⟩ := Option.bind_eq_some_iff.mp hrest
      split at hrest
      · exact reads_done hrest
      · exact reads_goto hrest not_false
  | insert | insertFree | insertStore | insertAlloc | insertLink | toggle | toggleRead
  | toggleWrite => exact absurd trivial hreads

theorem pieces_read (p : Pc Addr) (hreads : ¬ writes p) (s s' : Ollist Addr)
    (y : Pc Addr ⊕ Ret Addr) (h : Pieces piece s p s' y) : s' = s := by
  have hall : Reads s s' y := by
    apply h.rule
    · intro q u u' z hq hpiece
      obtain ⟨rfl, hwrites⟩ := hq
      exact piece_reads (hwrites q rfl) hpiece
    · refine ⟨rfl, fun q hq => ?_⟩
      cases hq
      exact hreads
  exact hall.1

end Reading

section Steps

variable {l : Ollist Addr} {s s' : Threads n Addr} {t : Fin n} {c : Call Addr}

omit [DecidableEq Addr] in
theorem place_of_inside {role : Role} (h : s.monitor.threads t = .inside role) :
    s.place t = (s.calls t).map fun c => (.enter c.1, c.2) := by
  rw [place, h]

omit [DecidableEq Addr] in
theorem place_of_not (h : ∀ role, s.monitor.threads t ≠ .inside role) : s.place t = none := by
  unfold place
  split
  · rename_i role hinside
    exact absurd hinside (h role)
  · rfl

theorem Inv.place_eq_some (h : Inv l s) {e : Pc Addr × (Pc Addr ⊕ Ret Addr)}
    (he : s.place t = some e) : ∃ c x, s.monitor.threads t = .inside c.role ∧
      s.calls t = some (c, x) ∧ e = (.enter c, x) := by
  unfold place at he
  split at he
  · rename_i role hinside
    obtain ⟨c, x, hcalls, rfl⟩ := h.inside t role hinside
    rw [hcalls] at he
    cases he
    exact ⟨c, x, hinside, hcalls, rfl⟩
  · cases he

theorem Inv.free (h : Inv l s) {rdwr : Rdwr} (hlock : c.role.lock s.monitor.rdwr = some rdwr)
    (u : Fin n) (e : Pc Addr × (Pc Addr ⊕ Ret Addr)) (he : s.place u = some e) :
    ¬ writes e.1 ∧ ¬ writes (.enter c) := by
  obtain ⟨c', x, hinside, -, rfl⟩ := h.place_eq_some he
  obtain ⟨hwriting, hrole⟩ := Monitor.Role.lock_eq_some hlock
  have hnowriter : c'.role ≠ .writer := by
    intro hw
    rw [h.consistent.writers] at hwriting
    exact slotCount_eq_zero_iff.mp hwriting u (hw ▸ hinside)
  refine ⟨hnowriter, fun hw => ?_⟩
  rcases hrole with ⟨hreader, -⟩ | ⟨-, hreading, -⟩
  · have hwriter : c.role = .writer := hw
    rw [hreader] at hwriter
    cases hwriter
  · have hreader : c'.role = .reader := by
      cases hr : c'.role with
      | reader => rfl
      | writer => exact absurd hr hnowriter
    rw [h.consistent.readers] at hreading
    exact slotCount_eq_zero_iff.mp hreading u (hreader ▸ hinside)

theorem Inv.test (h : Inv l s) (hout : ∀ role, s.monitor.threads t ≠ .inside role)
    (hallocates : (c.role.lock s.monitor.rdwr).isSome → c.Allocates s.list)
    (hconsistent : (s.monitor.test t c.role).Consistent) :
    Inv l { s with monitor := s.monitor.test t c.role,
                   calls := Function.update s.calls t (some (c, .inl (.enter c))) } := by
  cases hlock : c.role.lock s.monitor.rdwr with
  | none =>
    have htest : s.monitor.test t c.role =
        ⟨s.monitor.rdwr, Function.update s.monitor.threads t (.asleep c.role)⟩ := by
      rw [Monitor.test, hlock]
    rw [htest] at hconsistent ⊢
    constructor
    · exact hconsistent
    · intro u role hu
      by_cases hut : u = t
      · subst hut
        simp only [Function.update_self, ThreadState.asleep.injEq, reduceCtorEq, or_false] at hu
        exact ⟨c, Function.update_self .., hu⟩
      · simp only [Function.update_of_ne hut] at hu ⊢
        exact h.waiting u role hu
    · intro u role hu
      by_cases hut : u = t
      · subst hut
        cases (Function.update_self ..).symm.trans hu
      · simp only [Function.update_of_ne hut] at hu ⊢
        exact h.inside u role hu
    · rw [Threads.sections]
      have hplace : place { s with
          monitor := ⟨s.monitor.rdwr, Function.update s.monitor.threads t (.asleep c.role)⟩
          calls := Function.update s.calls t (some (c, .inl (.enter c))) } = s.place := by
        funext u
        by_cases hut : u = t
        · subst hut
          rw [place_of_not hout]
          simp [place]
        · simp [place, Function.update_of_ne hut]
      rw [hplace]
      exact h.sections
  | some rdwr =>
    have htest : s.monitor.test t c.role =
        ⟨rdwr, Function.update s.monitor.threads t (.inside c.role)⟩ := by
      rw [Monitor.test, hlock]
    rw [htest] at hconsistent ⊢
    constructor
    · exact hconsistent
    · intro u role hu
      by_cases hut : u = t
      · subst hut
        simp only [Function.update_self, reduceCtorEq, or_self] at hu
      · simp only [Function.update_of_ne hut] at hu ⊢
        exact h.waiting u role hu
    · intro u role hu
      by_cases hut : u = t
      · subst hut
        cases (Function.update_self ..).symm.trans hu
        exact ⟨c, _, Function.update_self .., rfl⟩
      · simp only [Function.update_of_ne hut] at hu ⊢
        exact h.inside u role hu
    · have henter := h.sections.enter (t := t) (p := .enter c) (hallocates (by rw [hlock]; rfl))
        (h.free hlock)
      have hplace : place { s with
          monitor := ⟨rdwr, Function.update s.monitor.threads t (.inside c.role)⟩
          calls := Function.update s.calls t (some (c, .inl (.enter c))) } =
            Function.update s.place t (some (.enter c, .inl (.enter c))) := by
        funext u
        by_cases hut : u = t
        · subst hut
          simp [place]
        · simp [place, Function.update_of_ne hut]
      rw [Threads.sections, hplace]
      exact henter

theorem Inv.spurious (h : Inv l s) {role : Role} (ht : s.monitor.threads t = .asleep role)
    (hconsistent : Monitor.Consistent
      ⟨s.monitor.rdwr, Function.update s.monitor.threads t (.woken role)⟩) :
    Inv l { s with
      monitor := ⟨s.monitor.rdwr, Function.update s.monitor.threads t (.woken role)⟩ } := by
  constructor
  · exact hconsistent
  · intro u r hu
    by_cases hut : u = t
    · subst hut
      simp only [Function.update_self, reduceCtorEq, ThreadState.woken.injEq, false_or] at hu
      exact h.waiting u r (.inl (hu ▸ ht))
    · simp only [Function.update_of_ne hut] at hu
      exact h.waiting u r hu
  · intro u r hu
    by_cases hut : u = t
    · subst hut
      cases (Function.update_self ..).symm.trans hu
    · simp only [Function.update_of_ne hut] at hu
      exact h.inside u r hu
  · have hplace : place { s with
        monitor := ⟨s.monitor.rdwr, Function.update s.monitor.threads t (.woken role)⟩ } =
          s.place := by
      funext u
      by_cases hut : u = t
      · subst hut
        simp [place, ht]
      · simp [place, Function.update_of_ne hut]
    rw [Threads.sections, hplace]
    exact h.sections

theorem Inv.work (h : Inv l s) {role : Role} (ht : s.monitor.threads t = .inside role)
    {pc : Pc Addr} (hcalls : s.calls t = some (c, .inl pc)) {list : Ollist Addr}
    {x : Pc Addr ⊕ Ret Addr} (hpiece : piece pc s.list = some (list, x)) :
    Inv l { s with list := list, calls := Function.update s.calls t (some (c, x)) } := by
  have hwork := h.sections.work (t := t) (p := .enter c) pieces_read
    ((place_of_inside ht).trans (by rw [hcalls]; rfl)) hpiece
  constructor
  · exact h.consistent
  · intro u r hu
    have hut : u ≠ t := by
      rintro rfl
      rcases hu with hu | hu
      · cases ht.symm.trans hu
      · cases ht.symm.trans hu
    simp only [Function.update_of_ne hut]
    exact h.waiting u r hu
  · intro u r hu
    obtain ⟨c', y, hcalls', hrole⟩ := h.inside u r hu
    by_cases hut : u = t
    · subst hut
      rw [hcalls] at hcalls'
      cases hcalls'
      exact ⟨c, x, Function.update_self .., hrole⟩
    · refine ⟨c', y, ?_, hrole⟩
      simp only [Function.update_of_ne hut]
      exact hcalls'
  · have hplace : place { s with
        list := list, calls := Function.update s.calls t (some (c, x)) } =
          Function.update s.place t (some (.enter c, x)) := by
      funext u
      by_cases hut : u = t
      · subst hut
        simp [place, ht]
      · simp [place, Function.update_of_ne hut]
    rw [Threads.sections, hplace]
    exact hwork

omit [DecidableEq Addr] in
theorem leave_threads (m : Monitor n) (t u : Fin n) (rdwr : Rdwr) (chosen : Fin n → Bool) :
    (m.leave t rdwr chosen).threads u =
      if u = t then .outside else if chosen u then (m.threads u).wake else m.threads u := by
  by_cases hut : u = t
  · subst hut
    simp [Monitor.leave, ThreadState.wake]
  · simp [Monitor.leave, hut]

theorem Inv.ret (h : Inv l s) {role : Role} (ht : s.monitor.threads t = .inside role) {r : Ret Addr}
    (hcalls : s.calls t = some (c, .inr r)) {rdwr : Rdwr} {chosen : Fin n → Bool}
    (hconsistent : (s.monitor.leave t rdwr chosen).Consistent) :
    Inv l { s with monitor := s.monitor.leave t rdwr chosen,
                   calls := Function.update s.calls t none, log := s.log ++ [(c, r)] } := by
  have hleave := h.sections.leave (t := t) (p := .enter c) (r := r)
    ((place_of_inside ht).trans (by rw [hcalls]; rfl))
  constructor
  · exact hconsistent
  · intro u role' hu
    simp only [leave_threads] at hu
    by_cases hut : u = t
    · simp [hut] at hu
    · simp only [if_neg hut] at hu
      simp only [Function.update_of_ne hut]
      apply h.waiting u role'
      split at hu
      · cases hthread : s.monitor.threads u <;> simp_all [ThreadState.wake]
      · exact hu
  · intro u role' hu
    simp only [leave_threads] at hu
    by_cases hut : u = t
    · simp [hut] at hu
    · simp only [if_neg hut] at hu
      simp only [Function.update_of_ne hut]
      apply h.inside u role'
      split at hu
      · cases hthread : s.monitor.threads u <;> simp_all [ThreadState.wake]
      · exact hu
  · have hplace : place { s with
        monitor := s.monitor.leave t rdwr chosen
        calls := Function.update s.calls t none
        log := s.log ++ [(c, r)] } = Function.update s.place t none := by
      funext u
      by_cases hut : u = t
      · subst hut
        simp [place, leave_threads]
      · simp only [place, leave_threads, if_neg hut, Function.update_of_ne hut]
        cases hthread : s.monitor.threads u <;> by_cases hchosen : chosen u <;>
          simp [hchosen, ThreadState.wake]
    rw [Threads.sections, hplace, List.map_append]
    exact hleave

theorem Inv.start (l : Ollist Addr) : Inv l.init (Threads.start l : Threads n Addr) where
  consistent := Monitor.Consistent.start
  waiting t role ht := by
    rcases ht with ht | ht
    · cases ht
    · cases ht
  inside t role ht := by cases ht
  sections := Sections.Inv.empty l.init

theorem Inv.step (h : Inv l s) {e : ThreadEvent n Addr} (hallocates : s.Allocates e)
    (hstep : s.step e = some s') : Inv l s' := by
  cases e with
  | call t c =>
    obtain ⟨m, hm, rfl⟩ := Option.map_eq_some_iff.mp hstep
    have hconsistent := h.consistent.step hm
    obtain ⟨hout, hnext⟩ := Option.ite_none_right_eq_some.mp hm
    cases hnext
    exact h.test (fun role => by simp [hout]) hallocates hconsistent
  | retest t =>
    obtain ⟨m, hm, rfl⟩ := Option.map_eq_some_iff.mp hstep
    have hconsistent := h.consistent.step hm
    simp only [Monitor.step] at hm
    split at hm
    · rename_i role hwoken
      cases hm
      obtain ⟨c, hcalls, rfl⟩ := h.waiting t role (.inr hwoken)
      have htest := h.test (fun role => by simp [hwoken]) (hallocates _ hcalls) hconsistent
      rwa [Function.update_eq_self_iff.mpr hcalls.symm] at htest
    · cases hm
  | spurious t =>
    obtain ⟨m, hm, rfl⟩ := Option.map_eq_some_iff.mp hstep
    have hconsistent := h.consistent.step hm
    simp only [Monitor.step] at hm
    split at hm
    · rename_i role hasleep
      cases hm
      exact h.spurious hasleep hconsistent
    · cases hm
  | work t =>
    simp only [Threads.step] at hstep
    split at hstep
    · rename_i role c pc hinside hcalls
      obtain ⟨r, hpiece, rfl⟩ := Option.map_eq_some_iff.mp hstep
      exact h.work hinside hcalls hpiece
    · cases hstep
  | ret t chosen =>
    simp only [Threads.step] at hstep
    split at hstep
    · rename_i c r hcalls
      obtain ⟨m, hm, rfl⟩ := Option.map_eq_some_iff.mp hstep
      have hconsistent := h.consistent.step hm
      simp only [Monitor.step] at hm
      split at hm
      · rename_i role hinside
        obtain ⟨-, hnext⟩ := Option.ite_none_right_eq_some.mp hm
        cases hnext
        exact h.ret hinside hcalls hconsistent
      · cases hm
    · cases hstep

end Steps

section Order

variable [Fintype Addr] {l : Ollist Addr} {s : Threads n Addr}

omit [DecidableEq Addr] [Fintype Addr] in
theorem logged_injective : Function.Injective (logged : Call Addr × Ret Addr → _) := by
  rintro ⟨c, r⟩ ⟨c', r'⟩ h
  cases h
  rfl

/-- Whole calls in pieces are whole calls. -/
theorem sequential_of_serial {es : List (Entry Addr)} (hlists : Lists l es) {m : Ollist Addr}
    {log : List (Pc Addr × Ret Addr)} (h : Serial piece admits l log m) :
    ∃ calls, log = calls.map logged ∧ Sequential l calls m := by
  apply Serial.rule (I := fun log m => ∃ calls, log = List.map logged calls ∧
    Sequential l calls m) _ h
  · exact ⟨[], rfl, trivial, rfl⟩
  · rintro log m p m' r ⟨calls, rfl, hsequential⟩ hadmits hpieces
    cases p with
    | enter c =>
      obtain ⟨es', hlists', -⟩ := hsequential.lists hlists
      obtain ⟨l', r', es'', hcall, -⟩ := hlists'.call hadmits
      cases Pieces.remains hpieces hcall
      refine ⟨calls ++ [(c, r)], by rw [List.map_append]; rfl, ?_, ?_⟩
      · rw [allSteps_append]
        refine ⟨hsequential.1, fun t ht => ?_⟩
        rw [hsequential.2] at ht
        cases ht
        exact ⟨hadmits, fun _ _ => trivial⟩
      · rw [exec_append, hsequential.2, Option.bind_some, exec_cons, replay, hcall,
          Option.bind_some, if_pos rfl]
        rfl
    | _ => cases hadmits

/-- The calls that have returned are a sequence of whole calls, and each one inside will end as
the whole call on what they have left. -/
theorem Inv.sequential (h : Inv l s) {es : List (Entry Addr)} (hlists : Lists l es) :
    ∃ m, Sequential l s.log m ∧
      ((∀ t, s.monitor.threads t ≠ .inside .writer) → s.list = m) ∧
      ∀ t role c x, s.monitor.threads t = .inside role → s.calls t = some (c, x) →
        ∃ target, m.call c = some target ∧ Remains target x s.list := by
  obtain ⟨m, hserial, hinside, hidle⟩ := h.sections.serial
  obtain ⟨calls, hlog, hsequential⟩ := sequential_of_serial hlists hserial
  have hcalls : s.log = calls := List.map_injective_iff.mpr logged_injective hlog
  obtain ⟨es', hlists', -⟩ := hsequential.lists hlists
  refine ⟨m, hcalls ▸ hsequential, fun hnobody => hidle fun t e he hw => ?_,
    fun t role c x ht hcall => ?_⟩
  · obtain ⟨c, x, hthread, -, rfl⟩ := h.place_eq_some he
    have hwriter : c.role = .writer := hw
    rw [hwriter] at hthread
    exact hnobody t hthread
  · have hplace : s.sections.inside t = some (.enter c, x) :=
      (place_of_inside ht).trans (by rw [hcall]; rfl)
    obtain ⟨hadmits, hpieces⟩ := hinside t _ hplace
    obtain ⟨l', r, es'', htarget, -⟩ := hlists'.call hadmits
    exact ⟨(l', r), htarget, Pieces.remains hpieces htarget⟩

/-- A lookup that has returned has found a record iff the updates before it have left one. -/
theorem Sequential.find_iff {es : List (Entry Addr)} {m : Ollist Addr} {index : Int} {r : Ret Addr}
    {before after : List (Call Addr × Ret Addr)} (hlists : Lists l es)
    (h : Sequential l (before ++ (.find index, r) :: after) m) :
    r.status = some 0 ↔
      (recordAfter index (recordAt es index) (updatesOf before)).isSome := by
  obtain ⟨m', hbefore, hafter⟩ := h.split
  obtain ⟨es', hlists', hrecords⟩ := hbefore.lists hlists
  obtain ⟨next, hnext, -⟩ := Option.bind_eq_some_iff.mp hafter.2
  rw [← hrecords, recordAt, Option.isSome_map]
  rw [replay, Ollist.call, hlists'.findData, Option.map_some, Option.bind_some] at hnext
  obtain ⟨hret, -⟩ := Option.ite_none_right_eq_some.mp hnext
  simp only at hret
  rw [← hret]
  cases lookup Entry.index index es' with
  | none => simp
  | some e => simp

/-- For any number of threads, any interleaving of the sections of the lock, the wake-ups and the
pieces of the calls, with blocks from `malloc` that are not live: the calls that have returned are
the calls made one after the other, in the order in which they gave the lock back, with the same
results; while no writer is inside the list is the one they leave, with the records of the updates
among them; a lookup has found a record iff the updates before it left one; and no piece ever
touches memory that is not live. -/
theorem ollist_linearizable (l : Ollist Addr) (events : List (ThreadEvent n Addr))
    (hallocates : AllSteps Threads.step Allocates (start l) events)
    (hrun : exec Threads.step (start l) events = some s) :
    (∃ m es, Sequential l.init s.log m ∧ Lists m es ∧
      (∀ i, recordAt es i = recordAfter i none (updatesOf s.log)) ∧
      ((∀ t, s.monitor.threads t ≠ .inside .writer) → s.list = m)) ∧
    (∀ before index r after, s.log = before ++ (.find index, r) :: after →
      (r.status = some 0 ↔ (recordAfter index none (updatesOf before)).isSome)) ∧
    ∀ t role c pc, s.monitor.threads t = .inside role → s.calls t = some (c, .inl pc) →
      (s.step (.work t)).isSome := by
  have hinv : Inv l.init s :=
    hallocates.exec_inv (fun _ _ _ hs ha hstep => hs.step ha hstep) (.start l) hrun
  have hlists := Lists.init l
  obtain ⟨m, hsequential, hidle, hinside⟩ := hinv.sequential hlists
  obtain ⟨es, hlists', hrecords⟩ := hsequential.lists hlists
  refine ⟨⟨m, es, hsequential, hlists', hrecords, hidle⟩, ?_, ?_⟩
  · intro before index r after hlog
    rw [hlog] at hsequential
    exact Sequential.find_iff hlists hsequential
  · intro t role c pc ht hcalls
    obtain ⟨target, -, hremains⟩ := hinside t role c _ ht hcalls
    obtain ⟨list, x, hpiece, -⟩ := piece_goesOn hremains
    simp [Threads.step, ht, hcalls, hpiece]

local instance threadNeZero : NeZero 2 := ⟨Nat.succ_ne_zero 1⟩

local instance blockNeZero : NeZero 4 := ⟨Nat.succ_ne_zero 3⟩

/-- A lookup waits for an insert. -/
def insertThenFind : List (ThreadEvent 2 (Fin 4)) :=
  [.call 0 (.insert 5 offOutput 0 0), .call 1 (.find 5), .work 0, .work 0, .work 0, .work 0,
    .ret 0 fun _ => true, .retest 1, .work 1, .work 1, .ret 1 fun _ => false]

theorem ollist_linearizable_wait :
    ∃ s ∈ exec Threads.step (start noMemory) insertThenFind,
      s.log = [(.insert 5 offOutput 0 0, ⟨some 0, none⟩), (.find 5, ⟨some 0, some (some 0)⟩)] ∧
      ∃ m, Sequential noMemory.init s.log m ∧
        ((∀ t, s.monitor.threads t ≠ .inside .writer) → s.list = m) := by
  have hall : AllSteps Threads.step Allocates (start noMemory) insertThenFind := by
    decide +kernel
  have hlog : (exec Threads.step (start noMemory) insertThenFind).map Threads.log =
      some [(.insert 5 offOutput 0 0, ⟨some 0, none⟩), (.find 5, ⟨some 0, some (some 0)⟩)] := by
    rfl
  obtain ⟨s, hs, hlog⟩ := Option.map_eq_some_iff.mp hlog
  obtain ⟨⟨m, -, hsequential, -, -, hidle⟩, -⟩ := ollist_linearizable noMemory _ hall hs
  exact ⟨s, hs, hlog, m, hsequential, hidle⟩

end Order

end Threads

end TcpIot.Queue
