import Mathlib.Algebra.GroupWithZero.Nat
import TcpIot.Framework.Critical
import TcpIot.Io.NbusRoutines

/-!
# The bus between processes

Several processes of a card reach its registers through the same pins, with one semaphore for
them all. Whatever comes between the stores and loads of a process, it has the pins for itself
from the first one of a port routine to the last.
-/

namespace TcpIot.Io

open Framework

/-- A call that a process makes; `inited` is its flag at the time. -/
structure Visit (T : Type*) where
  who : T
  call : PortCall
  inited : Bool

structure Process (T : Type*) where
  nbuslocked : Bool
  inited : Bool
  running : Option (Visit T × PortProg)

/-- The semaphore, the pins, the processes, and the calls that have given the semaphore back, with
their results. -/
structure Bus (T σ : Type*) where
  sem : Nat
  gpio : σ
  processes : T → Process T
  log : List (Visit T × Option UInt8)

inductive BusEvent (T : Type*) where
  | call (i : T) (c : PortCall)
  | step (i : T)

section Steps

variable {T σ : Type*} (gpio : Gpio σ)

namespace Bus

variable [DecidableEq T]

/-- The semaphore once its creator has added 1 to it. -/
def start (s : σ) : Bus T σ := ⟨1, s, fun _ => ⟨false, false, none⟩, []⟩

def put (S : Bus T σ) (i : T) (p : Process T) : Bus T σ :=
  { S with processes := Function.update S.processes i p }

/-- The next step of process `i`, which has `prog` to execute in the call `v`. -/
def stepProg (S : Bus T σ) (i : T) (v : Visit T) (prog : PortProg) :
    Option (Bus T σ) :=
  let p := S.processes i
  match prog with
  | .locked next => some (S.put i { p with running := some (v, next p.nbuslocked) })
  | .acquire next =>
    if S.sem = 0 then none
    else some ({ S with sem := S.sem - 1 }.put i
      { p with nbuslocked := true, running := some (v, next p.inited) })
  | .setInited next => some (S.put i { p with inited := true, running := some (v, next) })
  | .release next =>
    let log := match next with
      | .ret r => S.log ++ [(v, r)]
      | _ => S.log
    some ({ S with sem := S.sem + 1, log := log }.put i
      { p with nbuslocked := false, running := some (v, next) })
  | .ret _ => some (S.put i { p with running := none })
  | prog => (access gpio S.gpio prog).map fun r =>
      { S with gpio := r.1 }.put i { p with running := some (v, r.2) }

def step (S : Bus T σ) : BusEvent T → Option (Bus T σ)
  | .call i c =>
    let p := S.processes i
    if p.running.isNone then some (S.put i { p with running := some (⟨i, c, p.inited⟩, c.prog) })
    else none
  | .step i =>
    match (S.processes i).running with
    | some (v, prog) => S.stepProg gpio i v prog
    | none => none

end Bus

/-- The next piece of a section. -/
def busPiece (q : Visit T × PortProg) (s : σ) :
    Option (σ × ((Visit T × PortProg) ⊕ Option UInt8)) :=
  match q.2 with
  | .locked next => some (s, .inl (q.1, next true))
  | .setInited next => some (s, .inl (q.1, next))
  | .release (.ret r) => some (s, .inr r)
  | prog => (access gpio s prog).map fun r => (r.1, .inl (q.1, r.2))

end Steps

section Processes

variable {T : Type*} {σ : Type*}

def Visit.entry (v : Visit T) : PortProg := v.call.entry v.inited

/-- Where a process stands; `seen` says whether it has given the semaphore back before. -/
inductive Standing (i : T) (seen : Bool) : Process T → Prop
  | idle : Standing i seen ⟨false, seen, none⟩
  | called (c : PortCall) : Standing i seen ⟨false, seen, some (⟨i, c, seen⟩, c.prog)⟩
  | waits (c : PortCall) : Standing i seen ⟨false, seen, some (⟨i, c, seen⟩, .acquire c.entry)⟩
  | inside (c : PortCall) (inited : Bool) (prog : PortProg) (h : prog.Inside inited) :
      Standing i seen ⟨true, inited, some (⟨i, c, seen⟩, prog)⟩
  | returns (v : Visit T) (r : Option UInt8) : Standing i seen ⟨false, seen, some (v, .ret r)⟩

/-- A process that has the semaphore, as a critical section. -/
def Process.place (p : Process T) :
    Option ((Visit T × PortProg) × ((Visit T × PortProg) ⊕ Option UInt8)) :=
  if p.nbuslocked then p.running.map fun r => ((r.1, r.1.entry), .inl r) else none

/-- A section is a call from its `semop` on. -/
def begins (_ : σ) (q : Visit T × PortProg) : Prop := q.2 = q.1.entry

/-- A call that has given the semaphore back, as the sections see it. -/
def whole (e : Visit T × Option UInt8) : (Visit T × PortProg) × Option UInt8 :=
  ((e.1, e.1.entry), e.2)

namespace Bus

def sections (S : Bus T σ) : Sections T σ (Visit T × PortProg) (Option UInt8) :=
  ⟨S.gpio, fun i => (S.processes i).place, S.log.map whole⟩

/-- The call that has not given the semaphore back yet. -/
def pending (p : Process T) : List PortCall :=
  match p.running with
  | some (_, .ret _) | none => []
  | some (v, _) => [v.call]

theorem pending_inside {inited locked ready : Bool} {v : Visit T} {prog : PortProg}
    (h : prog.Inside inited) : pending ⟨locked, ready, some (v, prog)⟩ = [v.call] := by
  cases prog with
  | acquire | ret => cases h
  | locked | setInited | release | store | load | ready | fetch => rfl

theorem inside_sections (S : Bus T σ) (i : T) :
    S.sections.inside i = (S.processes i).place := rfl

variable [DecidableEq T]

/-- The process has made one of the calls. -/
def seen (log : List (Visit T × Option UInt8)) (i : T) : Bool := log.any fun e => e.1.who = i

structure Inv (gpio : Gpio σ) (s : σ) (S : Bus T σ) : Prop where
  standing : ∀ i, Standing i (seen S.log i) (S.processes i)
  balance : S.sem = 1 ∧ (∀ i, (S.processes i).nbuslocked = false) ∨
    S.sem = 0 ∧ ∃ i, (S.processes i).nbuslocked = true ∧
      ∀ j, (S.processes j).nbuslocked = true → j = i
  firsts : ∀ before v r after, S.log = before ++ (v, r) :: after → v.inited = seen before v.who
  sections : Sections.Inv (busPiece gpio) begins (fun _ => True) s S.sections

variable {gpio : Gpio σ} {s : σ} {S S' : Bus T σ} {i : T} {p : Process T}

theorem put_same : (S.put i p).processes i = p := Function.update_self ..

theorem put_other {j : T} (h : j ≠ i) : (S.put i p).processes j = S.processes j :=
  Function.update_of_ne h ..

theorem sections_put : (S.put i p).sections =
    { S.sections with inside := Function.update S.sections.inside i p.place } := by
  have hinside : (fun j => ((S.put i p).processes j).place) =
      Function.update S.sections.inside i p.place := by
    funext j
    by_cases hj : j = i
    · subst hj
      rw [put_same, Function.update_self]
    · rw [put_other hj, Function.update_of_ne hj]
      rfl
  rw [sections, hinside]
  rfl

theorem locked_put (hlocked : p.nbuslocked = (S.processes i).nbuslocked) (j : T) :
    ((S.put i p).processes j).nbuslocked = (S.processes j).nbuslocked := by
  by_cases hj : j = i
  · subst hj
    rw [put_same, hlocked]
  · rw [put_other hj]

theorem standing_put (h : ∀ j, Standing j (seen S.log j) (S.processes j))
    (hp : Standing i (seen S.log i) p) (j : T) :
    Standing j (seen S.log j) ((S.put i p).processes j) := by
  by_cases hj : j = i
  · subst hj
    rwa [put_same]
  · rw [put_other hj]
    exact h j

theorem Inv.start (s : σ) : Inv gpio s (start s : Bus T σ) where
  standing _ := .idle
  balance := .inl ⟨rfl, fun _ => rfl⟩
  firsts before v r after h := by simp [Bus.start] at h
  sections := Sections.Inv.empty s

theorem Inv.put (h : Inv gpio s S) (hp : Standing i (seen S.log i) p)
    (hlocked : p.nbuslocked = (S.processes i).nbuslocked)
    (hplace : p.place = (S.processes i).place) : Inv gpio s (S.put i p) where
  standing := standing_put h.standing hp
  balance := by
    simp only [locked_put hlocked]
    exact h.balance
  firsts := h.firsts
  sections := by
    rw [sections_put, hplace]
    have hself : Function.update S.sections.inside i (S.processes i).place = S.sections.inside :=
      Function.update_eq_self ..
    rw [hself]
    exact h.sections

theorem Inv.work (h : Inv gpio s S) {v : Visit T} {prog prog' : PortProg} {inited inited' : Bool}
    {g : σ} (hi : S.processes i = ⟨true, inited, some (v, prog)⟩)
    (hpiece : busPiece gpio (v, prog) S.gpio = some (g, .inl (v, prog')))
    (hinside : prog'.Inside inited') :
    Inv gpio s (Bus.put { S with gpio := g } i ⟨true, inited', some (v, prog')⟩) where
  standing := by
    have hstanding := h.standing i
    rw [hi] at hstanding
    cases hstanding with
    | inside c => exact standing_put (S := { S with gpio := g }) h.standing (.inside c _ _ hinside)
  balance := by
    simp only [locked_put (S := { S with gpio := g }) (p := ⟨true, inited', some (v, prog')⟩)
      (congrArg Process.nbuslocked hi).symm]
    exact h.balance
  firsts := h.firsts
  sections := by
    have hplace : S.sections.inside i = some ((v, v.entry), .inl (v, prog)) := by
      rw [inside_sections, hi]
      rfl
    rw [sections_put]
    exact h.sections.work (fun p hp => absurd trivial hp) hplace hpiece

theorem Inv.acquire (h : Inv gpio s S) (c : PortCall) (hsem : S.sem ≠ 0) :
    Inv gpio s (Bus.put { S with sem := S.sem - 1 } i
      ⟨true, seen S.log i, some (⟨i, c, seen S.log i⟩, c.entry (seen S.log i))⟩) := by
  obtain ⟨hone, hnobody⟩ : S.sem = 1 ∧ ∀ j, (S.processes j).nbuslocked = false := by
    rcases h.balance with hfree | ⟨hzero, -⟩
    · exact hfree
    · exact absurd hzero hsem
  constructor
  · exact standing_put (S := { S with sem := S.sem - 1 }) h.standing
      (.inside c _ _ (c.inside_entry _))
  · right
    refine ⟨by simp [Bus.put, hone], i, ?_, fun j hj => ?_⟩
    · rw [put_same]
    · by_contra hji
      rw [put_other hji] at hj
      cases (hnobody j).symm.trans hj
  · exact h.firsts
  · have hplaces : ∀ u e, S.sections.inside u = some e → False := by
      intro u e he
      simp [inside_sections, Process.place, hnobody u] at he
    rw [sections_put]
    exact h.sections.enter (p := (⟨i, c, seen S.log i⟩, c.entry (seen S.log i))) rfl
      fun u e he => (hplaces u e he).elim

theorem seen_append (log log' : List (Visit T × Option UInt8)) (j : T) :
    seen (log ++ log') j = (seen log j || seen log' j) := List.any_append

theorem Inv.release (h : Inv gpio s S) {c : PortCall} {r : Option UInt8}
    (hi : S.processes i = ⟨true, true, some (⟨i, c, seen S.log i⟩, .release (.ret r))⟩) :
    Inv gpio s (Bus.put
      { S with sem := S.sem + 1, log := S.log ++ [(⟨i, c, seen S.log i⟩, r)] } i
      ⟨false, true, some (⟨i, c, seen S.log i⟩, .ret r)⟩) := by
  have hseen : ∀ j, seen (S.log ++ [(⟨i, c, seen S.log i⟩, r)]) j =
      (seen S.log j || decide (i = j)) := by
    intro j
    rw [seen_append]
    simp [seen]
  obtain ⟨hzero, honly⟩ : S.sem = 0 ∧ ∀ j, (S.processes j).nbuslocked = true → j = i := by
    have hlocked : (S.processes i).nbuslocked = true := by rw [hi]
    rcases h.balance with ⟨-, hnobody⟩ | ⟨hzero, k, -, honly⟩
    · cases (hnobody i).symm.trans hlocked
    · exact ⟨hzero, fun j hj => (honly j hj).trans (honly i hlocked).symm⟩
  constructor
  · intro j
    change Standing j (seen (S.log ++ [(⟨i, c, seen S.log i⟩, r)]) j) _
    rw [hseen]
    by_cases hj : j = i
    · subst hj
      rw [put_same, decide_eq_true rfl, Bool.or_true]
      exact .returns _ r
    · rw [put_other hj, decide_eq_false (Ne.symm hj), Bool.or_false]
      exact h.standing j
  · left
    refine ⟨by simp [Bus.put, hzero], fun j => ?_⟩
    by_cases hj : j = i
    · subst hj
      rw [put_same]
    · rw [put_other hj]
      exact Bool.eq_false_iff.mpr fun hlocked => hj (honly j hlocked)
  · intro before v r' after hlog
    rcases after.eq_nil_or_concat with rfl | ⟨after', last, rfl⟩
    · obtain ⟨hbefore, hlast⟩ := List.append_inj' hlog rfl
      cases hlast
      rw [← hbefore]
    · rw [List.concat_eq_append, ← List.cons_append, ← List.append_assoc] at hlog
      exact h.firsts before v r' after' (List.append_inj' hlog rfl).1
  · have hplace : S.sections.inside i = some ((⟨i, c, seen S.log i⟩, c.entry (seen S.log i)),
        .inl (⟨i, c, seen S.log i⟩, .release (.ret r))) := by
      rw [inside_sections, hi]
      rfl
    have hpiece : busPiece gpio (⟨i, c, seen S.log i⟩, .release (.ret r)) S.gpio =
        some (S.gpio, .inr r) := rfl
    have hwork := h.sections.work (fun p hp => absurd trivial hp) hplace hpiece
    have hleave := hwork.leave (t := i) (Function.update_self ..)
    rw [sections_put, Bus.sections, List.map_append]
    rw [Function.update_idem] at hleave
    exact hleave

theorem Inv.stepInside (h : Inv gpio s S) {c : PortCall} {inited : Bool} {prog : PortProg}
    (hi : S.processes i = ⟨true, inited, some (⟨i, c, seen S.log i⟩, prog)⟩)
    (hinside : prog.Inside inited)
    (hstep : S.stepProg gpio i ⟨i, c, seen S.log i⟩ prog = some S') : Inv gpio s S' := by
  have haccess : ∀ {g prog'}, access gpio S.gpio prog = some (g, prog') →
      busPiece gpio (⟨i, c, seen S.log i⟩, prog) S.gpio =
        some (g, .inl (⟨i, c, seen S.log i⟩, prog')) →
      Inv gpio s (Bus.put { S with gpio := g } i
        ⟨true, inited, some (⟨i, c, seen S.log i⟩, prog')⟩) :=
    fun haccess hpiece => h.work hi hpiece (inside_access hinside haccess)
  cases prog with
  | locked next =>
    simp only [stepProg, hi, Option.some.injEq] at hstep
    subst hstep
    exact h.work hi rfl hinside
  | setInited next =>
    simp only [stepProg, hi, Option.some.injEq] at hstep
    subst hstep
    exact h.work hi rfl hinside
  | release next =>
    obtain ⟨rfl, r, rfl⟩ := hinside
    simp only [stepProg, hi, Option.some.injEq] at hstep
    subst hstep
    exact h.release hi
  | acquire | ret => cases hinside
  | store | load | ready | fetch =>
    simp only [stepProg, hi, access, Option.map_some, Option.some.injEq] at hstep
    subst hstep
    exact haccess rfl rfl

theorem Inv.step (h : Inv gpio s S) {e : BusEvent T} (hstep : S.step gpio e = some S') :
    Inv gpio s S' := by
  cases e with
  | call i c =>
    have hstanding := h.standing i
    generalize hi : S.processes i = p at hstanding
    cases hstanding with
    | idle =>
      simp only [Bus.step, hi, Option.isNone_none, if_true, Option.some.injEq] at hstep
      subst hstep
      exact h.put (.called c) (by rw [hi]) (by rw [hi]; rfl)
    | called | waits | inside | returns => simp [Bus.step, hi] at hstep
  | step i =>
    have hstanding := h.standing i
    generalize hi : S.processes i = p at hstanding
    simp only [Bus.step, hi] at hstep
    cases hstanding with
    | idle => cases hstep
    | called c =>
      simp only [c.prog_eq, stepProg, hi, Option.some.injEq] at hstep
      subst hstep
      exact h.put (.waits c) (by rw [hi]) (by rw [hi]; rfl)
    | waits c =>
      simp only [stepProg, hi] at hstep
      obtain ⟨hsem, hnext⟩ := Option.ite_none_left_eq_some.mp hstep
      cases hnext
      exact h.acquire c hsem
    | inside c inited prog hinside => exact h.stepInside hi hinside hstep
    | returns v r =>
      simp only [stepProg, hi, Option.some.injEq] at hstep
      subst hstep
      exact h.put .idle (by rw [hi]) (by rw [hi]; rfl)

theorem Inv.run {events : List (BusEvent T)}
    (hrun : exec (Bus.step gpio) (Bus.start s) events = some S) : Inv gpio s S :=
  (allSteps_true (Bus.start s) events).exec_inv (fun _ _ _ hS _ hstep => hS.step hstep) (.start s)
    hrun

theorem Inv.pins (h : Inv gpio s S) (hstep : S.step gpio (.step i) = some S')
    (hpins : S'.gpio ≠ S.gpio) : (S.processes i).nbuslocked = true := by
  have hstanding := h.standing i
  generalize hi : S.processes i = p at hstanding
  simp only [Bus.step, hi] at hstep
  cases hstanding with
  | idle => cases hstep
  | called c =>
    simp only [c.prog_eq, stepProg, Option.some.injEq] at hstep
    subst hstep
    exact absurd rfl hpins
  | waits c =>
    simp only [stepProg] at hstep
    obtain ⟨-, hnext⟩ := Option.ite_none_left_eq_some.mp hstep
    cases hnext
    exact absurd rfl hpins
  | inside => rfl
  | returns v r =>
    simp only [stepProg, Option.some.injEq] at hstep
    subst hstep
    exact absurd rfl hpins

/-- The process that has the semaphore can go on; if none has it, any that makes a call can. -/
theorem Inv.enabled (h : Inv gpio s S) (hrunning : (S.processes i).running.isSome)
    (hfree : S.sem = 1 ∨ (S.processes i).nbuslocked = true) :
    (S.step gpio (.step i)).isSome := by
  have hstanding := h.standing i
  generalize hi : S.processes i = p at hstanding
  simp only [Bus.step, hi]
  rw [hi] at hrunning hfree
  cases hstanding with
  | idle => cases hrunning
  | called c => simp [c.prog_eq, stepProg]
  | waits c =>
    rcases hfree with hfree | hfree
    · simp [stepProg, hfree]
    · cases hfree
  | inside c inited prog hinside =>
    cases prog with
    | acquire | ret => cases hinside
    | locked | setInited | release | store | load | ready | fetch => rfl
  | returns v r => rfl

theorem Inv.progress (h : Inv gpio s S) (hrunning : (S.processes i).running.isSome) :
    ∃ j, (S.step gpio (.step j)).isSome := by
  rcases h.balance with ⟨hone, -⟩ | ⟨-, j, hj, -⟩
  · exact ⟨i, h.enabled hrunning (.inl hone)⟩
  · have hstanding := h.standing j
    have hbusy : (S.processes j).running.isSome := by
      generalize S.processes j = p at hj hstanding
      cases hstanding with
      | inside => rfl
      | idle | called | waits | returns => cases hj
    exact ⟨j, h.enabled hbusy (.inr hj)⟩

/-- The calls of a process, in the order in which they were logged, and the one it is making. -/
def issued (S : Bus T σ) (i : T) : List PortCall :=
  (S.log.filter fun e => e.1.who = i).map (fun e => e.1.call) ++ pending (S.processes i)

/-- The calls of a process among the events. -/
def callsOf (i : T) : List (BusEvent T) → List PortCall
  | [] => []
  | .call j c :: events => if j = i then c :: callsOf i events else callsOf i events
  | .step _ :: events => callsOf i events

theorem issued_put (hpending : pending p = pending (S.processes i)) (j : T) :
    issued (S.put i p) j = issued S j := by
  by_cases hj : j = i
  · subst hj
    rw [issued, put_same, hpending]
    rfl
  · rw [issued, put_other hj]
    rfl

theorem Inv.issued_inside {c : PortCall} {inited : Bool} {prog : PortProg}
    (hi : S.processes i = ⟨true, inited, some (⟨i, c, seen S.log i⟩, prog)⟩)
    (hinside : prog.Inside inited)
    (hstep : S.stepProg gpio i ⟨i, c, seen S.log i⟩ prog = some S') (j : T) :
    issued S' j = issued S j := by
  have hnow : pending (S.processes i) = [c] := by
    rw [hi]
    exact pending_inside hinside
  have haccess : ∀ {g prog'}, access gpio S.gpio prog = some (g, prog') →
      issued (Bus.put { S with gpio := g } i
        ⟨true, inited, some (⟨i, c, seen S.log i⟩, prog')⟩) j = issued S j := by
    intro g prog' haccess
    apply issued_put (S := { S with gpio := g })
    rw [pending_inside (inside_access hinside haccess), hnow]
  cases prog with
  | locked next =>
    have hnext : (next true).Inside inited := hinside
    simp only [stepProg, hi, Option.some.injEq] at hstep
    subst hstep
    apply issued_put
    rw [pending_inside hnext, hnow]
  | setInited next =>
    have hnext : next.Inside true := hinside
    simp only [stepProg, hi, Option.some.injEq] at hstep
    subst hstep
    apply issued_put
    rw [pending_inside hnext, hnow]
  | release next =>
    obtain ⟨rfl, r, rfl⟩ := hinside
    simp only [stepProg, hi, Option.some.injEq] at hstep
    subst hstep
    by_cases hj : j = i
    · subst hj
      rw [issued, put_same, issued, hnow]
      simp [Bus.put, pending]
    · rw [issued, put_other hj, issued]
      simp [Bus.put, Ne.symm hj]
  | acquire | ret => cases hinside
  | store | load | ready | fetch =>
    simp only [stepProg, hi, access, Option.map_some, Option.some.injEq] at hstep
    subst hstep
    exact haccess rfl

theorem Inv.issued_step (h : Inv gpio s S) {e : BusEvent T} (hstep : S.step gpio e = some S')
    (j : T) : issued S' j = issued S j ++ callsOf j [e] := by
  cases e with
  | call i c =>
    have hstanding := h.standing i
    generalize hi : S.processes i = p at hstanding
    cases hstanding with
    | idle =>
      simp only [Bus.step, hi, Option.isNone_none, if_true, Option.some.injEq] at hstep
      subst hstep
      by_cases hj : j = i
      · subst hj
        rw [issued, put_same, issued, hi]
        simp [Bus.put, pending, callsOf, c.prog_eq]
      · rw [issued, put_other hj, issued]
        simp [Bus.put, callsOf, Ne.symm hj]
    | called | waits | inside | returns => simp [Bus.step, hi] at hstep
  | step i =>
    rw [callsOf, callsOf, List.append_nil]
    have hstanding := h.standing i
    generalize hi : S.processes i = p at hstanding
    simp only [Bus.step, hi] at hstep
    cases hstanding with
    | idle => cases hstep
    | called c =>
      simp only [c.prog_eq, stepProg, hi, Option.some.injEq] at hstep
      subst hstep
      apply issued_put
      rw [hi, c.prog_eq]
      rfl
    | waits c =>
      simp only [stepProg, hi] at hstep
      obtain ⟨-, hnext⟩ := Option.ite_none_left_eq_some.mp hstep
      cases hnext
      apply issued_put (S := { S with sem := S.sem - 1 })
      rw [hi]
      exact pending_inside (c.inside_entry _)
    | inside c inited prog hinside => exact Inv.issued_inside hi hinside hstep j
    | returns v r =>
      simp only [stepProg, hi, Option.some.injEq] at hstep
      subst hstep
      apply issued_put
      rw [hi]
      rfl

theorem Inv.issued_run (h : Inv gpio s S) {events : List (BusEvent T)}
    (hrun : exec (Bus.step gpio) S events = some S') (j : T) :
    issued S' j = issued S j ++ callsOf j events := by
  induction events generalizing S with
  | nil =>
    cases hrun
    rw [callsOf, List.append_nil]
  | cons e events ih =>
    obtain ⟨S₁, hstep, hrest⟩ := Option.bind_eq_some_iff.mp hrun
    rw [ih (h.step hstep) hrest, h.issued_step hstep, List.append_assoc]
    congr 1
    cases e with
    | call i c =>
      simp only [callsOf]
      split
      · rfl
      · rfl
    | step i => rfl

end Bus

open Bus in
/-- Any processes, whatever the pins do and however the steps of the processes come between each
other: one process has the semaphore at a time and no other changes the pins; the calls that have
given it back have had the effect on the pins and the results of being executed whole, one after
the other, in that order; they are the calls that were made, in the order of each process, but for
the one it is making; the first one of each process, and no other, has set up the pins; and while
a process makes a call some process can go on. -/
theorem ports_serial [DecidableEq T] (gpio : Gpio σ) (s : σ) {S : Bus T σ}
    (events : List (BusEvent T)) (hrun : exec (Bus.step gpio) (start s) events = some S) :
    (∀ i j, (S.processes i).nbuslocked = true → (S.processes j).nbuslocked = true → i = j) ∧
    (∀ i S', S.step gpio (.step i) = some S' → S'.gpio ≠ S.gpio →
      (S.processes i).nbuslocked = true) ∧
    (∃ t, Serial (busPiece gpio) begins s (S.log.map whole) t ∧
      ((∀ i, (S.processes i).nbuslocked = false) → S.gpio = t)) ∧
    (∀ i, issued S i = callsOf i events) ∧
    (∀ before v r after, S.log = before ++ (v, r) :: after →
      (v.inited = true ↔ ∃ e ∈ before, e.1.who = v.who)) ∧
    ∀ i, (S.processes i).running.isSome → ∃ j, (S.step gpio (.step j)).isSome := by
  have h : Inv gpio s S := Inv.run hrun
  refine ⟨fun i j hi hj => ?_, fun i S' => h.pins, ?_, fun i => ?_,
    fun before v r after hlog => ?_, fun i => h.progress⟩
  · rcases h.balance with ⟨-, hnobody⟩ | ⟨-, k, -, honly⟩
    · cases (hnobody i).symm.trans hi
    · exact (honly i hi).trans (honly j hj).symm
  · obtain ⟨t, hserial, -, hidle⟩ := h.sections.serial
    refine ⟨t, hserial, fun hnobody => hidle fun i e he => ?_⟩
    simp [inside_sections, Process.place, hnobody i] at he
  · exact (Inv.start s).issued_run hrun i
  · rw [h.firsts before v r after hlog]
    simp [seen]

end Processes

/-- Registers that hold what was stored last. -/
def registers : Gpio (Nat → UInt32) where
  store s reg v := Function.update s reg v
  load s reg := (s, s reg)

local instance processNeZero : NeZero 2 := ⟨Nat.succ_ne_zero 1⟩

local instance inputNeZero : NeZero 3 := ⟨Nat.succ_ne_zero 2⟩

local instance relayNeZero : NeZero 8 := ⟨Nat.succ_ne_zero 7⟩

/-- One process reads a port while another waits for the semaphore. -/
def readThenSwitch : List (BusEvent (Fin 2)) :=
  .call 0 (.inPortByte 1) :: .call 1 (.outPort 0 1 3) :: .step 1 ::
    List.replicate 51 (.step 0) ++ [.step 1]

theorem ports_serial_wait :
    ∃ S ∈ exec (Bus.step registers) (Bus.start fun _ => 0) readThenSwitch,
      S.log = [(⟨0, .inPortByte 1, false⟩, some 0)] ∧
      ∃ t, Serial (busPiece registers) begins (fun _ => 0) (S.log.map whole) t := by
  have hlog : (exec (Bus.step registers) (Bus.start fun _ => 0) readThenSwitch).map Bus.log =
      some [(⟨0, .inPortByte 1, false⟩, some 0)] := by
    rfl
  obtain ⟨S, hS, hlog⟩ := Option.map_eq_some_iff.mp hlog
  obtain ⟨-, -, ⟨t, hserial, -⟩, -⟩ := ports_serial registers _ _ hS
  exact ⟨S, hS, hlog, t, hserial⟩

end TcpIot.Io
