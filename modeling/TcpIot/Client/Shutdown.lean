import TcpIot.Client.Pipeline

/-!
# Shutting the client down

`main`, `get_host_cmd_task` and `basic_controls_task` stop on evidence of their own: a
`close_program`, a received command, a command handed on by `add_msg_queue`. The header declares
`close_program` as `static`, so each of the three files has its own.
-/

namespace TcpIot.Client

open Framework

/-- The files of the client that see `close_program` through `tasks.h`. -/
inductive File where
  | threadClient | cmdTasks | tasks
deriving DecidableEq

/-- Where `get_host_cmd_task` is in its loop. -/
inductive HostState where
  | testing
  | receiving
  /-- In `add_msg_queue`. -/
  | adding (cmd onoff : UInt8)
  /-- After `return 0`. -/
  | closed
  /-- After the `return 1` that this command led to. -/
  | returned (cmd : UInt8)
deriving DecidableEq

/-- Where `basic_controls_task` is; it returns behind the `switch` that handled a command. -/
inductive ControlsState where
  | receiving
  | returned (cmd : UInt8)
deriving DecidableEq

structure Program where
  closeProgram : File → Nat
  /-- The queue with id `staticQid`, the one `cmd_tasks.c` and `tasks.c` use for everything. -/
  queue : Option (List (Buffer 300))
  host : HostState
  controls : ControlsState
  /-- `listen_thread` is in its loop. -/
  listening : Bool
  /-- Heartbeats that `listen_thread` has answered. -/
  answers : Nat
  exited : Bool
  /-- Ghost: the commands `get_host_cmd_task` has queued to `basic_controls_task`. -/
  queuedCmds : List UInt8

/-- All threads before their first step. -/
def Program.start (queue : Option (List (Buffer 300))) : Program where
  closeProgram := fun _ => 0
  queue := queue
  host := .testing
  controls := .receiving
  listening := true
  answers := 0
  exited := false
  queuedCmds := []

inductive Event where
  /-- `listen_thread` or another process queues a message. -/
  | arrive (mtext : Buffer 300)
  /-- `listen_thread` receives a `DISCONNECT`. -/
  | disconnect
  /-- `listen_thread` answers a `SEND_STATUS`. -/
  | answer
  | mainTest
  | hostTest
  | hostReceive
  | hostAdd (stack : Buffer 300)
  | controlsReceive
deriving DecidableEq

/-- What follows the first `switch` of `get_host_cmd_task`. -/
def afterSwitch (cmd : UInt8) : HostState :=
  if IsOneOf cmd shutdownCmds then .returned cmd else .testing

/-- `get_host_cmd_task` from `msgrcv` to the end of the turn or into `add_msg_queue`. -/
def hostTurn (build : Build) (mtext : Buffer 300) : Option HostState :=
  (hostUnpack mtext).map fun (cmd, _, text) =>
    match hostForward build cmd text with
    | some (cmd, onoff) => .adding cmd onoff
    | none => afterSwitch cmd

/-- The `close_program` of `tasks.c` behind the `switch` of `basic_controls_task`. -/
def controlsFlag (cmd : UInt8) (closeProgram : Nat) : Nat :=
  if IsOneOf cmd shutdownCmds then 1 else closeProgram

/-- One step of one of the four threads; `none` when it is blocked, has returned, or would
overrun `tempx`. -/
def Program.step (build : Build) (p : Program) (e : Event) : Option Program :=
  if p.exited then none
  else
    match e with
    | .arrive mtext => p.queue.map fun q => { p with queue := some (q ++ [mtext]) }
    | .disconnect =>
      if p.listening then
        some { p with
          listening := false
          closeProgram := Function.update p.closeProgram .threadClient 1 }
      else none
    | .answer => if p.listening then some { p with answers := p.answers + 1 } else none
    | .mainTest =>
      if p.closeProgram .threadClient = 0 then some p else some { p with exited := true }
    | .hostTest =>
      match p.host with
      | .testing =>
        some { p with host := if p.closeProgram .cmdTasks = 1 then .closed else .receiving }
      | _ => none
    | .hostReceive =>
      match p.host with
      | .receiving =>
        match p.queue with
        | none => some { p with exited := true }
        | some [] => none
        | some (m :: q) =>
          (hostTurn build m).map fun host => { p with queue := some q, host := host }
      | _ => none
    | .hostAdd stack =>
      match p.host with
      | .adding cmd onoff =>
        match p.queue with
        | none => some { p with exited := true }
        | some q =>
          some { p with
            queue := some (q ++ [addMsg cmd onoff stack])
            host := afterSwitch cmd
            queuedCmds := p.queuedCmds ++ [cmd] }
      | _ => none
    | .controlsReceive =>
      match p.controls with
      | .receiving =>
        match p.queue with
        | none => some { p with exited := true }
        | some [] => none
        | some (m :: q) =>
          let cmd := m.get 0
          let flag := controlsFlag cmd (p.closeProgram .tasks)
          some { p with
            queue := some q
            closeProgram := Function.update p.closeProgram .tasks flag
            controls := if flag = 1 then .returned cmd else .receiving }
      | _ => none

/-- After `get_host_cmd_task` returned on a command, that command has been queued to
`basic_controls_task`; and once this has returned as well, on whatever command, `main` sees 1. -/
structure AllOrNothing (p : Program) : Prop where
  queued : ∀ cmd, p.host = .returned cmd → cmd ∈ p.queuedCmds
  heard : ∀ cmd cmd', p.host = .returned cmd → p.controls = .returned cmd' →
    p.closeProgram .threadClient = 1

/-- The condition on a step: `get_host_cmd_task` takes no shutdown command whose text starts
with neither `ON` nor `OFF`, and the second of the two tasks to stop does so after a
`DISCONNECT`. -/
def StopsTogether (p : Program) : Event → Prop
  | .hostReceive => ∀ q ∈ p.queue, ∀ m ∈ q.head?, ∀ unpacked ∈ hostUnpack m,
      IsOneOf unpacked.1 shutdownCmds → onOff unpacked.2.2 ≠ 255
  | .hostAdd _ => ∀ cmd onoff cmd', p.host = .adding cmd onoff → IsOneOf cmd shutdownCmds →
      p.controls = .returned cmd' → p.listening = false
  | .controlsReceive => ∀ q ∈ p.queue, ∀ m ∈ q.head?, ∀ cmd, IsOneOf (m.get 0) shutdownCmds →
      p.host = .returned cmd → p.listening = false
  | _ => True

/-- What a step can be, with the guard it was taken under. -/
inductive Move (build : Build) (p : Program) : Event → Program → Prop where
  | arrive (mtext : Buffer 300) (q : List (Buffer 300)) (hq : p.queue = some q) :
    Move build p (.arrive mtext) { p with queue := some (q ++ [mtext]) }
  | disconnect :
    Move build p .disconnect { p with
      listening := false
      closeProgram := Function.update p.closeProgram .threadClient 1 }
  | answer (hlistening : p.listening = true) :
    Move build p .answer { p with answers := p.answers + 1 }
  | stay (hflag : p.closeProgram .threadClient = 0) : Move build p .mainTest p
  | leave (hflag : p.closeProgram .threadClient ≠ 0) :
    Move build p .mainTest { p with exited := true }
  | hostTest (host : HostState) (hstart : p.host = .testing) (hloop : ∀ cmd, host ≠ .returned cmd) :
    Move build p .hostTest { p with host := host }
  | hostReceive (m : Buffer 300) (q : List (Buffer 300)) (host : HostState)
      (hstart : p.host = .receiving) (hq : p.queue = some (m :: q))
      (hturn : hostTurn build m = some host) :
    Move build p .hostReceive { p with queue := some q, host := host }
  | hostAdd (stack : Buffer 300) (cmd onoff : UInt8) (q : List (Buffer 300))
      (hstart : p.host = .adding cmd onoff) (hq : p.queue = some q) :
    Move build p (.hostAdd stack) { p with
      queue := some (q ++ [addMsg cmd onoff stack])
      host := afterSwitch cmd
      queuedCmds := p.queuedCmds ++ [cmd] }
  | controlsReceive (m : Buffer 300) (q : List (Buffer 300)) (flag : Nat)
      (hstart : p.controls = .receiving) (hq : p.queue = some (m :: q))
      (hflag : flag = controlsFlag (m.get 0) (p.closeProgram .tasks)) :
    Move build p .controlsReceive { p with
      queue := some q
      closeProgram := Function.update p.closeProgram .tasks flag
      controls := if flag = 1 then .returned (m.get 0) else .receiving }
  | noQueue (e : Event) (hq : p.queue = none) : Move build p e { p with exited := true }

variable {build : Build} {p p' : Program} {e : Event}

theorem Program.step_move (h : p.step build e = some p') : Move build p e p' := by
  unfold Program.step at h
  split at h
  · cases h
  · cases e with
    | arrive mtext =>
      obtain ⟨q, hq, rfl⟩ := Option.map_eq_some_iff.mp h
      exact .arrive mtext q hq
    | disconnect =>
      simp only at h
      split at h
      · cases h
        exact .disconnect
      · cases h
    | answer =>
      simp only at h
      split at h
      · cases h
        exact .answer ‹_›
      · cases h
    | mainTest =>
      simp only at h
      split at h
      · cases h
        exact .stay ‹_›
      · cases h
        exact .leave ‹_›
    | hostTest =>
      simp only at h
      split at h
      · cases h
        refine .hostTest _ ‹_› fun cmd => ?_
        split
        · simp
        · simp
      · cases h
    | hostReceive =>
      simp only at h
      split at h
      · split at h
        · cases h
          exact .noQueue _ ‹_›
        · cases h
        · obtain ⟨host, hturn, rfl⟩ := Option.map_eq_some_iff.mp h
          exact .hostReceive _ _ host ‹_› ‹_› hturn
      · cases h
    | hostAdd stack =>
      simp only at h
      split at h
      · split at h
        · cases h
          exact .noQueue _ ‹_›
        · cases h
          exact .hostAdd stack _ _ _ ‹_› ‹_›
      · cases h
    | controlsReceive =>
      simp only at h
      split at h
      · split at h
        · cases h
          exact .noQueue _ ‹_›
        · cases h
        · cases h
          exact .controlsReceive _ _ _ ‹_› ‹_› rfl
      · cases h

/-- What ties the flags, the queue and the ghost to the states of the threads. -/
structure Linked (p : Program) : Prop where
  main : p.closeProgram .threadClient = 1 ↔ p.listening = false
  controls : p.controls = .receiving → p.closeProgram .tasks ≠ 1
  unused : p.queue = none → p.controls = .receiving
  unsent : (∀ cmd, p.host ≠ .returned cmd) → ∀ cmd ∈ p.queuedCmds, ¬ IsOneOf cmd shutdownCmds

theorem Linked.start (queue : Option (List (Buffer 300))) : Linked (.start queue) where
  main := by simp [Program.start]
  controls := by simp [Program.start]
  unused := fun _ => rfl
  unsent := fun _ cmd hcmd => by cases hcmd

theorem afterSwitch_eq_returned {cmd cmd' : UInt8} :
    afterSwitch cmd = .returned cmd' ↔ IsOneOf cmd shutdownCmds ∧ cmd = cmd' := by
  unfold afterSwitch
  split
  · rename_i hshutdown
    simp [hshutdown]
  · rename_i hother
    simp [hother]

theorem afterSwitch_not_returned {cmd : UInt8} (h : ∀ cmd', afterSwitch cmd ≠ .returned cmd') :
    ¬ IsOneOf cmd shutdownCmds :=
  fun hshutdown => h cmd (afterSwitch_eq_returned.mpr ⟨hshutdown, rfl⟩)

theorem onOff_eq_255 (text : Buffer 255) :
    onOff text = 255 ↔ ¬ (onOff text = 1 ∨ onOff text = 0) := by
  unfold onOff
  split
  · simp
  · split
    · simp
    · simp

theorem hostForward_eq_none {cmd : UInt8} {text : Buffer 255} (h : IsOneOf cmd shutdownCmds) :
    hostForward build cmd text = none ↔ onOff text = 255 := by
  obtain ⟨c, hc, rfl⟩ := h
  have hlisted : IsOneOf c.code (build.relays ++ shutdownCmds) :=
    ⟨c, List.mem_append_right _ hc, rfl⟩
  rw [onOff_eq_255, hostForward]
  split
  · rename_i hforward
    simp [hforward.2]
  · rename_i hnone
    simpa using fun hdefined => hnone ⟨hlisted, hdefined⟩

theorem hostTurn_returned {m : Buffer 300} {cmd : UInt8} :
    hostTurn build m = some (.returned cmd) ↔
      ∃ len text, hostUnpack m = some (cmd, len, text) ∧ IsOneOf cmd shutdownCmds ∧
        onOff text = 255 := by
  constructor
  · intro hturn
    obtain ⟨⟨c, len, text⟩, hunpack, hhost⟩ := Option.map_eq_some_iff.mp hturn
    simp only at hhost
    split at hhost
    · cases hhost
    · rename_i hnone
      obtain ⟨hshutdown, rfl⟩ := afterSwitch_eq_returned.mp hhost
      exact ⟨len, text, hunpack, hshutdown, (hostForward_eq_none hshutdown).mp hnone⟩
  · rintro ⟨len, text, hunpack, hshutdown, hneither⟩
    simp only [hostTurn, hunpack, Option.map_some, (hostForward_eq_none hshutdown).mpr hneither]
    rw [afterSwitch_eq_returned.mpr ⟨hshutdown, rfl⟩]

theorem Linked.move (hp : Linked p) (h : Move build p e p') : Linked p' := by
  cases h with
  | arrive mtext q hq => exact ⟨hp.main, hp.controls, fun h => (by cases h), hp.unsent⟩
  | disconnect =>
    refine ⟨by simp, fun hreceiving => ?_, hp.unused, hp.unsent⟩
    simpa using hp.controls hreceiving
  | answer hlistening => exact ⟨hp.main, hp.controls, hp.unused, hp.unsent⟩
  | stay hflag => exact hp
  | leave hflag => exact ⟨hp.main, hp.controls, hp.unused, hp.unsent⟩
  | hostTest host hstart hloop =>
    exact ⟨hp.main, hp.controls, hp.unused, fun _ => hp.unsent (by simp [hstart])⟩
  | hostReceive m q host hstart hq hturn =>
    exact ⟨hp.main, hp.controls, fun h => (by cases h), fun _ => hp.unsent (by simp [hstart])⟩
  | hostAdd stack cmd onoff q hstart hq =>
    refine ⟨hp.main, hp.controls, fun h => (by cases h), fun hloop c hc => ?_⟩
    rcases List.mem_append.mp hc with hold | hnew
    · exact hp.unsent (by simp [hstart]) c hold
    · cases List.mem_singleton.mp hnew
      exact afterSwitch_not_returned hloop
  | controlsReceive m q flag hstart hq hflag =>
    refine ⟨by simpa using hp.main, fun hreceiving => ?_, fun h => (by cases h), hp.unsent⟩
    simp only [Function.update_self]
    intro hone
    simp [hone] at hreceiving
  | noQueue e hq => exact ⟨hp.main, hp.controls, hp.unused, hp.unsent⟩

private theorem controlsFlag_eq_one {cmd : UInt8} {closeProgram : Nat} (h : closeProgram ≠ 1) :
    controlsFlag cmd closeProgram = 1 ↔ IsOneOf cmd shutdownCmds := by
  unfold controlsFlag
  split
  · rename_i hshutdown
    simp [hshutdown]
  · rename_i hother
    simp [hother, h]

private theorem hostReceive_iff (hp : Linked p) {m : Buffer 300} {q : List (Buffer 300)}
    {host : HostState} (hstart : p.host = .receiving) (hq : p.queue = some (m :: q))
    (hturn : hostTurn build m = some host) :
    AllOrNothing { p with queue := some q, host := host } ↔ StopsTogether p .hostReceive := by
  have hunsent := hp.unsent (by simp [hstart])
  constructor
  · intro hafter q' hq' m' hm' ⟨cmd, len, text⟩ hunpack hshutdown hneither
    cases hq.symm.trans hq'
    cases hm'
    have hreturned : hostTurn build m = some (.returned cmd) :=
      hostTurn_returned.mpr ⟨len, text, hunpack, hshutdown, hneither⟩
    cases hturn.symm.trans hreturned
    exact hunsent cmd (hafter.queued cmd rfl) hshutdown
  · intro hcondition
    have hloop (cmd : UInt8) : host ≠ .returned cmd := by
      rintro rfl
      obtain ⟨len, text, hunpack, hshutdown, hneither⟩ := hostTurn_returned.mp hturn
      exact hcondition _ hq m rfl _ hunpack hshutdown hneither
    exact ⟨fun cmd hcmd => absurd hcmd (hloop cmd), fun cmd _ hcmd => absurd hcmd (hloop cmd)⟩

private theorem hostAdd_iff (hp : Linked p) {cmd onoff : UInt8} (stack : Buffer 300)
    (queue : Option (List (Buffer 300))) (hstart : p.host = .adding cmd onoff) :
    AllOrNothing { p with
      queue := queue
      host := afterSwitch cmd
      queuedCmds := p.queuedCmds ++ [cmd] } ↔ StopsTogether p (.hostAdd stack) := by
  constructor
  · intro hafter cmd' onoff' other hadding hshutdown hcontrols
    cases hstart.symm.trans hadding
    have hreturned := afterSwitch_eq_returned.mpr ⟨hshutdown, rfl⟩
    exact hp.main.mp (hafter.heard cmd other hreturned hcontrols)
  · intro hcondition
    constructor
    · intro cmd' hreturned
      obtain ⟨-, rfl⟩ := afterSwitch_eq_returned.mp hreturned
      exact List.mem_append_right _ List.mem_cons_self
    · intro cmd' other hreturned hcontrols
      obtain ⟨hshutdown, rfl⟩ := afterSwitch_eq_returned.mp hreturned
      exact hp.main.mpr (hcondition cmd onoff other hstart hshutdown hcontrols)

private theorem controls_returned_iff (hp : Linked p) {first cmd : UInt8} {flag : Nat}
    (hstart : p.controls = .receiving) (hflag : flag = controlsFlag first (p.closeProgram .tasks)) :
    (if flag = 1 then ControlsState.returned first else .receiving) = .returned cmd ↔
      IsOneOf first shutdownCmds ∧ first = cmd := by
  have hone := @controlsFlag_eq_one first _ (hp.controls hstart)
  rw [← hflag] at hone
  split
  · rename_i hflagged
    simp [hone.mp hflagged]
  · rename_i hclear
    simp [hone.not.mp hclear]

private theorem controlsReceive_iff (hp : Linked p) (hlaw : AllOrNothing p) {m : Buffer 300}
    {q : List (Buffer 300)} {flag : Nat} (hstart : p.controls = .receiving)
    (hq : p.queue = some (m :: q))
    (hflag : flag = controlsFlag (m.get 0) (p.closeProgram .tasks)) :
    AllOrNothing { p with
      queue := some q
      closeProgram := Function.update p.closeProgram .tasks flag
      controls := if flag = 1 then .returned (m.get 0) else .receiving } ↔
        StopsTogether p .controlsReceive := by
  constructor
  · intro hafter q' hq' m' hm' cmd hshutdown hhost
    cases hq.symm.trans hq'
    cases hm'
    have hreturned := (controls_returned_iff hp hstart hflag).mpr ⟨hshutdown, rfl⟩
    have hmain := hafter.heard cmd (m.get 0) hhost hreturned
    exact hp.main.mp (by simpa using hmain)
  · intro hcondition
    refine ⟨hlaw.queued, fun cmd cmd' hhost hcontrols => ?_⟩
    obtain ⟨hshutdown, -⟩ := (controls_returned_iff hp hstart hflag).mp hcontrols
    simpa using hp.main.mpr (hcondition _ hq m rfl cmd hshutdown hhost)

private theorem stopsTogether_noQueue (hp : Linked p) (hq : p.queue = none) (e : Event) :
    StopsTogether p e := by
  have hreceiving := hp.unused hq
  cases e with
  | hostReceive =>
    intro q hq'
    cases hq.symm.trans hq'
  | hostAdd stack =>
    intro cmd onoff cmd' hadding hshutdown hcontrols
    cases hreceiving.symm.trans hcontrols
  | controlsReceive =>
    intro q hq'
    cases hq.symm.trans hq'
  | _ => trivial

theorem AllOrNothing.move_iff (hp : Linked p) (hlaw : AllOrNothing p)
    (h : Move build p e p') : AllOrNothing p' ↔ StopsTogether p e := by
  cases h with
  | arrive mtext q hq => exact iff_of_true ⟨hlaw.queued, hlaw.heard⟩ trivial
  | disconnect =>
    refine iff_of_true ⟨hlaw.queued, fun cmd cmd' _ _ => ?_⟩ trivial
    simp
  | answer hlistening => exact iff_of_true ⟨hlaw.queued, hlaw.heard⟩ trivial
  | stay hflag => exact iff_of_true hlaw trivial
  | leave hflag => exact iff_of_true ⟨hlaw.queued, hlaw.heard⟩ trivial
  | hostTest host hstart hloop =>
    exact iff_of_true ⟨fun cmd hcmd => absurd hcmd (hloop cmd),
      fun cmd _ hcmd => absurd hcmd (hloop cmd)⟩ trivial
  | hostReceive m q host hstart hq hturn => exact hostReceive_iff hp hstart hq hturn
  | hostAdd stack cmd onoff q hstart hq => exact hostAdd_iff hp stack _ hstart
  | controlsReceive m q flag hstart hq hflag =>
    exact controlsReceive_iff hp hlaw hstart hq hflag
  | noQueue e hq =>
    exact iff_of_true ⟨hlaw.queued, hlaw.heard⟩ (stopsTogether_noQueue hp hq e)

theorem AllOrNothing.start (queue : Option (List (Buffer 300))) :
    AllOrNothing (.start queue) where
  queued := fun cmd hcmd => by cases hcmd
  heard := fun cmd cmd' hcmd => by cases hcmd

/-- For every client, every first content of the queue and every run: each state reached obeys
the law exactly when each step taken meets the condition. -/
theorem allOrNothing_iff (build : Build) (queue : Option (List (Buffer 300)))
    (events : List Event) :
    AllSteps (Program.step build)
        (fun p e => ∀ p', p.step build e = some p' → AllOrNothing p') (.start queue) events ↔
      AllSteps (Program.step build)
        (fun p e => (p.step build e).isSome → StopsTogether p e) (.start queue) events := by
  refine @allSteps_iff_of_inv _ _ _ (fun _ _ => True) _ _ (fun p => Linked p ∧ AllOrNothing p)
    _ _ (fun p e hp _ => ?_) (fun p e p' hp _ hcondition hstep => ?_) (allSteps_true _ _)
    ⟨.start queue, .start queue⟩
  · constructor
    · intro hafter hsome
      obtain ⟨p', hstep⟩ := Option.isSome_iff_exists.mp hsome
      exact (hp.2.move_iff hp.1 (Program.step_move hstep)).mp (hafter p' hstep)
    · intro hcondition p' hstep
      refine (hp.2.move_iff hp.1 (Program.step_move hstep)).mpr (hcondition ?_)
      exact Option.isSome_iff_exists.mpr ⟨p', hstep⟩
  · have hmove := Program.step_move hstep
    refine ⟨hp.1.move hmove, (hp.2.move_iff hp.1 hmove).mpr (hcondition ?_)⟩
    exact Option.isSome_iff_exists.mpr ⟨p', hstep⟩

/-- Both tasks have returned, the host on `cmd` and the controls on `cmd'`, and `main` still
sees 0. -/
structure Stranded (p : Program) (cmd cmd' : UInt8) : Prop where
  host : p.host = .returned cmd
  controls : p.controls = .returned cmd'
  main : p.closeProgram .threadClient = 0
  listening : p.listening = true
  running : p.exited = false

instance (p : Program) (cmd cmd' : UInt8) : Decidable (Stranded p cmd cmd') :=
  decidable_of_iff (p.host = .returned cmd ∧ p.controls = .returned cmd' ∧
      p.closeProgram .threadClient = 0 ∧ p.listening = true ∧ p.exited = false)
    ⟨fun ⟨hhost, hcontrols, hmain, hlistening, hrunning⟩ =>
      ⟨hhost, hcontrols, hmain, hlistening, hrunning⟩,
    fun h => ⟨h.host, h.controls, h.main, h.listening, h.running⟩⟩

section Stranded

variable {cmd cmd' : UInt8}

theorem Stranded.breaks (h : Stranded p cmd cmd') : ¬ AllOrNothing p := by
  intro hlaw
  have hflag := hlaw.heard cmd cmd' h.host h.controls
  rw [h.main] at hflag
  cases hflag

theorem Stranded.move (hp : Stranded p cmd cmd') (hlinked : Linked p) (h : Move build p e p')
    (hconnected : e ≠ .disconnect) : Stranded p' cmd cmd' := by
  obtain ⟨hhost, hcontrols, hmain, hlistening, hrunning⟩ := hp
  cases h with
  | arrive mtext q hq => exact ⟨hhost, hcontrols, hmain, hlistening, hrunning⟩
  | disconnect => exact absurd rfl hconnected
  | answer _ => exact ⟨hhost, hcontrols, hmain, hlistening, hrunning⟩
  | stay _ => exact ⟨hhost, hcontrols, hmain, hlistening, hrunning⟩
  | leave hflag => exact absurd hmain hflag
  | hostTest host hstart _ => cases hhost.symm.trans hstart
  | hostReceive m q host hstart _ _ => cases hhost.symm.trans hstart
  | hostAdd stack c onoff q hstart _ => cases hhost.symm.trans hstart
  | controlsReceive m q flag hstart _ _ => cases hcontrols.symm.trans hstart
  | noQueue e hq => cases hcontrols.symm.trans (hlinked.unused hq)

/-- Without a `DISCONNECT` a stranded client answers heartbeats for ever. -/
theorem Stranded.exec {events : List Event} (hp : Stranded p cmd cmd') (hlinked : Linked p)
    (hconnected : .disconnect ∉ events) (hrun : exec (Program.step build) p events = some p') :
    Stranded p' cmd cmd' ∧
      p'.step build .answer = some { p' with answers := p'.answers + 1 } := by
  induction events generalizing p with
  | nil =>
    cases hrun
    refine ⟨hp, ?_⟩
    simp [Program.step, hp.running, hp.listening]
  | cons e events ih =>
    obtain ⟨next, hstep, hrest⟩ := Option.bind_eq_some_iff.mp hrun
    have hmove := Program.step_move hstep
    rw [List.mem_cons, not_or] at hconnected
    exact ih (hp.move hlinked hmove (Ne.symm hconnected.1)) (hlinked.move hmove) hconnected.2 hrest

end Stranded

/-- `SHUTDOWN_IOBOX` with the text `ON`. -/
def shutdownOn : Buffer 300 := .padded 300 [CmdTypes.shutdownIobox.code, 2, 0, 79, 78]

/-- `REBOOT_IOBOX` with the text `ON`. -/
def rebootOn : Buffer 300 := .padded 300 [CmdTypes.rebootIobox.code, 2, 0, 79, 78]

/-- `SHUTDOWN_IOBOX` with an empty text. -/
def shutdownBare : Buffer 300 := .padded 300 [CmdTypes.shutdownIobox.code]

/-- A `SHUTDOWN_IOBOX` with `ON` ends both tasks and `main` never hears of it; nor does it when
the tasks share a `SHUTDOWN_IOBOX` and a `REBOOT_IOBOX`; without a text the command does not even
reach `basic_controls_task`. -/
theorem shutdown_halfway :
    (∃ p ∈ exec (Program.step .cl154) (.start (some [shutdownOn]))
        [.hostTest, .hostReceive, .hostAdd (.zero 300), .controlsReceive, .mainTest, .answer],
      Stranded p CmdTypes.shutdownIobox.code CmdTypes.shutdownIobox.code ∧ ¬ AllOrNothing p) ∧
    (∃ p ∈ exec (Program.step .cl154) (.start (some [shutdownOn, rebootOn]))
        [.hostTest, .hostReceive, .controlsReceive, .hostAdd (.zero 300), .mainTest, .answer],
      Stranded p CmdTypes.shutdownIobox.code CmdTypes.rebootIobox.code ∧ ¬ AllOrNothing p) ∧
    ∃ p ∈ exec (Program.step .cl154) (.start (some [shutdownBare])) [.hostTest, .hostReceive],
      (p.host = .returned CmdTypes.shutdownIobox.code ∧ p.queuedCmds = []) ∧
        ¬ AllOrNothing p := by
  refine ⟨?_, ?_, ?_⟩
  · have hrun : ∃ p ∈ exec (Program.step .cl154) (.start (some [shutdownOn]))
        [.hostTest, .hostReceive, .hostAdd (.zero 300), .controlsReceive, .mainTest, .answer],
        Stranded p CmdTypes.shutdownIobox.code CmdTypes.shutdownIobox.code := by
      decide +kernel
    obtain ⟨p, hp, hgone⟩ := hrun
    exact ⟨p, hp, hgone, hgone.breaks⟩
  · have hrun : ∃ p ∈ exec (Program.step .cl154) (.start (some [shutdownOn, rebootOn]))
        [.hostTest, .hostReceive, .controlsReceive, .hostAdd (.zero 300), .mainTest, .answer],
        Stranded p CmdTypes.shutdownIobox.code CmdTypes.rebootIobox.code := by
      decide +kernel
    obtain ⟨p, hp, hgone⟩ := hrun
    exact ⟨p, hp, hgone, hgone.breaks⟩
  · have hrun : ∃ p ∈ exec (Program.step .cl154) (.start (some [shutdownBare]))
        [.hostTest, .hostReceive],
        p.host = .returned CmdTypes.shutdownIobox.code ∧ p.queuedCmds = [] := by
      decide +kernel
    obtain ⟨p, hp, hstate⟩ := hrun
    refine ⟨p, hp, hstate, fun hlaw => ?_⟩
    have hqueued := hlaw.queued _ hstate.1
    rw [hstate.2] at hqueued
    cases hqueued

end TcpIot.Client
