import TcpIot.Client.Listen
import TcpIot.Framework.Run

/-!
# The client's message queues

A relay command passes from `listen_thread` to `get_host_cmd_task` and on to
`basic_controls_task` through System V queues. The header declares `main_qid` and
`basic_controls_qid` as `static`, so every file has its own: only those of `thread_client.c` are
assigned, those of `cmd_tasks.c` and `tasks.c` stay 0.
-/

namespace TcpIot.Client

open Framework

/-- The macro that selects a client's hardware. -/
inductive Build where
  | client146 | cl147 | cl151 | cl154
deriving DecidableEq

/-- The relay commands `get_host_cmd_task` handles in a build. -/
def Build.relays : Build → List CmdTypes
  | .client146 => [.deskLight, .eastLight, .northwestLight, .southeastLight, .middleLight,
      .westLight, .northeastLight, .southwestLight, .waterHeater, .waterPump, .waterValve1,
      .waterValve2, .waterValve3]
  | .cl151 => [.coop1Light, .coop1Heater, .coop2Light, .coop2Heater, .outdoorLight1,
      .outdoorLight2, .unused150_1, .unused150_2, .unused150_3, .unused150_4, .unused150_5,
      .unused150_6, .unused150_7, .unused150_8, .unused150_9, .unused150_10]
  | .cl147 => [.chickLight, .chickHeater, .bench12V1, .bench12V2, .bench5V1, .bench5V2,
      .bench3V3_1, .bench3V3_2, .benchLight1, .benchLight2, .batteryHeater]
  | .cl154 => [.cabinSouth, .cabinFilecb, .cabin3, .cabinKitchen, .cabinDoor, .cabinEast,
      .cabin7, .cabin8]

/-- The commands after which both tasks return. -/
def shutdownCmds : List CmdTypes := [.shutdownIobox, .rebootIobox, .shellAndRename, .exitToShell]

def IsOneOf (cmd : UInt8) (cmds : List CmdTypes) : Prop := ∃ c ∈ cmds, cmd = c.code

instance (cmd : UInt8) (cmds : List CmdTypes) : Decidable (IsOneOf cmd cmds) :=
  inferInstanceAs (Decidable (∃ c ∈ cmds, _))

/-- The `strncmp` chain: 1 for a text that starts with `ON`, 0 for `OFF`, else 255. -/
def onOff (tempx : Buffer 255) : UInt8 :=
  if [79, 78] <+: tempx.bytes then 1 else if [79, 70, 70] <+: tempx.bytes then 0 else 255

/-- What `get_host_cmd_task` hands to `add_msg_queue` for a command and its text. -/
def hostForward (build : Build) (cmd : UInt8) (tempx : Buffer 255) : Option (UInt8 × UInt8) :=
  if IsOneOf cmd (build.relays ++ shutdownCmds) ∧ (onOff tempx = 1 ∨ onOff tempx = 0) then
    some (cmd, onOff tempx)
  else none

/-- `add_msg_queue` sets two bytes of a `mtext` that is otherwise uninitialised. -/
def addMsg (cmd onoff : UInt8) (stack : Buffer 300) : Buffer 300 :=
  ⟨cmd :: onoff :: stack.bytes.drop 2, by simp⟩

def onOffText (on : Bool) : List UInt8 := if on then [79, 78] else [79, 70, 70]

/-- `main_qid` and `basic_controls_qid` of `cmd_tasks.c`, and `basic_controls_qid` of `tasks.c`:
never assigned. -/
def staticQid : Nat := 0

inductive Task where
  | host | controls
deriving DecidableEq

/-- A queued message. The task it is meant for is a ghost. -/
structure Queued where
  mtext : Buffer 300
  addressee : Task
deriving DecidableEq

structure Pipeline where
  /-- Contents of the queues by id; `none` when there is no such queue. -/
  queues : Nat → Option (List Queued)
  incoming : List (UInt8 × Bool)
  tempx : Buffer 50
  /-- What `get_host_cmd_task` is about to pass to `add_msg_queue`. -/
  held : Option (UInt8 × UInt8)
  hostDone : Bool
  controlsDone : Bool
  exited : Bool
  executed : List (UInt8 × UInt8)
  /-- Ghost: which task took a message, and which task it was meant for. -/
  taken : List (Task × Task)

/-- The client before the first frame; `present` lists the queues that exist. -/
def Pipeline.start (present : Nat → Bool) (tempx : Buffer 50) (frames : List (UInt8 × Bool)) :
    Pipeline where
  queues := fun q => if present q then some [] else none
  incoming := frames
  tempx := tempx
  held := none
  hostDone := false
  controlsDone := false
  exited := false
  executed := []
  taken := []

def msgsnd (p : Pipeline) (qid : Nat) (m : Queued) : Option Pipeline :=
  (p.queues qid).map fun q => { p with queues := Function.update p.queues qid (some (q ++ [m])) }

inductive Action where
  /-- `listen_thread` receives a frame and queues it. -/
  | hear (stale : Stale 10)
  /-- `get_host_cmd_task` returns from `msgrcv` and unpacks. -/
  | hostTake
  | hostAdd (stack : Buffer 300)
  /-- `basic_controls_task` returns from `msgrcv` and executes. -/
  | controlsTake

/-- One step of one of the three threads; `none` when it is blocked or undefined. `mainQid` is
the `main_qid` of `thread_client.c`. -/
def act (build : Build) (clientName : CString 30) (mainQid : Nat) (p : Pipeline) :
    Action → Option Pipeline
  | .hear stale =>
    match p.incoming with
    | (cmd, on) :: frames =>
      if p.exited then none
      else
        (receive stale p.tempx (Server.frame (cmd, onOffText on))).bind fun received =>
        (listenTurn clientName received.1 received.2.1).bind fun heard =>
        let next := { p with incoming := frames, tempx := heard.1 }
        match heard.2 with
        | .queued mtext => some ((msgsnd next mainQid ⟨mtext, .host⟩).getD next)
        | .replied _ => some next
        | .closed => some { next with incoming := [] }
    | [] => none
  | .hostTake =>
    if p.exited ∨ p.hostDone ∨ p.held.isSome then none
    else
      match p.queues staticQid with
      | none => some { p with exited := true }
      | some [] => none
      | some (m :: q) =>
        (hostUnpack m.mtext).map fun (cmd, _, text) =>
          { p with
            queues := Function.update p.queues staticQid (some q)
            held := hostForward build cmd text
            hostDone := IsOneOf cmd shutdownCmds
            taken := p.taken ++ [(.host, m.addressee)] }
  | .hostAdd stack =>
    match p.held with
    | some (cmd, onoff) =>
      if p.exited then none
      else
        match msgsnd { p with held := none } staticQid ⟨addMsg cmd onoff stack, .controls⟩ with
        | some next => some next
        | none => some { p with exited := true }
    | none => none
  | .controlsTake =>
    if p.exited ∨ p.controlsDone then none
    else
      match p.queues staticQid with
      | none => some { p with exited := true }
      | some [] => none
      | some (m :: q) =>
        some { p with
          queues := Function.update p.queues staticQid (some q)
          executed := p.executed ++ [(m.mtext.get 0, m.mtext.get 1)]
          controlsDone := IsOneOf (m.mtext.get 0) shutdownCmds
          taken := p.taken ++ [(.controls, m.addressee)] }

def expected (frames : List (UInt8 × Bool)) : List (UInt8 × UInt8) :=
  frames.map fun f => (f.1, if f.2 then 1 else 0)

/-- In every run the executed commands are a prefix of the expected ones, all of them once no
thread can move, and every message is taken by the task it is meant for. -/
def InOrder (build : Build) (clientName : CString 30) (mainQid : Nat) (p : Pipeline)
    (frames : List (UInt8 × Bool)) : Prop :=
  ∀ as p', exec (act build clientName mainQid) p as = some p' →
    p'.executed <+: expected frames ∧
    ((∀ a, act build clientName mainQid p' a = none) → p'.executed = expected frames) ∧
    ∀ t ∈ p'.taken, t.1 = t.2

section Runs

variable {build : Build} {clientName : CString 30} {mainQid : Nat}

private theorem relay_code {cmd : UInt8} (h : IsOneOf cmd build.relays) :
    cmd ≠ CmdTypes.disconnect.code ∧ cmd ≠ CmdTypes.sendStatus.code := by
  obtain ⟨c, hc, rfl⟩ := h
  have hall : ∀ c ∈ build.relays,
      c.code ≠ CmdTypes.disconnect.code ∧ c.code ≠ CmdTypes.sendStatus.code := by
    cases build <;> decide
  exact hall c hc

private theorem hear_eq {p : Pipeline} {cmd : UInt8} {on : Bool} {frames : List (UInt8 × Bool)}
    (hincoming : p.incoming = (cmd, on) :: frames) (hrelay : IsOneOf cmd build.relays)
    (hexited : p.exited = false) {q : List Queued} (hq : p.queues mainQid = some q)
    (stale : Stale 10) :
    ∃ tempx mtext, act build clientName mainQid p (.hear stale) =
      some { p with
        incoming := frames
        tempx := tempx
        queues := Function.update p.queues mainQid (some (q ++ [⟨mtext, .host⟩])) } := by
  have hfit : (onOffText on).length ≤ 49 := by
    cases on <;> decide
  obtain ⟨received, hreceived, hbytes⟩ :=
    receive_frame stale p.tempx cmd (onOffText on) [] hfit
  rw [List.append_nil] at hreceived
  obtain ⟨moved, mtext, hpack, -⟩ := packQueue_eq hbytes
  have hcmd : received.get 0 = cmd := by rw [Buffer.get_eq_getD, hbytes]; rfl
  obtain ⟨hdisconnect, hstatus⟩ := relay_code hrelay
  have hlisten : listenTurn clientName (onOffText on).length received =
      some (moved, .queued mtext) := by
    simp only [listenTurn, hcmd, if_neg hdisconnect, if_neg hstatus, hpack, Option.map_some]
  refine ⟨moved, mtext, ?_⟩
  simp [act, hincoming, hexited, hreceived, hlisten, msgsnd, hq]

private theorem hear_all {p : Pipeline} {frames : List (UInt8 × Bool)}
    (hincoming : p.incoming = frames) (hrelays : ∀ f ∈ frames, IsOneOf f.1 build.relays)
    (hexited : p.exited = false) (hmain : mainQid ≠ staticQid)
    (hq : (p.queues mainQid).isSome) (stale : Stale 10) :
    ∃ p', exec (act build clientName mainQid) p (List.replicate frames.length (.hear stale)) =
        some p' ∧ p'.incoming = [] ∧ p'.queues staticQid = p.queues staticQid ∧
      p'.held = p.held ∧ p'.executed = p.executed := by
  induction frames generalizing p with
  | nil => exact ⟨p, rfl, hincoming, rfl, rfl, rfl⟩
  | cons f frames ih =>
    obtain ⟨q, hq⟩ := Option.isSome_iff_exists.mp hq
    obtain ⟨tempx, mtext, hact⟩ := @hear_eq build clientName mainQid p f.1 f.2 frames hincoming
      (hrelays f List.mem_cons_self) hexited q hq stale
    obtain ⟨p', hrun, hempty, hstatic, hheld, hexecuted⟩ := @ih
      { p with
        incoming := frames
        tempx := tempx
        queues := Function.update p.queues mainQid (some (q ++ [⟨mtext, .host⟩])) }
      rfl (fun g hg => hrelays g (List.mem_cons_of_mem f hg)) hexited (by simp)
    refine ⟨p', ?_, hempty, ?_, hheld, hexecuted⟩
    · rw [List.length_cons, List.replicate_succ, exec_cons, hact]
      exact hrun
    · rw [hstatic]
      exact Function.update_of_ne hmain.symm _ _

private theorem silent_inv {p : Pipeline} {as : List Action} {p' : Pipeline}
    (hp : p.incoming = [] ∧ p.held = none ∧ p.executed = [] ∧ p.taken = [] ∧
      ∀ q ∈ p.queues staticQid, q = [])
    (hrun : exec (act build clientName mainQid) p as = some p') :
    p'.executed = [] ∧ p'.taken = [] := by
  induction as generalizing p with
  | nil =>
    cases hrun
    exact ⟨hp.2.2.1, hp.2.2.2.1⟩
  | cons a as ih =>
    obtain ⟨next, hact, hrest⟩ := Option.bind_eq_some_iff.mp hrun
    obtain ⟨hincoming, hheld, hexecuted, htaken, hempty⟩ := hp
    have hexit : next = { p with exited := true } → p'.executed = [] ∧ p'.taken = [] := by
      rintro rfl
      exact @ih { p with exited := true } ⟨hincoming, hheld, hexecuted, htaken, hempty⟩ hrest
    cases a with
    | hear stale =>
      simp only [act, hincoming] at hact
      cases hact
    | hostTake =>
      simp only [act] at hact
      split at hact
      · cases hact
      · split at hact
        · exact hexit (Option.some.inj hact).symm
        · cases hact
        · rename_i hq
          exact absurd (hempty _ hq) (by simp)
    | hostAdd stack =>
      simp only [act, hheld] at hact
      cases hact
    | controlsTake =>
      simp only [act] at hact
      split at hact
      · cases hact
      · split at hact
        · exact hexit (Option.some.inj hact).symm
        · cases hact
        · rename_i hq
          exact absurd (hempty _ hq) (by simp)

private theorem start_queue {present : Nat → Bool} {tempx : Buffer 50}
    {frames : List (UInt8 × Bool)} {qid : Nat} (h : present qid = true) :
    (Pipeline.start present tempx frames).queues qid = some [] := if_pos h

private theorem expected_ne_nil {frames : List (UInt8 × Bool)} (hne : frames ≠ []) :
    ([] : List (UInt8 × UInt8)) ≠ expected frames :=
  fun heq => hne (List.map_eq_nil_iff.mp heq.symm)

section Start

variable {present : Nat → Bool} {tempx : Buffer 50} {frames : List (UInt8 × Bool)}

/-- All three threads use queue 0: `basic_controls_task` takes an unprocessed message. -/
private theorem shared_misroutes (hmain : present mainQid = true)
    (hrelays : ∀ f ∈ frames, IsOneOf f.1 build.relays) (hne : frames ≠ [])
    (hstatic : mainQid = staticQid) :
    ¬ InOrder build clientName mainQid (.start present tempx frames) frames := by
  intro h
  obtain ⟨⟨cmd, on⟩, rest, hframes⟩ := List.exists_cons_of_ne_nil hne
  obtain ⟨moved, mtext, hhear⟩ := @hear_eq build clientName mainQid
    (.start present tempx frames) cmd on rest hframes
    (hrelays (cmd, on) (hframes ▸ List.mem_cons_self)) rfl [] (start_queue hmain)
    ⟨Buffer.zero 10, 0, 0⟩
  have hwrong := (h [.hear ⟨Buffer.zero 10, 0, 0⟩, .controlsTake] _ (by
    rw [exec_cons, hhear, Option.bind_some, exec_cons]
    simp only [act, hstatic, Function.update_self, List.nil_append]
    rfl)).2.2 (.controls, .host) (by simp)
  cases hwrong

/-- The messages stay in the main queue, and nobody can move. -/
private theorem separate_stuck (hmain : present mainQid = true)
    (hrelays : ∀ f ∈ frames, IsOneOf f.1 build.relays) (hne : frames ≠ [])
    (hstatic : mainQid ≠ staticQid) (hpresent : present staticQid = true) :
    ¬ InOrder build clientName mainQid (.start present tempx frames) frames := by
  intro h
  obtain ⟨p, hrun, hincoming, hqueues, hheld, hexecuted⟩ := @hear_all build clientName
    mainQid (.start present tempx frames) frames rfl hrelays rfl hstatic
    (by rw [start_queue hmain]; rfl) ⟨Buffer.zero 10, 0, 0⟩
  have hq : p.queues staticQid = some [] := hqueues.trans (start_queue hpresent)
  have hstuck (a : Action) : act build clientName mainQid p a = none := by
    cases a with
    | hear stale => simp only [act, hincoming]
    | hostTake => simp only [act, hq, ite_self]
    | hostAdd stack => simp only [act, hheld, Pipeline.start]
    | controlsTake => simp only [act, hq, ite_self]
  exact expected_ne_nil hne (hexecuted.symm.trans ((h _ p hrun).2.1 hstuck))

/-- `msgrcv` on queue 0 fails, and the task exits the program. -/
private theorem missing_exits (hne : frames ≠ []) (hpresent : ¬ present staticQid = true) :
    ¬ InOrder build clientName mainQid (.start present tempx frames) frames := by
  intro h
  have hq : (Pipeline.start present tempx frames).queues staticQid = none := if_neg hpresent
  have hrun : exec (act build clientName mainQid) (.start present tempx frames)
      [.controlsTake] = some { Pipeline.start present tempx frames with exited := true } := by
    rw [exec_cons]
    simp only [act, hq]
    rfl
  refine expected_ne_nil hne ((h _ _ hrun).2.1 fun a => ?_)
  cases a with
  | hear stale =>
    simp only [act]
    split
    · rfl
    · rfl
  | hostTake => rfl
  | hostAdd stack => rfl
  | controlsTake => rfl

private theorem start_silent :
    (Pipeline.start present tempx []).incoming = [] ∧
    (Pipeline.start present tempx []).held = none ∧
    (Pipeline.start present tempx []).executed = [] ∧
    (Pipeline.start present tempx []).taken = [] ∧
    ∀ q ∈ (Pipeline.start present tempx []).queues staticQid, q = [] := by
  refine ⟨rfl, rfl, rfl, rfl, fun q hq => ?_⟩
  simp only [Pipeline.start] at hq
  split at hq
  · exact (Option.some.inj hq).symm
  · cases hq

end Start

end Runs

/-- For every client, every id the kernel gives to the main queue, every set of existing queues
and every sequence of relay-control frames: the commands come through in order, completely and
to the right task exactly when there are none. -/
theorem pipeline_inOrder_iff (build : Build) (clientName : CString 30) (mainQid : Nat)
    (present : Nat → Bool) (tempx : Buffer 50) (frames : List (UInt8 × Bool))
    (hmain : present mainQid = true) (hrelays : ∀ f ∈ frames, IsOneOf f.1 build.relays) :
    InOrder build clientName mainQid (.start present tempx frames) frames ↔ frames = [] := by
  constructor
  · intro h
    by_contra hne
    by_cases hstatic : mainQid = staticQid
    · exact shared_misroutes hmain hrelays hne hstatic h
    · by_cases hpresent : present staticQid = true
      · exact separate_stuck hmain hrelays hne hstatic hpresent h
      · exact missing_exits hne hpresent h
  · rintro rfl as p hrun
    obtain ⟨hexecuted, htaken⟩ := silent_inv start_silent hrun
    rw [hexecuted, htaken]
    exact ⟨List.nil_prefix, fun _ => rfl, by simp⟩

theorem pipeline_inOrder_iff_on :
    InOrder .cl154 (CString.empty 29) 5
      (.start (fun q => q = 5 ∨ q = 6) (Buffer.zero 50) [(25, true)]) [(25, true)] ↔
    [((25 : UInt8), true)] = [] :=
  pipeline_inOrder_iff _ _ _ _ _ _ (by decide)
    (List.forall_mem_singleton.mpr ⟨.cabinSouth, List.mem_cons_self, rfl⟩)

/-- The kernel gives id 0 to the main queue, and `CABIN_SOUTH "ON"` is executed with the value
2, the length byte of the message to the host task. -/
theorem raw_message_executed :
    (∃ p ∈ exec (act .cl154 (CString.empty 29) 0)
        (.start (fun _ => true) (Buffer.zero 50) [(25, true)])
        [.hear ⟨Buffer.zero 10, 0, 0⟩, .controlsTake],
      p.executed = [(25, 2)] ∧ p.taken = [(.controls, .host)]) ∧
    ¬ InOrder .cl154 (CString.empty 29) 0
      (.start (fun _ => true) (Buffer.zero 50) [(25, true)]) [(25, true)] := by
  have hrun : ∃ p ∈ exec (act .cl154 (CString.empty 29) 0)
      (.start (fun _ => true) (Buffer.zero 50) [(25, true)])
      [.hear ⟨Buffer.zero 10, 0, 0⟩, .controlsTake],
      p.executed = [(25, 2)] ∧ p.taken = [(.controls, .host)] := by
    decide
  refine ⟨hrun, fun h => ?_⟩
  obtain ⟨p, hp, hexecuted, -⟩ := hrun
  have hprefix := (h _ p hp).1
  rw [hexecuted] at hprefix
  exact absurd hprefix (by decide)

end TcpIot.Client
