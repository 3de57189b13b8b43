import Mathlib.Algebra.GroupWithZero.Nat
import TcpIot.Client.AuxClient
import TcpIot.Io.Outputs

/-!
# The relays of a client

`basic_controls_task` switches the outputs of the card as the messages it takes say. Over every
run of the three threads the relays are compared with the frames that the server has sent, the
commands given on the client's own machine and the messages that were in the queue before.
-/

namespace TcpIot.Client

open Framework Io

local instance outputNeZero : NeZero 20 := ⟨Nat.succ_ne_zero 19⟩

/-- The cases of a build, with the position of their output in `enum output_types`. -/
def Build.outputs : Build → List (CmdTypes × Fin 20)
  | .client146 => [(.deskLight, 0), (.eastLight, 1), (.northwestLight, 2), (.southeastLight, 3),
      (.middleLight, 4), (.westLight, 5), (.northeastLight, 6), (.southwestLight, 7),
      (.waterHeater, 11), (.waterPump, 15), (.waterValve1, 12), (.waterValve2, 13),
      (.waterValve3, 14)]
  | .cl151 => [(.coop1Light, 0), (.coop1Heater, 1), (.coop2Light, 2), (.coop2Heater, 3),
      (.outdoorLight1, 4), (.outdoorLight2, 5), (.unused150_1, 6), (.unused150_2, 7),
      (.unused150_3, 8), (.unused150_4, 9), (.unused150_5, 10), (.unused150_6, 11),
      (.unused150_7, 12), (.unused150_8, 13), (.unused150_9, 14), (.unused150_10, 15)]
  | .cl147 => [(.chickLight, 0), (.chickHeater, 1), (.bench12V1, 2), (.bench12V2, 3),
      (.bench5V1, 4), (.bench5V2, 5), (.bench3V3_1, 6), (.bench3V3_2, 7), (.benchLight1, 10),
      (.benchLight2, 11), (.batteryHeater, 12)]
  | .cl154 => [(.cabinSouth, 10), (.cabinFilecb, 11), (.cabin3, 12), (.cabinKitchen, 13),
      (.cabinDoor, 14), (.cabinEast, 15), (.cabin7, 16), (.cabin8, 17)]

/-- The second argument of `change_output`; the relay of the east light is wired normally
closed. -/
def onoffArg (c : CmdTypes) (onoff : UInt8) : Int :=
  match c with
  | .eastLight => if onoff = 0 then 1 else 0
  | _ => onoff.toNat

/-- The case of the `switch` for a command. -/
def Build.case (build : Build) (cmd : UInt8) : Option (CmdTypes × Fin 20) :=
  build.outputs.find? fun o => cmd = o.1.code

section Card

variable {σ : Type*} (nbus : Nbus σ) (build : Build)

/-- What `basic_controls_task` does to the card for the two bytes of a message. -/
def basicControl (s : σ) (e : UInt8 × UInt8) : σ :=
  match build.case e.1 with
  | some (c, k) => changeOutput nbus (entryOf k) (onoffArg c e.2) s
  | none => s

/-- The output that a message switches. -/
def relayWrite (e : UInt8 × UInt8) : Option ((Fin 3 × Fin 8) × Bool) :=
  (build.case e.1).map fun o => (location o.2, decide (onoffArg o.1 e.2 = 1))

end Card

/-- A frame of the server's `send_msg`, whose length fits the header. -/
structure ServerFrame where
  cmd : UInt8
  payload : List UInt8
  fits : payload.length < 256

def ServerFrame.bytes (f : ServerFrame) : List UInt8 := Server.frame (f.cmd, f.payload)

/-- The tasks and the queues, and the frames that are still to come. -/
structure Machine where
  pipe : Pipeline
  stream : List ServerFrame

/-- The client before the first frame, with the queues as the kernel has them. -/
def Machine.start (queues : Nat → Option (List Queued)) (tempx : Buffer 50)
    (stream : List ServerFrame) : Machine :=
  ⟨{ Pipeline.start (fun _ => false) tempx [] with queues }, stream⟩

/-- A turn of `listen_thread`, for a frame with any text. -/
def Machine.hear (clientName : CString 30) (mainQid : Nat) (m : Machine) (stale : Stale 10) :
    Option Machine :=
  match m.stream with
  | f :: stream =>
    if m.pipe.exited then none
    else
      (receive stale m.pipe.tempx f.bytes).bind fun received =>
      (listenTurn clientName received.1 received.2.1).map fun heard =>
      let pipe := { m.pipe with tempx := heard.1 }
      match heard.2 with
      | .queued mtext => ⟨(msgsnd pipe mainQid ⟨mtext, .host⟩).getD pipe, stream⟩
      | .replied _ => ⟨pipe, stream⟩
      | .closed => ⟨pipe, []⟩
  | [] => none

inductive MachineEvent where
  | hear (stale : Stale 10)
  /-- A step of the two tasks, or a run of `aux_client2a`. -/
  | host (e : HostEvent)

def Machine.step (build : Build) (clientName : CString 30) (mainQid : Nat) (m : Machine) :
    MachineEvent → Option Machine
  | .hear stale => m.hear clientName mainQid stale
  | .host e => (hostStep build clientName mainQid m.pipe e).map fun pipe => { m with pipe }

/-- A step of the client and what it does to the card. -/
def drive {σ : Type*} (nbus : Nbus σ) (build : Build) (clientName : CString 30) (mainQid : Nat)
    (h : Machine × σ) (e : MachineEvent) : Option (Machine × σ) :=
  (h.1.step build clientName mainQid e).map fun m =>
    (m, (m.pipe.executed.drop h.1.pipe.executed.length).foldl (basicControl nbus build) h.2)

/-- A run of `aux_client2a` with this command. -/
def HostEvent.Gives (e : HostEvent) (cmd : UInt8) : Prop :=
  ∃ program number text more msg,
    e = .aux (program :: number :: text :: more) msg ∧ cmd = UInt8.ofInt (Scanf.atoi number)

/-- The command of a message that was left in queue 0, of a frame from the server, or of a run of
`aux_client2a`. -/
def Commanded (queues : Nat → Option (List Queued)) (frames : List ServerFrame)
    (events : List MachineEvent) (cmd : UInt8) : Prop :=
  (∃ q ∈ queues staticQid, ∃ m ∈ q, m.mtext.get 0 = cmd) ∨ (∃ f ∈ frames, f.cmd = cmd) ∨
    ∃ e, .host e ∈ events ∧ e.Gives cmd

/-- What can happen to the queues and to what the threads hold, when messages with the commands
`gives` may be put into the main queue. -/
inductive Turn (gives : UInt8 → Prop) (mainQid : Nat) (p : Pipeline) : Pipeline → Prop
  /-- A frame is answered, closes the connection, or is not queued. -/
  | kept (tempx : Buffer 50) : Turn gives mainQid p { p with tempx := tempx }
  | queued (mtext : Buffer 300) (tempx : Buffer 50) (q : List Queued)
      (hmtext : gives (mtext.get 0)) (hq : p.queues mainQid = some q) :
    Turn gives mainQid p { p with
      tempx := tempx
      queues := Function.update p.queues mainQid (some (q ++ [⟨mtext, .host⟩])) }
  | exits : Turn gives mainQid p { p with exited := true }
  | unpacked (m : Queued) (q : List Queued) (held : Option (UInt8 × UInt8)) (hostDone : Bool)
      (taken : List (Task × Task)) (hq : p.queues staticQid = some (m :: q))
      (hheld : ∀ h ∈ held, h.1 = m.mtext.get 0) :
    Turn gives mainQid p { p with
      queues := Function.update p.queues staticQid (some q)
      held := held
      hostDone := hostDone
      taken := taken }
  | forwarded (cmd onoff : UInt8) (stack : Buffer 300) (q : List Queued)
      (hheld : p.held = some (cmd, onoff)) (hq : p.queues staticQid = some q) :
    Turn gives mainQid p { p with
      held := none
      queues := Function.update p.queues staticQid
        (some (q ++ [⟨addMsg cmd onoff stack, .controls⟩])) }
  | executed (m : Queued) (q : List Queued) (controlsDone : Bool) (taken : List (Task × Task))
      (hq : p.queues staticQid = some (m :: q)) :
    Turn gives mainQid p { p with
      queues := Function.update p.queues staticQid (some q)
      executed := p.executed ++ [(m.mtext.get 0, m.mtext.get 1)]
      controlsDone := controlsDone
      taken := taken }

/-- Every command in the client has been given. -/
structure Sound (cmds : UInt8 → Prop) (p : Pipeline) : Prop where
  incoming : p.incoming = []
  queued : ∀ q ∈ p.queues staticQid, ∀ m ∈ q, cmds (m.mtext.get 0)
  held : ∀ h ∈ p.held, cmds h.1
  executed : ∀ e ∈ p.executed, cmds e.1

/-- Nothing has come to the queue of the two tasks. -/
structure Silent (p : Pipeline) : Prop where
  queued : ∀ q ∈ p.queues staticQid, q = []
  held : p.held = none
  executed : p.executed = []

section Steps

variable {build : Build} {clientName : CString 30} {mainQid : Nat} {p p' : Pipeline}
  {gives : UInt8 → Prop}

theorem hostForward_fst {cmd : UInt8} {tempx : Buffer 255} {h : UInt8 × UInt8}
    (hh : h ∈ hostForward build cmd tempx) : h.1 = cmd := by
  unfold hostForward at hh
  split at hh
  · cases hh
    rfl
  · cases hh

theorem hostUnpack_fst {mtext : Buffer 300} {r : UInt8 × Nat × Buffer 255}
    (h : hostUnpack mtext = some r) : r.1 = mtext.get 0 := by
  obtain ⟨tempx, -, hrest⟩ := Option.bind_eq_some_iff.mp h
  obtain ⟨tempx', -, rfl⟩ := Option.map_eq_some_iff.mp hrest
  rfl

theorem receive_text_le {stale : Stale 10} {tempx : Buffer 50} {f : ServerFrame}
    (h : (receive stale tempx f.bytes).isSome) : f.payload.length ≤ 49 := by
  have hheader := @ReadsHeader.serverFrame _ (getMsg_readsHeader stale) (f.cmd, f.payload)
    f.fits []
  rw [List.append_nil] at hheader
  rw [receive, ServerFrame.bytes, hheader, Option.bind_some, Option.isSome_map,
    Buffer.write_isSome, Access.inBounds_mk] at h
  simp only [List.length_take, List.length_append, List.length_cons, List.length_nil] at h
  omega

theorem queued_fst {stale : Stale 10} {tempx tempx' : Buffer 50} {f : ServerFrame}
    {received : Int × Buffer 50 × List UInt8} {mtext : Buffer 300}
    (hreceive : receive stale tempx f.bytes = some received)
    (hturn : listenTurn clientName received.1 received.2.1 = some (tempx', .queued mtext)) :
    mtext.get 0 = f.cmd := by
  have hfit := receive_text_le (Option.isSome_of_eq_some hreceive)
  obtain ⟨received', hreceive', hbytes⟩ := receive_frame stale tempx f.cmd f.payload [] hfit
  rw [List.append_nil] at hreceive'
  cases hreceive.symm.trans hreceive'
  obtain ⟨moved, mtext', hpack, hmtext⟩ := packQueue_eq hbytes
  unfold listenTurn at hturn
  simp only at hturn
  split at hturn
  · cases hturn
  · split at hturn
    · obtain ⟨tempx2, -, hrest⟩ := Option.bind_eq_some_iff.mp hturn
      obtain ⟨text, -, hreply⟩ := Option.map_eq_some_iff.mp hrest
      cases hreply
    · rw [hpack] at hturn
      cases hturn
      rw [Buffer.get_eq_getD, hmtext]
      rfl

theorem act_turn (hincoming : p.incoming = []) {a : Action}
    (h : act build clientName mainQid p a = some p') : Turn gives mainQid p p' := by
  cases a with
  | hear stale =>
    simp only [act, hincoming] at h
    cases h
  | hostTake =>
    simp only [act] at h
    split at h
    · cases h
    · split at h
      · cases h
        exact .exits
      · cases h
      · rename_i m q hq
        obtain ⟨r, hunpack, rfl⟩ := Option.map_eq_some_iff.mp h
        exact .unpacked m q _ _ _ hq fun x hx =>
          (hostForward_fst hx).trans (hostUnpack_fst hunpack)
  | hostAdd stack =>
    simp only [act] at h
    split at h
    · rename_i cmd onoff hheld
      split at h
      · cases h
      · cases hq : p.queues staticQid with
        | none =>
          simp only [msgsnd, hq, Option.map_none] at h
          cases h
          exact .exits
        | some q =>
          simp only [msgsnd, hq, Option.map_some] at h
          cases h
          exact .forwarded cmd onoff stack q hheld hq
    · cases h
  | controlsTake =>
    simp only [act] at h
    split at h
    · cases h
    · split at h
      · cases h
        exact .exits
      · cases h
      · rename_i m q hq
        cases h
        exact .executed m q _ _ hq

theorem msgsnd_turn {mtext : Buffer 300} (hmtext : gives (mtext.get 0)) (tempx : Buffer 50) :
    Turn gives mainQid p
      ((msgsnd { p with tempx } mainQid ⟨mtext, .host⟩).getD { p with tempx }) := by
  cases hq : p.queues mainQid with
  | none =>
    simp only [msgsnd, hq, Option.map_none, Option.getD_none]
    exact .kept tempx
  | some q =>
    simp only [msgsnd, hq, Option.map_some, Option.getD_some]
    exact .queued mtext tempx q hmtext hq

theorem hostStep_turn (hincoming : p.incoming = []) {e : HostEvent}
    (h : hostStep build clientName mainQid p e = some p') : Turn e.Gives mainQid p p' := by
  cases e with
  | act a => exact act_turn hincoming h
  | aux argv msg =>
    obtain ⟨r, hr, rfl⟩ := Option.map_eq_some_iff.mp h
    cases r with
    | usage => exact .kept p.tempx
    | sent printed mtext =>
      obtain ⟨program, number, text, more, rfl, hmtext⟩ := auxMain_sent hr
      exact msgsnd_turn ⟨program, number, text, more, msg, rfl, hmtext msg⟩ p.tempx

theorem hear_turn {m m' : Machine} {stale : Stale 10}
    (h : m.hear clientName mainQid stale = some m') :
    Turn (fun cmd => ∃ f ∈ m.stream, f.cmd = cmd) mainQid m.pipe m'.pipe ∧
      m'.stream ⊆ m.stream := by
  unfold Machine.hear at h
  split at h
  · rename_i f stream hstream
    have hsub : stream ⊆ m.stream := hstream ▸ List.subset_cons_self _ _
    split at h
    · cases h
    · obtain ⟨received, hreceive, hrest⟩ := Option.bind_eq_some_iff.mp h
      obtain ⟨⟨tempx, heard⟩, hturn, rfl⟩ := Option.map_eq_some_iff.mp hrest
      cases heard with
      | closed => exact ⟨.kept tempx, List.nil_subset _⟩
      | replied calls => exact ⟨.kept tempx, hsub⟩
      | queued mtext =>
        refine ⟨msgsnd_turn ⟨f, ?_, ?_⟩ tempx, hsub⟩
        · rw [hstream]
          exact List.mem_cons_self
        · exact (queued_fst hreceive hturn).symm
  · cases h

theorem executed_prefix (h : Turn gives mainQid p p') : p.executed <+: p'.executed := by
  cases h with
  | executed m q controlsDone taken hq => exact List.prefix_append _ _
  | _ => exact List.prefix_rfl

namespace Sound

variable {cmds : UInt8 → Prop}

private theorem queued_static (p : Pipeline) {q : List Queued}
    (hq : ∀ m ∈ q, cmds (m.mtext.get 0)) :
    ∀ r ∈ Function.update p.queues staticQid (some q) staticQid,
      ∀ m ∈ r, cmds (m.mtext.get 0) := by
  rw [Function.update_self]
  intro r hr
  cases hr
  exact hq

private theorem queued_more (h : Sound cmds p) {qid : Nat} {m : Queued} {q : List Queued}
    (hm : cmds (m.mtext.get 0)) (hq : p.queues qid = some q) :
    ∀ r ∈ Function.update p.queues qid (some (q ++ [m])) staticQid,
      ∀ m ∈ r, cmds (m.mtext.get 0) := by
  by_cases hid : qid = staticQid
  · subst hid
    have hall : ∀ x ∈ q ++ [m], cmds (x.mtext.get 0) := by
      intro x hx
      rcases List.mem_append.mp hx with hx | hx
      · exact h.queued q hq x hx
      · rw [List.mem_singleton.mp hx]
        exact hm
    exact queued_static p hall
  · rw [Function.update_of_ne (Ne.symm hid)]
    exact h.queued

theorem turn (h : Sound cmds p) (hgives : ∀ cmd, gives cmd → cmds cmd)
    (hturn : Turn gives mainQid p p') : Sound cmds p' := by
  cases hturn with
  | kept tempx => exact { h with }
  | queued mtext tempx q hmtext hq =>
    exact { h with queued := h.queued_more (hgives _ hmtext) hq }
  | exits => exact { h with }
  | unpacked m q held hostDone taken hq hheld =>
    have hall : ∀ x ∈ m :: q, cmds (x.mtext.get 0) := h.queued (m :: q) hq
    exact { h with
      queued := queued_static p fun x hx => hall x (List.mem_cons_of_mem m hx)
      held := fun x hx => (hheld x hx).symm ▸ hall m List.mem_cons_self }
  | forwarded cmd onoff stack q hheld hq =>
    have hcmd : cmds ((addMsg cmd onoff stack).get 0) := h.held (cmd, onoff) hheld
    exact { h with
      held := fun x hx => by cases hx
      queued := h.queued_more hcmd hq }
  | executed m q controlsDone taken hq =>
    have hall : ∀ x ∈ m :: q, cmds (x.mtext.get 0) := h.queued (m :: q) hq
    have hnew : ∀ e ∈ p.executed ++ [(m.mtext.get 0, m.mtext.get 1)], cmds e.1 := by
      intro e he
      rcases List.mem_append.mp he with he | he
      · exact h.executed e he
      · rw [List.mem_singleton.mp he]
        exact hall m List.mem_cons_self
    exact { h with
      queued := queued_static p fun x hx => hall x (List.mem_cons_of_mem m hx)
      executed := hnew }

end Sound

theorem Silent.turn (h : Silent p) (hmain : mainQid ≠ staticQid)
    (hturn : Turn gives mainQid p p') : Silent p' := by
  cases hturn with
  | kept tempx => exact { h with }
  | queued mtext tempx q hmtext hq =>
    have hkept : Function.update p.queues mainQid (some (q ++ [⟨mtext, .host⟩])) staticQid =
        p.queues staticQid := Function.update_of_ne hmain.symm _ _
    exact { h with queued := fun r hr => h.queued r (hkept ▸ hr) }
  | exits => exact { h with }
  | unpacked m q held hostDone taken hq hheld => cases h.queued _ hq
  | forwarded cmd onoff stack q hheld hq =>
    rw [h.held] at hheld
    cases hheld
  | executed m q controlsDone taken hq => cases h.queued _ hq

end Steps

section Card

variable {σ : Type*} {nbus : Nbus σ} {build : Build}

/-- The host task forwards exactly the commands that have a case. -/
theorem outputs_relays (build : Build) : build.outputs.map Prod.fst = build.relays := by
  cases build with
  | client146 | cl147 | cl151 | cl154 => rfl

theorem outputs_nodup (build : Build) : (build.outputs.map Prod.snd).Nodup := by
  cases build with
  | client146 | cl147 | cl151 | cl154 => decide

theorem case_mem {cmd : UInt8} {o : CmdTypes × Fin 20} (h : build.case cmd = some o) :
    o ∈ build.outputs ∧ cmd = o.1.code := by
  have hcode : decide (cmd = o.1.code) = true :=
    List.find?_some (p := fun o : CmdTypes × Fin 20 => decide (cmd = o.1.code)) h
  exact ⟨List.mem_of_find?_eq_some h, of_decide_eq_true hcode⟩

theorem basicControl_portBit (e : UInt8 × UInt8) (s : σ) :
    portBit nbus (basicControl nbus build s e) = (relayWrite build e).elim (portBit nbus s)
      fun w => Function.update (portBit nbus s) w.1 w.2 := by
  unfold basicControl relayWrite
  cases build.case e.1 with
  | none => rfl
  | some o =>
    obtain ⟨c, k⟩ := o
    exact (congrArg (portBit nbus) (changeOutput_eq k _ s)).trans (outPort_portBit _ _ s)

/-- What is known of the client and the card after any steps. -/
structure Driven (nbus : Nbus σ) (build : Build) (cmds : UInt8 → Prop) (quiet : Prop) (s₀ : σ)
    (h : Machine × σ) : Prop where
  stream : ∀ f ∈ h.1.stream, cmds f.cmd
  sound : Sound cmds h.1.pipe
  silent : quiet → Silent h.1.pipe
  card : h.2 = h.1.pipe.executed.foldl (basicControl nbus build) s₀

namespace Driven

variable {clientName : CString 30} {mainQid : Nat} {cmds : UInt8 → Prop} {quiet : Prop} {s₀ : σ}

theorem step {h h' : Machine × σ} {e : MachineEvent} (hh : Driven nbus build cmds quiet s₀ h)
    (hquiet : quiet → mainQid ≠ staticQid)
    (hgives : ∀ e', e = .host e' → ∀ cmd, e'.Gives cmd → cmds cmd)
    (hstep : drive nbus build clientName mainQid h e = some h') :
    Driven nbus build cmds quiet s₀ h' := by
  obtain ⟨m', hm, rfl⟩ := Option.map_eq_some_iff.mp hstep
  have hturn : ∃ gives, (∀ cmd, gives cmd → cmds cmd) ∧ Turn gives mainQid h.1.pipe m'.pipe ∧
      m'.stream ⊆ h.1.stream := by
    cases e with
    | hear stale =>
      obtain ⟨hturn, hsub⟩ := hear_turn hm
      refine ⟨_, ?_, hturn, hsub⟩
      rintro cmd ⟨f, hf, rfl⟩
      exact hh.stream f hf
    | host e =>
      obtain ⟨p', hhost, rfl⟩ := Option.map_eq_some_iff.mp hm
      exact ⟨_, hgives e rfl, hostStep_turn hh.sound.incoming hhost, List.Subset.refl _⟩
  obtain ⟨gives, hgiven, hturn, hsub⟩ := hturn
  obtain ⟨new, hnew⟩ := executed_prefix hturn
  constructor
  · exact fun f hf => hh.stream f (hsub hf)
  · exact hh.sound.turn hgiven hturn
  · exact fun hq => (hh.silent hq).turn (hquiet hq) hturn
  · simp only
    rw [← hnew, List.drop_left, List.foldl_append, hh.card]

theorem run {queues : Nat → Option (List Queued)} {tempx : Buffer 50}
    {frames : List ServerFrame} {events : List MachineEvent} {h : Machine × σ}
    (hrun : exec (drive nbus build clientName mainQid) (.start queues tempx frames, s₀) events =
      some h) :
    Driven nbus build (Commanded queues frames events)
      (mainQid ≠ staticQid ∧ ∀ q ∈ queues staticQid, q = []) s₀ h := by
  apply (allSteps_of_forall (fun _ he => he) _).exec_inv _ _ hrun
  · intro h e h' hh he hstep
    apply hh.step And.left _ hstep
    rintro e' rfl cmd hcmd
    exact .inr (.inr ⟨e', he, hcmd⟩)
  · constructor
    · exact fun f hf => .inr (.inl ⟨f, hf, rfl⟩)
    · exact ⟨rfl, fun q hq m hm => .inl ⟨q, hq, m, hm, rfl⟩, nofun, nofun⟩
    · exact fun hquiet => ⟨hquiet.2, rfl, rfl⟩
    · rfl

end Driven

theorem relayWrite_mem {es : List (UInt8 × UInt8)} {w : (Fin 3 × Fin 8) × Bool}
    (hw : w ∈ es.filterMap (relayWrite build)) :
    ∃ e ∈ es, ∃ o ∈ build.outputs, e.1 = o.1.code ∧ w.1 = location o.2 := by
  obtain ⟨e, he, hwrite⟩ := List.mem_filterMap.mp hw
  obtain ⟨o, hcase, rfl⟩ := Option.map_eq_some_iff.mp hwrite
  obtain ⟨ho, hcode⟩ := case_mem hcase
  exact ⟨e, he, o, ho, hcode, rfl⟩

end Card

/-- Queue 0 still holds `CABIN3 "ON"` from an earlier run of the client. -/
def leftQueues : Nat → Option (List Queued) := fun qid =>
  if qid = 0 then some [⟨.padded 300 [27, 2, 0, 79, 78], .host⟩] else none

/-- `CABIN_FILECB "ON!"`. -/
def cabinFrame : ServerFrame := ⟨26, [79, 78, 33], by decide⟩

/-- The left message, then `aux_client2a 25 ON`, and then the frame, whose message the controls
take in the place of the host task. -/
def cabinLights : List MachineEvent :=
  [.host (.act .hostTake), .host (.act (.hostAdd (.zero 300))), .host (.act .controlsTake),
    .host (.aux [[97], [50, 53], [79, 78]] (.zero 300)), .host (.act .hostTake),
    .host (.act (.hostAdd (.zero 300))), .host (.act .controlsTake),
    .hear ⟨Buffer.zero 10, 0, 0⟩, .host (.act .controlsTake)]

end TcpIot.Client
