import TcpIot.Server.System

/-!
# Streams that end early

A peer may close its connection in the middle of a frame. Here a turn of `listen_thread` takes
its message off the bytes that a descriptor still delivers, and the results of its three kinds
of reads are used as the source uses them: the first one checked, the others not.
-/

namespace TcpIot.Server

open Framework

/-- The server, and the bytes each descriptor delivers until its peer has closed. -/
structure Wired where
  table : State
  streams : Int → List UInt8

/-- What a turn of the `listen_thread` that was started with `sock` meets: the old content of the
header locals, the name that lies behind the table, and the time. -/
structure Reading where
  sock : Int
  stale : Stale 10
  staleWide : Stale 20
  strayName : List UInt8
  now : Int
  stray : Int

def Wired.index (w : Wired) (t : Reading) : Fin maxThreads := lookupIndex w.table t.sock

/-- The descriptor the turn reads the message from. -/
def Wired.fd (w : Wired) (t : Reading) : Int := (w.table.pthreadsList (w.index t)).sock

def Wired.stream (w : Wired) (t : Reading) : List UInt8 := w.streams (w.fd t)

section Turn

variable (fixed2 : Int → Nat → List UInt8)

/-- The ordinary branch. After a bad header `logoff_client` is called with
`pthreads_list[i].client_name`, where the slot lookup has left `i` behind the table. -/
def turnNarrow (w : Wired) (t : Reading) : Option (Wired × List Effect) :=
  (receiveNarrow (w.fd t) t.stale (w.stream t)).bind fun r =>
    let loggedOff := if r.msgLen ≥ 0 then (w.table, []) else logoffClient w.table t.strayName
    (serve fixed2 loggedOff.1 (w.index t) r.msgLen r.tempx t.now t.stray).map fun (table, sent) =>
      (⟨table, Function.update w.streams (w.fd t) r.rest⟩, loggedOff.2 ++ sent)

/-- The Windows branch. -/
def turnWide (w : Wired) (t : Reading) : Option (Wired × List Effect) :=
  (receiveWide t.sock (w.fd t) t.staleWide w.streams).bind fun (r, streams) =>
    (serve fixed2 (noteWinClient w.table (w.index t)) (w.index t) r.msgLen r.tempx t.now
      t.stray).map fun (table, sent) => (⟨table, streams⟩, sent)

def Ordinary (w : Wired) (t : Reading) : Prop := (w.table.pthreadsList (w.index t)).winCl ≠ 1

instance (w : Wired) (t : Reading) : Decidable (Ordinary w t) := inferInstanceAs (Decidable (_ ≠ _))

def turn (w : Wired) (t : Reading) : Option (Wired × List Effect) :=
  if Ordinary w t then turnNarrow fixed2 w t else turnWide fixed2 w t

inductive WireEvent where
  /-- A connection with all that its peer is ever going to send. -/
  | accept (newSocket : Int) (address stream : List UInt8)
  | listenStart (sock now : Int)
  | turn (t : Reading)
  | logoffClient (name : List UInt8)
  | timerVisit (i : Fin maxThreads)

def wireStep (w : Wired) : WireEvent → Option Wired
  | .accept newSocket address stream =>
    (step fixed2 w.table (.accept newSocket address)).map fun table =>
      ⟨table, Function.update w.streams newSocket stream⟩
  | .listenStart sock now =>
    (step fixed2 w.table (.listenStart sock now)).map fun table => { w with table := table }
  | .turn t => (turn fixed2 w t).map Prod.fst
  | .logoffClient name =>
    (step fixed2 w.table (.logoffClient name)).map fun table => { w with table := table }
  | .timerVisit i =>
    (step fixed2 w.table (.timerVisit i)).map fun table => { w with table := table }

end Turn

/-- The first frame of the stream is there to its last byte. -/
def FrameComplete (stale : Stale 10) (stream : List UInt8) : Prop :=
  12 + announcedLen stale stream ≤ stream.length

instance (stale : Stale 10) (stream : List UInt8) : Decidable (FrameComplete stale stream) :=
  inferInstanceAs (Decidable (_ ≤ _))

/-- The stream ends inside the header, or inside the body behind an accepted header. -/
def Truncated (fd : Int) (stale : Stale 10) (stream : List UInt8) : Prop :=
  (0 ≤ fd ∧ stream.length < 10) ∨
    (HeaderAccepted fd stale stream ∧ ¬ FrameComplete stale stream)

def Effect.sock : Effect → Int
  | .sendMsg sock _ _ _ | .sendMsgb sock _ _ _ | .close sock => sock

/-- Nothing happens to any slot, stream or descriptor but the turn's own. -/
structure OnlyOwn (w : Wired) (t : Reading) (r : Wired × List Effect) : Prop where
  slots : ∀ j ≠ w.index t, r.1.table.pthreadsList j = w.table.pthreadsList j
  streams : ∀ d ≠ w.fd t, r.1.streams d = w.streams d
  sent : ∀ a ∈ r.2, a.sock = w.fd t

/-- Lengths are returned for complete headers only, commands are executed for complete frames
only, and a truncated frame has no effect on any other client. -/
structure CompleteOnly (fixed2 : Int → Nat → List UInt8) (w : Wired) (t : Reading) : Prop where
  header : 0 ≤ (getMsg (w.fd t) t.stale (w.stream t)).1 → 10 ≤ (w.stream t).length
  body : ∀ r, receiveNarrow (w.fd t) t.stale (w.stream t) = some r →
    CmdInRange (r.tempx.get 0) → FrameComplete t.stale (w.stream t)
  truncated : Truncated (w.fd t) t.stale (w.stream t) →
    ∃ r, turn fixed2 w t = some r ∧ OnlyOwn w t r

/-- A stream that ends inside the header is not completed to a preamble by what the array held
before, and no other live slot has the name behind the table. A body that is cut off has at most
50 bytes there, the first of them no command. -/
def CutClean (w : Wired) (t : Reading) : Prop :=
  if (w.stream t).length < 10 then
    0 ≤ w.fd t → ¬ HeaderAccepted (w.fd t) t.stale (w.stream t) ∧
      ∀ j ≠ w.index t, ¬ w.table.Named t.strayName j
  else
    HeaderAccepted (w.fd t) t.stale (w.stream t) → ¬ FrameComplete t.stale (w.stream t) →
      ((w.stream t).drop 10).length ≤ 50 ∧ ¬ CmdInRange (((w.stream t).drop 10).headD 0)

instance (w : Wired) (t : Reading) : Decidable (CutClean w t) :=
  inferInstanceAs (Decidable (if (w.stream t).length < 10 then _ → _ ∧ (∀ _ ≠ _, _)
    else _ → _ → _ ∧ _))

section Turns

variable {fixed2 : Int → Nat → List UInt8} {w : Wired} {t : Reading}

private theorem serve_bad_cmd {s : State} {index : Fin maxThreads} {msgLen now stray : Int}
    {tempx : Buffer 50} (h : ¬ CmdInRange (tempx.get 0)) :
    serve fixed2 s index msgLen tempx now stray = some (s, []) := if_neg h

theorem turnNarrow_of_rejected (h : ¬ HeaderAccepted (w.fd t) t.stale (w.stream t)) :
    turnNarrow fixed2 w t =
      some (⟨(logoffClient w.table t.strayName).1, Function.update w.streams (w.fd t)
        (getMsg (w.fd t) t.stale (w.stream t)).2⟩, (logoffClient w.table t.strayName).2) := by
  have hneg : ¬ (getMsg (w.fd t) t.stale (w.stream t)).1 ≥ 0 :=
    not_le.mpr (checkedGetMsg_of_rejected h (by decide))
  have hcmd : ¬ CmdInRange ((Buffer.zero 50).get 0) := by decide
  simp only [turnNarrow, receiveNarrow_of_rejected h, Option.bind_some, if_neg hneg,
    serve_bad_cmd hcmd, Option.map_some, List.append_nil]

theorem turnNarrow_of_accepted (h : HeaderAccepted (w.fd t) t.stale (w.stream t)) :
    turnNarrow fixed2 w t =
      (recvBody (announcedLen t.stale (w.stream t)) (announcedLen t.stale (w.stream t) + 2)
        ((w.stream t).drop 10)).bind fun r =>
          (serve fixed2 w.table (w.index t) r.msgLen r.tempx t.now t.stray).map fun q =>
            (⟨q.1, Function.update w.streams (w.fd t) r.rest⟩, q.2) := by
  rw [turnNarrow, receiveNarrow_of_accepted h]
  cases hr : recvBody (announcedLen t.stale (w.stream t)) (announcedLen t.stale (w.stream t) + 2)
      ((w.stream t).drop 10) with
  | none => rfl
  | some r =>
    have hlen : r.msgLen ≥ 0 := by
      have heq := ((recvBody_eq_some (by omega)).mp hr).2.1
      omega
    simp only [Option.bind_some, if_pos hlen, List.nil_append]

theorem logoffClient_onlyOwn_iff (rest : List UInt8) :
    OnlyOwn w t (⟨(logoffClient w.table t.strayName).1,
        Function.update w.streams (w.fd t) rest⟩, (logoffClient w.table t.strayName).2) ↔
      ∀ j ≠ w.index t, ¬ w.table.Named t.strayName j := by
  constructor
  · intro h j hj hnamed
    have hslot := h.slots j hj
    simp only [logoffClient_slot, if_pos hnamed] at hslot
    have hsock := congrArg Threads.sock hslot
    have hlive : 0 < (w.table.pthreadsList j).sock := hnamed.2
    simp only [Threads.closed] at hsock
    omega
  · intro h
    refine ⟨?_, ?_, ?_⟩
    · intro j hj
      simp only [logoffClient_slot, if_neg (h j hj)]
    · intro d hd
      simp only [Function.update_of_ne hd]
    · intro a ha
      obtain ⟨i, hi, rfl⟩ := List.mem_map.mp ha
      rw [sweep_snd _ _ _ _ (List.nodup_finRange maxThreads)] at hi
      have hnamed : NamedLive t.strayName i (w.table.pthreadsList i) := by
        simpa using (List.mem_filter.mp hi).2
      have hown : i = w.index t := by
        by_contra hne
        exact h i hne hnamed
      rw [hown]
      rfl

private theorem completeOnly_of_rejected_iff (hturn : Ordinary w t)
    (h : ¬ HeaderAccepted (w.fd t) t.stale (w.stream t)) :
    CompleteOnly fixed2 w t ↔ CutClean w t := by
  have hneg : (getMsg (w.fd t) t.stale (w.stream t)).1 < 0 :=
    checkedGetMsg_of_rejected h (by decide)
  have hcut : Truncated (w.fd t) t.stale (w.stream t) ↔ 0 ≤ w.fd t ∧ (w.stream t).length < 10 := by
    rw [Truncated]
    simp only [h, false_and, or_false]
  have hclean : CutClean w t ↔
      (0 ≤ w.fd t ∧ (w.stream t).length < 10 → ∀ j ≠ w.index t, ¬ w.table.Named t.strayName j) := by
    unfold CutClean
    split
    · rename_i hshort
      simp only [h, hshort, not_false_iff, true_and, and_true]
    · rename_i hlong
      simp only [h, hlong, false_implies, and_false]
  have hdone : turn fixed2 w t = _ := (if_pos hturn).trans (turnNarrow_of_rejected h)
  rw [hclean, ← logoffClient_onlyOwn_iff (getMsg (w.fd t) t.stale (w.stream t)).2]
  constructor
  · intro hc hshort
    obtain ⟨r, hr, hown⟩ := hc.truncated (hcut.mpr hshort)
    rw [hdone] at hr
    cases hr
    exact hown
  · intro hown
    refine ⟨fun hlen => absurd hlen (not_le.mpr hneg), ?_, ?_⟩
    · intro r hr hcmd
      rw [receiveNarrow_of_rejected h] at hr
      cases hr
      change CmdInRange ((Buffer.zero 50).get 0) at hcmd
      exact absurd hcmd (by decide)
    · intro htrunc
      exact ⟨_, hdone, hown (hcut.mp htrunc)⟩

private theorem completeOnly_of_cut_iff (hturn : Ordinary w t)
    (h : HeaderAccepted (w.fd t) t.stale (w.stream t)) (hlong : 10 ≤ (w.stream t).length)
    (hcut : ¬ FrameComplete t.stale (w.stream t)) :
    CompleteOnly fixed2 w t ↔
      ((w.stream t).drop 10).length ≤ 50 ∧ ¬ CmdInRange (((w.stream t).drop 10).headD 0) := by
  have hrecv := receiveNarrow_of_accepted h
  have hdone : turn fixed2 w t = _ := (if_pos hturn).trans (turnNarrow_of_accepted h)
  have hcount : ((announcedLen t.stale (w.stream t) : Int) + 2).toNat =
      announcedLen t.stale (w.stream t) + 2 := by omega
  -- the peer closes before `recv` has all it asked for
  have hall : ((w.stream t).drop 10).take (announcedLen t.stale (w.stream t) + 2) =
      (w.stream t).drop 10 := by
    apply List.take_of_length_le
    rw [FrameComplete] at hcut
    rw [List.length_drop]
    omega
  by_cases hfit : ((w.stream t).drop 10).length ≤ 50
  · obtain ⟨r, hr, -, -, -, hcmd⟩ := @recvBody_arrived
      (announcedLen t.stale (w.stream t)) (announcedLen t.stale (w.stream t) + 2)
      ((w.stream t).drop 10) (by omega) (by rw [hcount, hall]; exact hfit)
    rw [hcount, hall] at hcmd
    rw [and_iff_right hfit, ← hcmd]
    constructor
    · intro hc hrange
      exact hcut (hc.body r (hrecv.trans hr) hrange)
    · intro hbad
      refine ⟨fun _ => hlong, ?_, ?_⟩
      · intro r' hr' hrange
        rw [hrecv, hr] at hr'
        cases hr'
        exact absurd hrange hbad
      · intro _
        rw [hr, Option.bind_some, serve_bad_cmd hbad, Option.map_some] at hdone
        refine ⟨_, hdone, fun _ _ => rfl, ?_, ?_⟩
        · intro d hd
          simp only [Function.update_of_ne hd]
        · intro a ha
          exact absurd ha List.not_mem_nil
  · have hover : recvBody (announcedLen t.stale (w.stream t))
        (announcedLen t.stale (w.stream t) + 2) ((w.stream t).drop 10) = none :=
      recvBody_overruns _ (by omega) (by rw [hcount, hall]; omega)
    rw [hover, Option.bind_none] at hdone
    constructor
    · intro hc
      obtain ⟨r, hr, -⟩ := hc.truncated (.inr ⟨h, hcut⟩)
      rw [hdone] at hr
      cases hr
    · intro hclean
      exact absurd hclean.1 hfit

private theorem completeOnly_of_accepted_iff (hturn : Ordinary w t)
    (h : HeaderAccepted (w.fd t) t.stale (w.stream t)) :
    CompleteOnly fixed2 w t ↔ CutClean w t := by
  have hget : getMsg (w.fd t) t.stale (w.stream t) = _ := checkedGetMsg_of_accepted h (-1)
  unfold CutClean
  by_cases hshort : (w.stream t).length < 10
  · rw [if_pos hshort]
    constructor
    · intro hc
      have hlong := hc.header (by rw [hget]; exact Int.natCast_nonneg _)
      omega
    · intro hclean
      exact absurd h (hclean h.1).1
  · have hlong : 10 ≤ (w.stream t).length := not_lt.mp hshort
    rw [if_neg hshort]
    by_cases hcomplete : FrameComplete t.stale (w.stream t)
    · refine ⟨fun _ _ hcut => absurd hcomplete hcut, fun _ => ⟨fun _ => hlong, ?_, ?_⟩⟩
      · exact fun _ _ _ => hcomplete
      · rintro (⟨-, hend⟩ | ⟨-, hcut⟩)
        · exact absurd hend hshort
        · exact absurd hcomplete hcut
    · rw [completeOnly_of_cut_iff hturn h hlong hcomplete]
      simp only [h, hcomplete, not_false_iff, true_implies]

theorem completeOnly_turn_iff (hturn : Ordinary w t) :
    CompleteOnly fixed2 w t ↔ CutClean w t := by
  by_cases h : HeaderAccepted (w.fd t) t.stale (w.stream t)
  · exact completeOnly_of_accepted_iff hturn h
  · exact completeOnly_of_rejected_iff hturn h

end Turns

/-- A turn on a stream is a turn on the message that the stream holds, or a `logoff_client`. -/
theorem wireStep_refines {fixed2 : Int → Nat → List UInt8} {w w' : Wired} {e : WireEvent}
    (h : wireStep fixed2 w e = some w') : ∃ e', step fixed2 w.table e' = some w'.table := by
  cases e with
  | accept newSocket address stream =>
    obtain ⟨table, htable, rfl⟩ := Option.map_eq_some_iff.mp h
    exact ⟨_, htable⟩
  | listenStart sock now =>
    cases h
    exact ⟨.listenStart sock now, rfl⟩
  | turn t =>
    obtain ⟨r, hr, rfl⟩ := Option.map_eq_some_iff.mp h
    unfold turn at hr
    split at hr
    · rename_i hturn
      by_cases haccepted : HeaderAccepted (w.fd t) t.stale (w.stream t)
      · rw [turnNarrow_of_accepted haccepted] at hr
        obtain ⟨q, -, hserve⟩ := Option.bind_eq_some_iff.mp hr
        obtain ⟨u, hu, rfl⟩ := Option.map_eq_some_iff.mp hserve
        refine ⟨.command t.sock q.msgLen q.tempx t.now t.stray, ?_⟩
        have hnote : noteWinClient w.table (lookupIndex w.table t.sock) = w.table :=
          if_neg fun hwide => hturn hwide.1
        have hlisten : listenTurn fixed2 w.table t.sock q.msgLen q.tempx t.now t.stray =
            some u := by
          simp only [listenTurn, hnote]
          exact hu
        rw [step, react, hlisten, Option.map_some]
      · rw [turnNarrow_of_rejected haccepted] at hr
        cases hr
        exact ⟨.logoffClient t.strayName, rfl⟩
    · obtain ⟨⟨q, streams⟩, -, hserve⟩ := Option.bind_eq_some_iff.mp hr
      obtain ⟨u, hu, rfl⟩ := Option.map_eq_some_iff.mp hserve
      refine ⟨.command t.sock q.msgLen q.tempx t.now t.stray, ?_⟩
      have hlisten : listenTurn fixed2 w.table t.sock q.msgLen q.tempx t.now t.stray = some u := hu
      rw [step, react, hlisten, Option.map_some]
  | logoffClient name =>
    cases h
    exact ⟨.logoffClient name, rfl⟩
  | timerVisit i =>
    obtain ⟨table, htable, rfl⟩ := Option.map_eq_some_iff.mp h
    exact ⟨_, htable⟩

theorem wireExec_refines {fixed2 : Int → Nat → List UInt8} {w w' : Wired} {es : List WireEvent}
    (h : exec (wireStep fixed2) w es = some w') :
    ∃ es', exec (step fixed2) w.table es' = some w'.table :=
  exec_refines (fun _ _ _ => wireStep_refines) h

def ExecutesComplete (fixed2 : Int → Nat → List UInt8) (w : Wired) : WireEvent → Prop
  | .turn t => Ordinary w t → CompleteOnly fixed2 w t
  | _ => True

def CutsClean (w : Wired) : WireEvent → Prop
  | .turn t => Ordinary w t → CutClean w t
  | _ => True

/-- However the peers cut their streams, the server executes complete frames only and keeps cut
frames from other clients exactly when every cut that a turn meets is clean. -/
theorem executesComplete_iff (fixed2 : Int → Nat → List UInt8) (w : Wired)
    (es : List WireEvent) :
    AllSteps (wireStep fixed2) (ExecutesComplete fixed2) w es ↔
      AllSteps (wireStep fixed2) CutsClean w es := by
  refine allSteps_congr fun w e => ?_
  cases e with
  | turn t => exact forall_congr' fun hturn => completeOnly_turn_iff hturn
  | accept newSocket address stream => exact Iff.rfl
  | listenStart sock now => exact Iff.rfl
  | logoffClient name => exact Iff.rfl
  | timerVisit i => exact Iff.rfl

/-- 154 sends a header that announces one byte, the type `DISCONNECT_ALL` and nothing more. -/
def cutDisconnectAll : List WireEvent :=
  [.accept 4 (ascii "192.168.88.154") (prePreamble ++ [1, 0, CmdTypes.disconnectAll.code]),
    .accept 5 (ascii "192.168.88.147") [],
    .turn ⟨4, ⟨Buffer.zero 10, 0, 0⟩, ⟨Buffer.zero 20, 0, 0⟩, [], 0, 0⟩]

/-- The cut frame closes the connection of 147. -/
theorem cut_frame_disconnects_all :
    (exec (wireStep fun _ _ => ascii "0.00") ⟨init (Buffer.zero 100), fun _ => []⟩
      cutDisconnectAll).map (fun w => (w.table.pthreadsList 1).sock) = some (-1) ∧
    ¬ AllSteps (wireStep fun _ _ => ascii "0.00") (ExecutesComplete fun _ _ => ascii "0.00")
      ⟨init (Buffer.zero 100), fun _ => []⟩ cutDisconnectAll := by
  refine ⟨by decide, ?_⟩
  intro h
  have hbody := (((h.2 _ rfl).2 _ rfl).1 (by decide)).body
  exact absurd (hbody _ rfl (by decide)) (by decide)

end TcpIot.Server
