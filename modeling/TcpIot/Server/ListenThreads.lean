import TcpIot.Server.System

/-!
# The listen threads, step by step

Every `listen_thread` looks its slot up again before each message, one comparison at a time,
while other threads fill and clear the table. A step is one access of one thread to the table
or one `recv` call. The ghost fields record which connection registered a slot and which
connection a descriptor was last given to.
-/

namespace TcpIot.Server

open Framework

/-- Where a `listen_thread` is in its loop. -/
inductive Phase where
  | starting
  /-- Next to compare slot `i`; `found` says whether a slot has matched in this turn. -/
  | scan (i : Nat) (index : Fin maxThreads) (found : Bool)
  /-- `win_cl` has been tested; about to call `get_msgb` or `get_msg`. -/
  | headerCall (index : Fin maxThreads) (wide : Bool)
  | header (index : Fin maxThreads) (wide : Bool) (fd : Int)
  /-- About to call `recv_tcp` for the body. -/
  | bodyCall (index : Fin maxThreads) (wide : Bool)
  | body (index : Fin maxThreads) (wide : Bool) (fd : Int)
  | ready (index : Fin maxThreads)
  | ended
deriving DecidableEq

structure Thread where
  sock : Int
  phase : Phase
deriving DecidableEq

/-- The slot the thread found in this turn and is going to use. -/
def Phase.index? : Phase → Option (Fin maxThreads)
  | .scan _ index true => some index
  | .headerCall index _ | .header index _ _ | .bodyCall index _ | .body index _ _ => some index
  | .ready index => some index
  | .starting | .scan _ _ false | .ended => none

/-- The descriptor that a `recv` call of the thread reads from. -/
def Phase.fd? : Phase → Option Int
  | .header _ _ fd | .body _ _ fd => some fd
  | _ => none

/-- The server with its threads, numbered by connection. -/
structure System where
  table : State
  threads : Nat → Thread
  conns : Nat
  /-- A connection whose thread runs but whose slot is not filled in yet. -/
  pending : Option (Nat × Int × List UInt8)
  /-- Ghost: the connection that registered the slot. -/
  owner : Fin maxThreads → Option Nat
  /-- Ghost: the connection the descriptor was last given to. -/
  fdOwner : Int → Option Nat

def System.init (stack : Buffer 100) : System where
  table := Server.init stack
  threads := fun _ => ⟨-1, .ended⟩
  conns := 0
  pending := none
  owner := fun _ => none
  fdOwner := fun _ => none

def System.setPhase (σ : System) (c : Nat) (p : Phase) : System :=
  { σ with threads := Function.update σ.threads c { σ.threads c with phase := p } }

inductive Action where
  /-- `accept` and `pthread_create`. -/
  | accept (newSocket : Int) (address : List UInt8)
  | fill
  | start (c : Nat) (now : Int)
  | compare (c : Nat)
  | test (c : Nat)
  /-- Evaluate the descriptor and enter `get_msg`, `get_msgb` or `recv_tcp`. -/
  | call (c : Nat)
  | recv (c : Nat)
  | headerDone (c : Nat)
  /-- `get_msg` failed; `name` lies behind the table. -/
  | headerBad (c : Nat) (name : List UInt8)
  | bodyDone (c : Nat)
  | serve (c : Nat) (msgLen : Int) (tempx : Buffer 50) (now stray : Int)
  | logoffClient (name : List UInt8)
  | timerVisit (i : Fin maxThreads)
deriving DecidableEq

def compareSlot (σ : System) (c i : Nat) (index : Fin maxThreads) (found : Bool) :
    Option System :=
  if h : i < maxThreads then
    if (σ.threads c).sock = (σ.table.pthreadsList ⟨i, h⟩).sock then
      some (σ.setPhase c (.scan (i + 1) ⟨i, h⟩ true))
    else some (σ.setPhase c (.scan (i + 1) index found))
  else none

/-- One step; `none` when the thread is elsewhere or the step is undefined. -/
def act (fixed2 : Int → Nat → List UInt8) (σ : System) : Action → Option System
  | .accept newSocket address =>
    if σ.pending.isNone then
      some { σ with
        threads := Function.update σ.threads σ.conns ⟨newSocket, .starting⟩
        conns := σ.conns + 1
        pending := some (σ.conns, newSocket, address)
        fdOwner := Function.update σ.fdOwner newSocket (some σ.conns) }
    else none
  | .fill =>
    match σ.pending with
    | some (c, newSocket, address) =>
      (nextSlot σ.table).bind fun k =>
        (newSockThread σ.table newSocket address).map fun table =>
          { σ with table := table, pending := none, owner := Function.update σ.owner k (some c) }
    | none => none
  | .start c now =>
    match (σ.threads c).phase with
    | .starting =>
      some ({ σ with table := listenStart σ.table (σ.threads c).sock now }.setPhase c
        (.scan 0 0 false))
    | _ => none
  | .compare c =>
    match (σ.threads c).phase with
    | .scan i index found => compareSlot σ c i index found
    | _ => none
  | .test c =>
    match (σ.threads c).phase with
    | .scan i index _ =>
      if maxThreads ≤ i then
        some (σ.setPhase c (.headerCall index ((σ.table.pthreadsList index).winCl = 1)))
      else none
    | _ => none
  | .call c =>
    match (σ.threads c).phase with
    | .headerCall index wide =>
      some (σ.setPhase c (.header index wide
        (if wide then (σ.threads c).sock else (σ.table.pthreadsList index).sock)))
    | .bodyCall index wide =>
      some (σ.setPhase c (.body index wide (σ.table.pthreadsList index).sock))
    | _ => none
  | .recv c => if (σ.threads c).phase.fd?.isSome then some σ else none
  | .headerDone c =>
    match (σ.threads c).phase with
    | .header index wide _ => some (σ.setPhase c (.bodyCall index wide))
    | _ => none
  | .headerBad c name =>
    match (σ.threads c).phase with
    | .header _ false _ =>
      some ({ σ with table := (Server.logoffClient σ.table name).1 }.setPhase c
        (.scan 0 0 false))
    | _ => none
  | .bodyDone c =>
    match (σ.threads c).phase with
    | .body index wide _ =>
      some ({ σ with table :=
          if wide ∧ σ.table.winClIndex < 0 then { σ.table with winClIndex := index }
          else σ.table }.setPhase c (.ready index))
    | _ => none
  | .serve c msgLen tempx now stray =>
    match (σ.threads c).phase with
    | .ready index =>
      (serve fixed2 σ.table index msgLen tempx now stray).map fun r =>
        { σ with table := r.1 }.setPhase c
          (if tempx.get 0 = CmdTypes.disconnectAll.code then .ended else .scan 0 0 false)
    | _ => none
  | .logoffClient name => some { σ with table := (Server.logoffClient σ.table name).1 }
  | .timerVisit i =>
    (Server.timerVisit σ.table i).map fun r => { σ with table := r.1 }

/-- A `recv` call goes to the thread's own connection, or to a cleared slot; the slot used as
the sender's is the one of the thread's connection. -/
def UsesOwn (σ : System) : Action → Prop
  | .recv c =>
    (∀ k, (σ.threads c).phase.index? = some k → σ.owner k = some c) ∧
    ∀ fd ∈ (σ.threads c).phase.fd?,
      (fd = (σ.threads c).sock ∨ fd = -1) ∧ (σ.fdOwner fd = none ∨ σ.fdOwner fd = some c)
  | .serve c _ _ _ _ => ∀ k, (σ.threads c).phase.index? = some k → σ.owner k = some c
  | _ => True

instance (σ : System) : DecidablePred (UsesOwn σ)
  | .recv _ => inferInstanceAs (Decidable ((∀ _, _ → _) ∧ ∀ _ ∈ _, _))
  | .serve _ _ _ _ _ => inferInstanceAs (Decidable (∀ _, _ → _))
  | .accept _ _ | .fill | .start _ _ | .compare _ | .test _ | .call _ | .headerDone _
  | .headerBad _ _ | .bodyDone _ | .logoffClient _ | .timerVisit _ => isTrue trivial

/-- A descriptor returned by `accept` is not open. -/
def Fresh (σ : System) : Action → Prop
  | .accept newSocket _ => 0 < newSocket ∧ ∀ k, (σ.table.pthreadsList k).sock ≠ newSocket
  | _ => True

instance (σ : System) : DecidablePred (Fresh σ)
  | .accept _ _ => inferInstanceAs (Decidable (_ ∧ _))
  | .fill | .start _ _ | .compare _ | .test _ | .call _ | .recv _ | .headerDone _
  | .headerBad _ _ | .bodyDone _ | .serve _ _ _ _ _ | .logoffClient _ | .timerVisit _ =>
    isTrue trivial

/-- `accept` returns no descriptor that a running thread was started with; every lookup finds
its descriptor; a slot is filled only while no thread is using it. -/
def Settled (σ : System) : Action → Prop
  | .accept newSocket _ =>
    ∀ c < σ.conns, (σ.threads c).phase ≠ .ended → (σ.threads c).sock ≠ newSocket
  | .fill => ∀ k, nextSlot σ.table = some k → ∀ c < σ.conns, (σ.threads c).phase.index? ≠ some k
  | .test c => (σ.threads c).phase.index?.isSome
  | _ => True

instance (σ : System) : DecidablePred (Settled σ)
  | .accept _ _ => inferInstanceAs (Decidable (∀ _ < _, _ → _))
  | .fill => inferInstanceAs (Decidable (∀ _, _ → ∀ _ < _, _))
  | .test _ => inferInstanceAs (Decidable (_ = true))
  | .start _ _ | .compare _ | .call _ | .recv _ | .headerDone _
  | .headerBad _ _ | .bodyDone _ | .serve _ _ _ _ _ | .logoffClient _ | .timerVisit _ =>
    isTrue trivial

/-- Descriptors of running threads and of live slots belong to their connections, and so do the
slot and the descriptor that a thread is using. -/
structure Owned (σ : System) : Prop where
  started : ∀ c, (σ.threads c).phase ≠ .ended → c < σ.conns
  positive : ∀ fd c, σ.fdOwner fd = some c → 0 < fd
  running : ∀ c, (σ.threads c).phase ≠ .ended → σ.fdOwner (σ.threads c).sock = some c
  waiting : ∀ c fd address, σ.pending = some (c, fd, address) → σ.fdOwner fd = some c
  slots : ∀ k, 0 < (σ.table.pthreadsList k).sock →
    σ.fdOwner (σ.table.pthreadsList k).sock = σ.owner k
  inUse : ∀ c k, (σ.threads c).phase.index? = some k → σ.owner k = some c ∧
    ((σ.table.pthreadsList k).sock = (σ.threads c).sock ∨ (σ.table.pthreadsList k).sock = -1)
  captured : ∀ c fd, (σ.threads c).phase.fd? = some fd → fd = (σ.threads c).sock ∨ fd = -1

theorem init_owned (stack : Buffer 100) : Owned (System.init stack) where
  started c h := absurd rfl h
  positive _ _ h := nomatch h
  running c h := absurd rfl h
  waiting _ _ _ h := nomatch h
  slots k h := absurd h (by show ¬ (0 : Int) < -1; decide)
  inUse _ _ h := nomatch h
  captured _ _ h := nomatch h

section Steps

variable {σ : System}

theorem Owned.table (hσ : Owned σ) {t : State}
    (ht : ∀ k, (t.pthreadsList k).sock = (σ.table.pthreadsList k).sock ∨
      (t.pthreadsList k).sock = -1) : Owned { σ with table := t } := by
  refine ⟨hσ.started, hσ.positive, hσ.running, hσ.waiting, ?_, ?_, hσ.captured⟩
  · intro k hk
    rcases ht k with hsame | hcleared
    · simp only [hsame] at hk ⊢
      exact hσ.slots k hk
    · simp only [hcleared] at hk
      exact absurd hk (by decide)
  · intro c k hk
    obtain ⟨howner, hsock⟩ := hσ.inUse c k hk
    refine ⟨howner, ?_⟩
    rcases ht k with hsame | hcleared
    · rwa [hsame]
    · exact .inr hcleared

theorem Owned.setPhase (hσ : Owned σ) {c : Nat} {p : Phase}
    (hrun : (σ.threads c).phase ≠ .ended)
    (hindex : ∀ k, p.index? = some k → σ.owner k = some c ∧
      ((σ.table.pthreadsList k).sock = (σ.threads c).sock ∨ (σ.table.pthreadsList k).sock = -1))
    (hfd : ∀ fd, p.fd? = some fd → fd = (σ.threads c).sock ∨ fd = -1) :
    Owned (σ.setPhase c p) := by
  have hsame : (σ.setPhase c p).threads c = { σ.threads c with phase := p } := by
    simp [System.setPhase]
  have hother (d : Nat) (hd : d ≠ c) : (σ.setPhase c p).threads d = σ.threads d := by
    simp [System.setPhase, hd]
  refine ⟨?_, hσ.positive, ?_, hσ.waiting, hσ.slots, ?_, ?_⟩
  · intro d hd
    by_cases hdc : d = c
    · subst hdc
      exact hσ.started d hrun
    · rw [hother d hdc] at hd
      exact hσ.started d hd
  · intro d hd
    by_cases hdc : d = c
    · subst hdc
      rw [hsame]
      exact hσ.running d hrun
    · rw [hother d hdc] at hd ⊢
      exact hσ.running d hd
  · intro d k hk
    by_cases hdc : d = c
    · subst hdc
      rw [hsame] at hk ⊢
      exact hindex k hk
    · rw [hother d hdc] at hk ⊢
      exact hσ.inUse d k hk
  · intro d fd hd
    by_cases hdc : d = c
    · subst hdc
      rw [hsame] at hd ⊢
      exact hfd fd hd
    · rw [hother d hdc] at hd ⊢
      exact hσ.captured d fd hd

theorem Owned.setIdle (hσ : Owned σ) {c : Nat} {p : Phase}
    (hrun : (σ.threads c).phase ≠ .ended) (hindex : p.index? = none) (hfd : p.fd? = none) :
    Owned (σ.setPhase c p) := by
  refine hσ.setPhase hrun (fun k hk => ?_) fun fd hd => ?_
  · rw [hindex] at hk
    cases hk
  · rw [hfd] at hd
    cases hd

theorem Owned.keepSlot (hσ : Owned σ) {c : Nat} {p : Phase} {index : Fin maxThreads}
    (hrun : (σ.threads c).phase ≠ .ended) (hold : (σ.threads c).phase.index? = some index)
    (hnew : p.index? = some index)
    (hfd : ∀ fd, p.fd? = some fd → fd = (σ.threads c).sock ∨
      fd = (σ.table.pthreadsList index).sock) :
    Owned (σ.setPhase c p) := by
  have hown := hσ.inUse c index hold
  refine hσ.setPhase hrun (fun k hk => ?_) fun fd hd => ?_
  · rw [hnew] at hk
    cases hk
    exact hown
  · rcases hfd fd hd with hsock | hslot
    · exact .inl hsock
    · rw [hslot]
      exact hown.2

private theorem accept_owned (hσ : Owned σ) {fd : Int} {address : List UInt8}
    (hfresh : Fresh σ (.accept fd address)) (hsettled : Settled σ (.accept fd address)) :
    Owned { σ with
      threads := Function.update σ.threads σ.conns ⟨fd, .starting⟩
      conns := σ.conns + 1
      pending := some (σ.conns, fd, address)
      fdOwner := Function.update σ.fdOwner fd (some σ.conns) } := by
  have hnew (c : Nat) : c = σ.conns ∨ c ≠ σ.conns := eq_or_ne c σ.conns
  have hkeep (f : Int) (c : Nat) (hf : f ≠ fd) (h : σ.fdOwner f = some c) :
      Function.update σ.fdOwner fd (some σ.conns) f = some c := by
    rw [Function.update_of_ne hf]
    exact h
  refine ⟨?_, ?_, ?_, ?_, ?_, ?_, ?_⟩
  · intro c hc
    dsimp only at hc ⊢
    rcases hnew c with rfl | hne
    · exact Nat.lt_succ_self _
    · rw [Function.update_of_ne hne] at hc
      exact Nat.lt_succ_of_lt (hσ.started c hc)
  · intro f c hf
    dsimp only at hf
    by_cases hfd : f = fd
    · exact hfd ▸ hfresh.1
    · rw [Function.update_of_ne hfd] at hf
      exact hσ.positive f c hf
  · intro c hc
    dsimp only at hc ⊢
    rcases hnew c with rfl | hne
    · simp
    · rw [Function.update_of_ne hne] at hc ⊢
      exact hkeep _ c (hsettled c (hσ.started c hc) hc) (hσ.running c hc)
  · intro c f a h
    cases h
    simp
  · intro k hk
    dsimp only at hk ⊢
    rw [Function.update_of_ne (hfresh.2 k)]
    exact hσ.slots k hk
  · intro c k hk
    dsimp only at hk ⊢
    rcases hnew c with rfl | hne
    · rw [Function.update_self] at hk
      cases hk
    · rw [Function.update_of_ne hne] at hk ⊢
      exact hσ.inUse c k hk
  · intro c f hf
    dsimp only at hf ⊢
    rcases hnew c with rfl | hne
    · rw [Function.update_self] at hf
      cases hf
    · rw [Function.update_of_ne hne] at hf ⊢
      exact hσ.captured c f hf

private theorem fill_owned (hσ : Owned σ) {c : Nat} {fd : Int} {address : List UInt8}
    (hpending : σ.pending = some (c, fd, address)) (hsettled : Settled σ .fill)
    {k : Fin maxThreads} (hk : nextSlot σ.table = some k) {t : State}
    (ht : newSockThread σ.table fd address = some t) :
    Owned { σ with table := t, pending := none, owner := Function.update σ.owner k (some c) } := by
  obtain ⟨k', hk', rfl⟩ := Option.map_eq_some_iff.mp ht
  cases hk.symm.trans hk'
  have hother (j : Fin maxThreads) (hj : j ≠ k) :
      (σ.table.setSlot k (registered (σ.table.pthreadsList k) fd address)).pthreadsList j =
        σ.table.pthreadsList j := setSlot_ne σ.table _ hj
  refine ⟨hσ.started, hσ.positive, hσ.running, ?_, ?_, ?_, hσ.captured⟩
  · intro d f a h
    cases h
  · intro j hj
    dsimp only at hj ⊢
    by_cases hjk : j = k
    · subst hjk
      rw [setSlot_same, Function.update_self]
      exact hσ.waiting c fd address hpending
    · rw [hother j hjk] at hj ⊢
      rw [Function.update_of_ne hjk]
      exact hσ.slots j hj
  · intro d j hj
    dsimp only at hj ⊢
    have hrun : (σ.threads d).phase ≠ .ended := by
      intro hended
      rw [hended] at hj
      cases hj
    have hjk : j ≠ k := by
      rintro rfl
      exact hsettled j hk d (hσ.started d hrun) hj
    rw [hother j hjk, Function.update_of_ne hjk]
    exact hσ.inUse d j hj

private theorem compare_owned (hσ : Owned σ) {c i : Nat} {index : Fin maxThreads} {found : Bool}
    (hphase : (σ.threads c).phase = .scan i index found) {τ : System}
    (h : compareSlot σ c i index found = some τ) : Owned τ := by
  have hrun : (σ.threads c).phase ≠ .ended := by rw [hphase]; simp
  unfold compareSlot at h
  split at h
  · rename_i hi
    split at h
    · rename_i hmatch
      cases h
      refine hσ.setPhase hrun ?_ fun fd hfd => by cases hfd
      intro k hk
      cases hk
      have hpos := hσ.positive _ _ (hσ.running c hrun)
      rw [hmatch] at hpos
      have howner := hσ.slots _ hpos
      rw [← hmatch, hσ.running c hrun] at howner
      exact ⟨howner.symm, .inl hmatch.symm⟩
    · cases h
      refine hσ.setPhase hrun ?_ fun fd hfd => by cases hfd
      intro k hk
      apply hσ.inUse c k
      rw [hphase]
      cases found with
      | true => exact hk
      | false => cases hk
  · cases h

private theorem logoff_owned (hσ : Owned σ) (name : List UInt8) :
    Owned { σ with table := (Server.logoffClient σ.table name).1 } := by
  refine hσ.table fun k => ?_
  rw [logoffClient_slot]
  split
  · exact .inr rfl
  · exact .inl rfl

private theorem start_owned (hσ : Owned σ) {c : Nat} (hphase : (σ.threads c).phase = .starting)
    (now : Int) :
    Owned ({ σ with table := listenStart σ.table (σ.threads c).sock now }.setPhase c
      (.scan 0 0 false)) := by
  have hstart : Owned { σ with table := listenStart σ.table (σ.threads c).sock now } := by
    refine hσ.table fun k => .inl ?_
    simp only [listenStart]
    split <;> rfl
  exact hstart.setIdle (by dsimp only; rw [hphase]; simp) rfl rfl

private theorem test_owned (hσ : Owned σ) {c i : Nat} {index : Fin maxThreads} {found : Bool}
    (hphase : (σ.threads c).phase = .scan i index found) (hsettled : Settled σ (.test c))
    (wide : Bool) : Owned (σ.setPhase c (.headerCall index wide)) := by
  simp only [Settled, hphase] at hsettled
  cases found with
  | true =>
    exact hσ.keepSlot (by rw [hphase]; simp) (by rw [hphase]; rfl) rfl fun fd hfd => by cases hfd
  | false => cases hsettled

private theorem headerCall_owned (hσ : Owned σ) {c : Nat} {index : Fin maxThreads} {wide : Bool}
    (hphase : (σ.threads c).phase = .headerCall index wide) :
    Owned (σ.setPhase c (.header index wide
      (if wide then (σ.threads c).sock else (σ.table.pthreadsList index).sock))) := by
  refine hσ.keepSlot (by rw [hphase]; simp) (by rw [hphase]; rfl) rfl fun fd hfd => ?_
  cases hfd
  cases wide with
  | true => exact .inl rfl
  | false => exact .inr rfl

private theorem bodyCall_owned (hσ : Owned σ) {c : Nat} {index : Fin maxThreads} {wide : Bool}
    (hphase : (σ.threads c).phase = .bodyCall index wide) :
    Owned (σ.setPhase c (.body index wide (σ.table.pthreadsList index).sock)) := by
  refine hσ.keepSlot (by rw [hphase]; simp) (by rw [hphase]; rfl) rfl fun fd hfd => ?_
  cases hfd
  exact .inr rfl

private theorem bodyDone_owned (hσ : Owned σ) {c : Nat} {index : Fin maxThreads} {wide : Bool}
    {fd : Int} (hphase : (σ.threads c).phase = .body index wide fd) {t : State}
    (ht : t.pthreadsList = σ.table.pthreadsList) :
    Owned ({ σ with table := t }.setPhase c (.ready index)) := by
  have hown : Owned { σ with table := t } := hσ.table fun k => .inl (by rw [ht])
  exact hown.keepSlot (by dsimp only; rw [hphase]; simp) (by dsimp only; rw [hphase]; rfl) rfl
    fun fd hfd => by cases hfd

private theorem serve_owned {fixed2 : Int → Nat → List UInt8} (hσ : Owned σ) {c : Nat}
    {index : Fin maxThreads} (hphase : (σ.threads c).phase = .ready index)
    {msgLen now stray : Int} {tempx : Buffer 50} {r : State × List Effect}
    (hr : serve fixed2 σ.table index msgLen tempx now stray = some r) :
    Owned ({ σ with table := r.1 }.setPhase c
      (if tempx.get 0 = CmdTypes.disconnectAll.code then .ended else .scan 0 0 false)) := by
  have hserved : Owned { σ with table := r.1 } := hσ.table (serve_sock hr)
  apply hserved.setIdle
  · dsimp only
    rw [hphase]
    simp
  · split <;> rfl
  · split <;> rfl

theorem Owned.act {fixed2 : Int → Nat → List UInt8} {a : Action} {τ : System}
    (hσ : Owned σ) (hfresh : Fresh σ a) (hsettled : Settled σ a)
    (h : act fixed2 σ a = some τ) : Owned τ := by
  cases a with
  | accept fd address =>
    simp only [Server.act] at h
    split at h
    · cases h
      exact accept_owned hσ hfresh hsettled
    · cases h
  | fill =>
    simp only [Server.act] at h
    split at h
    · rename_i c fd address hpending
      obtain ⟨k, hk, hbind⟩ := Option.bind_eq_some_iff.mp h
      obtain ⟨t, ht, rfl⟩ := Option.map_eq_some_iff.mp hbind
      exact fill_owned hσ hpending hsettled hk ht
    · cases h
  | start c now =>
    simp only [Server.act] at h
    split at h
    · rename_i hphase
      cases h
      exact start_owned hσ hphase now
    · cases h
  | compare c =>
    simp only [Server.act] at h
    split at h
    · rename_i hphase
      exact compare_owned hσ hphase h
    · cases h
  | test c =>
    simp only [Server.act] at h
    split at h
    · rename_i i index found hphase
      split at h
      · cases h
        exact test_owned hσ hphase hsettled _
      · cases h
    · cases h
  | call c =>
    simp only [Server.act] at h
    split at h
    · rename_i index wide hphase
      cases h
      exact headerCall_owned hσ hphase
    · rename_i index wide hphase
      cases h
      exact bodyCall_owned hσ hphase
    · cases h
  | recv c =>
    simp only [Server.act] at h
    split at h
    · cases h
      exact hσ
    · cases h
  | headerDone c =>
    simp only [Server.act] at h
    split at h
    · rename_i index wide fd hphase
      cases h
      exact hσ.keepSlot (by rw [hphase]; simp) (by rw [hphase]; rfl) rfl
        fun fd hfd => by cases hfd
    · cases h
  | headerBad c name =>
    simp only [Server.act] at h
    split at h
    · rename_i hphase
      cases h
      exact (logoff_owned hσ name).setIdle (by dsimp only; rw [hphase]; simp) rfl rfl
    · cases h
  | bodyDone c =>
    simp only [Server.act] at h
    split at h
    · rename_i index wide fd hphase
      cases h
      refine bodyDone_owned hσ hphase ?_
      split <;> rfl
    · cases h
  | serve c msgLen tempx now stray =>
    simp only [Server.act] at h
    split at h
    · rename_i index hphase
      obtain ⟨r, hr, rfl⟩ := Option.map_eq_some_iff.mp h
      exact serve_owned hσ hphase hr
    · cases h
  | logoffClient name =>
    cases h
    exact logoff_owned hσ name
  | timerVisit i =>
    obtain ⟨r, hr, rfl⟩ := Option.map_eq_some_iff.mp h
    have hstep : step fixed2 σ.table (.timerVisit i) = some r.1 :=
      Option.map_eq_some_iff.mpr ⟨r, hr, rfl⟩
    exact hσ.table fun k => (step_freed hstep fun _ _ he => by cases he).sock k

theorem Owned.usesOwn (hσ : Owned σ) (a : Action) : UsesOwn σ a := by
  cases a with
  | recv c =>
    refine ⟨fun k hk => (hσ.inUse c k hk).1, fun fd hfd => ?_⟩
    have hrun : (σ.threads c).phase ≠ .ended := by
      intro hended
      rw [hended] at hfd
      cases hfd
    have hcaptured := hσ.captured c fd hfd
    refine ⟨hcaptured, ?_⟩
    rcases hcaptured with rfl | rfl
    · exact .inr (hσ.running c hrun)
    · cases howner : σ.fdOwner (-1) with
      | none => exact .inl rfl
      | some d => exact absurd (hσ.positive _ d howner) (by decide)
  | serve c msgLen tempx now stray => exact fun k hk => (hσ.inUse c k hk).1
  | _ => trivial

end Steps

/-- In every run, at the granularity of single table accesses and `recv` calls, in which no
descriptor of a running thread is given out again, every lookup finds its descriptor and no slot
in use is filled: a thread only reads its own connection and only uses its own slot. -/
theorem threads_use_own (fixed2 : Int → Nat → List UInt8) (stack : Buffer 100)
    (as : List Action)
    (hrun : AllSteps (act fixed2) (fun σ a => Fresh σ a ∧ Settled σ a) (.init stack) as) :
    AllSteps (act fixed2) UsesOwn (.init stack) as :=
  hrun.of_inv (fun _ _ _ hσ ha hstep => hσ.act ha.1 ha.2 hstep)
    (fun _ a hσ _ => hσ.usesOwn a) (init_owned stack)

/-- The turn of the thread of connection `c` up to its first `recv`. -/
def firstRead (c : Nat) : List Action :=
  [.start c 0] ++ List.replicate 7 (.compare c) ++ [.test c, .call c, .recv c]

/-- Clients 154 and 147 are registered before their threads look their slots up, a statement of
one and a statement of the other. -/
def bothRead : List Action :=
  [.accept 4 (ascii "192.168.88.154"), .fill, .accept 5 (ascii "192.168.88.147"), .fill] ++
    (List.zipWith (fun a b => [a, b]) (firstRead 0) (firstRead 1)).flatten

theorem threads_use_own_two_clients :
    AllSteps (act fun _ _ => ascii "0.00") UsesOwn (.init (Buffer.zero 100)) bothRead :=
  threads_use_own _ _ _ (by decide)

/-- The thread of client 147 looks its slot up before it is filled in. -/
def earlyLookup : List Action :=
  [.accept 4 (ascii "192.168.88.154"), .fill, .accept 5 (ascii "192.168.88.147")] ++ firstRead 1

/-- It gets slot 0 and reads the stream of client 154. -/
theorem early_lookup_reads_first_client :
    AllSteps (act fun _ _ => ascii "0.00") Fresh (.init (Buffer.zero 100)) earlyLookup ∧
    (∃ σ ∈ exec (act fun _ _ => ascii "0.00") (.init (Buffer.zero 100)) earlyLookup,
      (σ.threads 1).phase.fd? = some 4 ∧ (σ.table.pthreadsList 0).sock = 4 ∧
        σ.fdOwner 4 = some 0) ∧
    ¬ AllSteps (act fun _ _ => ascii "0.00") UsesOwn (.init (Buffer.zero 100)) earlyLookup := by
  decide

end TcpIot.Server
