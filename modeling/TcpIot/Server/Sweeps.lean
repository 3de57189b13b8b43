import TcpIot.Server.SlotChange

/-!
# Sweeps of the timer

`timer_thread` visits the slots below `no_threads` one after the other, and the other threads go
on in between. A record beside the table says for every slot whether the sweep has visited it,
and for how many whole sweeps its client has been silent.
-/

namespace TcpIot.Server

open Framework

/-- What happened to a slot since the running sweep began: a connection was accepted into it, an
`UPDATE_STATUS` with its name was handled, or the timer visited it; and the number of whole
sweeps before that without an answer. -/
structure Round where
  joined : Bool
  answered : Bool
  visited : Bool
  silent : Nat
deriving DecidableEq

def Round.begin : Round := ⟨false, false, false, 0⟩

/-- The record when the next sweep begins. -/
def Round.next (r : Round) : Round :=
  { Round.begin with silent := if r.answered then 0 else r.silent + 1 }

/-- The server, `i` of the timer's loop, and the record. -/
structure Sweeper where
  server : State
  position : Nat
  rounds : Fin maxThreads → Round
deriving DecidableEq

inductive Act where
  /-- The timer tests `i < no_threads`, and visits slot `i` or starts over. -/
  | tick
  /-- Another thread takes a step. -/
  | other (e : Event)
deriving DecidableEq

/-- The event is an `UPDATE_STATUS` with the name in slot `k`. -/
def BearsName (s : State) : Event → Fin maxThreads → Prop
  | .command sock msgLen tempx _ _, k => tempx.get 0 = CmdTypes.updateStatus.code ∧
    messageText s sock msgLen tempx = some (s.pthreadsList k).clientName.chars
  | _, _ => False

instance (s : State) : (e : Event) → DecidablePred (BearsName s e)
  | .command _ _ _ _ _, _ => inferInstanceAs (Decidable (_ ∧ _))
  | .accept _ _, _ | .listenStart _ _, _ | .logoffClient _, _ | .timerVisit _, _ => isFalse id

/-- The event accepts a connection into slot `k`. -/
def Joins (s : State) : Event → Fin maxThreads → Prop
  | .accept _ _, k => nextSlot s = some k
  | _, _ => False

instance (s : State) : (e : Event) → DecidablePred (Joins s e)
  | .accept _ _, _ => inferInstanceAs (Decidable (_ = _))
  | .listenStart _ _, _ | .command _ _ _ _ _, _ | .logoffClient _, _ | .timerVisit _, _ =>
    isFalse id

def noteEvent (s : State) (rounds : Fin maxThreads → Round) (e : Event) (k : Fin maxThreads) :
    Round :=
  if Joins s e k then ⟨true, true, false, 0⟩
  else if BearsName s e k then { rounds k with answered := true, silent := 0 }
  else rounds k

def noteVisit (s : State) (rounds : Fin maxThreads → Round) (i k : Fin maxThreads) : Round :=
  if k = i ∧ s.Live i then { rounds k with visited := true } else rounds k

def sweepStep (fixed2 : Int → Nat → List UInt8) (s : Sweeper) : Act → Option Sweeper
  | .tick =>
    if s.position < s.server.noThreads then
      (slotAt s.position).bind fun i => (step fixed2 s.server (.timerVisit i)).map fun t =>
        ⟨t, s.position + 1, noteVisit s.server s.rounds i⟩
    else some ⟨s.server, 0, fun k => (s.rounds k).next⟩
  | .other (.timerVisit _) => none
  | .other e => (step fixed2 s.server e).map fun t =>
    ⟨t, s.position, noteEvent s.server s.rounds e⟩

/-- The start of the timer's first sweep. -/
def firstSweep (stack : Buffer 100) : Sweeper := ⟨init stack, 0, fun _ => .begin⟩

/-- When a sweep ends, it has visited every live slot that was taken before it began, and no
live slot has been silent for two whole sweeps. -/
def SweepComplete (s : Sweeper) : Act → Prop
  | .tick => s.server.noThreads ≤ s.position → ∀ k, s.server.Live k →
    ((s.rounds k).joined = false → (s.rounds k).visited = true) ∧ (s.rounds k).next.silent < 2
  | .other _ => True

instance (s : Sweeper) : DecidablePred (SweepComplete s)
  | .tick => inferInstanceAs (Decidable (_ → ∀ _, _ → _ ∧ _))
  | .other _ => isTrue trivial

/-- The name of a slot above a reporting one is not the text that the report has grown to. -/
def Unechoed (fixed2 : Int → Nat → List UInt8) (s : State) : Event → Prop
  | .command sock msgLen tempx now _ => tempx.get 0 = CmdTypes.updateStatus.code →
    ∀ m ∈ unpack (s.pthreadsList (lookupIndex s sock)).winCl msgLen tempx,
      ∀ i, SameText (s.pthreadsList i).clientName m.2.2 → 0 < (s.pthreadsList i).timeStamp →
        (∀ j < i, SameText (s.pthreadsList j).clientName m.2.2 →
          (s.pthreadsList j).timeStamp ≤ 0) →
        ∀ longer ∈ appendUptime fixed2 (now - (s.pthreadsList i).orgTimeStamp) m.2.2,
          ∀ k > i, ¬ SameText (s.pthreadsList k).clientName longer
  | _ => True

instance (fixed2 : Int → Nat → List UInt8) (s : State) : DecidablePred (Unechoed fixed2 s)
  | .command _ _ _ _ _ =>
    inferInstanceAs (Decidable (_ → ∀ _ ∈ _, ∀ _, _ → _ → _ → ∀ _ ∈ _, ∀ _ > _, ¬ _))
  | .accept _ _ | .listenStart _ _ | .logoffClient _ | .timerVisit _ => isTrue trivial

/-- `no_threads` bounds the live slots. -/
def BelowCounter (s : State) : Prop := ∀ k, s.Live k → (k.val : Int) < s.noThreads

instance (s : State) : Decidable (BelowCounter s) :=
  inferInstanceAs (Decidable (∀ _, _ → _ < _))

/-- When the loop test fails, `no_threads` bounds the live slots; and an `UPDATE_STATUS` is not
echoed by a longer name. -/
def Covers (fixed2 : Int → Nat → List UInt8) (s : Sweeper) : Act → Prop
  | .tick => s.server.noThreads ≤ s.position → BelowCounter s.server
  | .other e => Unechoed fixed2 s.server e

instance (fixed2 : Int → Nat → List UInt8) (s : Sweeper) : DecidablePred (Covers fixed2 s)
  | .tick => inferInstanceAs (Decidable (_ → BelowCounter s.server))
  | .other e => inferInstanceAs (Decidable (Unechoed fixed2 s.server e))

section Refreshed

variable {fixed2 : Int → Nat → List UInt8} {s : State} {now stray : Int}

theorem updateStatus_unmatched {is : List (Fin maxThreads)} {tempx : Buffer 50}
    {r : State × List Effect} (h : updateStatus fixed2 now stray is s tempx = some r)
    (hno : ∀ k ∈ is, ¬ SameText (s.pthreadsList k).clientName tempx) : r.1 = s := by
  induction is with
  | nil =>
    cases h
    rfl
  | cons i is ih =>
    rcases updateStatus_cons h with ⟨-, hnext⟩ | ⟨hi, -⟩
    · exact ih hnext fun k hk => hno k (List.mem_cons_of_mem i hk)
    · exact absurd hi (hno i List.mem_cons_self)

theorem updateStatus_named {is : List (Fin maxThreads)} {tempx : Buffer 50}
    {r : State × List Effect} (h : updateStatus fixed2 now stray is s tempx = some r)
    (hsorted : is.Pairwise (· < ·))
    (hecho : ∀ i ∈ is, SameText (s.pthreadsList i).clientName tempx →
      0 < (s.pthreadsList i).timeStamp →
      (∀ j ∈ is, j < i → SameText (s.pthreadsList j).clientName tempx →
        (s.pthreadsList j).timeStamp ≤ 0) →
      ∀ longer ∈ appendUptime fixed2 (now - (s.pthreadsList i).orgTimeStamp) tempx,
        ∀ k ∈ is, i < k → ¬ SameText (s.pthreadsList k).clientName longer)
    (k : Fin maxThreads) :
    r.1.pthreadsList k = s.pthreadsList k ∨ SameText (s.pthreadsList k).clientName tempx := by
  induction is generalizing s r with
  | nil =>
    cases h
    exact .inl rfl
  | cons i is ih =>
    obtain ⟨hhead, htail⟩ := List.pairwise_cons.mp hsorted
    rcases updateStatus_cons h with ⟨hi, hnext⟩ | ⟨hi, text, sent, hnext, hkeep, hgrow⟩
    · refine ih hnext htail fun j hj hname hstamp hfirst longer hlonger l hl hjl => ?_
      refine hecho j (List.mem_cons_of_mem i hj) hname hstamp (fun m hm hmj hsame => ?_) longer
        hlonger l (List.mem_cons_of_mem i hl) hjl
      rcases List.mem_cons.mp hm with rfl | hm
      · exact absurd hsame hi
      · exact hfirst m hm hmj hsame
    · set u := s.setSlot i ((s.pthreadsList i).refreshed now) with hu
      have hsame (j : Fin maxThreads) (hj : j ∈ is) : u.pthreadsList j = s.pthreadsList j :=
        setSlot_ne s _ fun hji => lt_irrefl i (hji ▸ hhead j hj)
      have hrest (hslot : r.1.pthreadsList k = u.pthreadsList k ∨
          SameText (u.pthreadsList k).clientName tempx) :
          r.1.pthreadsList k = s.pthreadsList k ∨
            SameText (s.pthreadsList k).clientName tempx := by
        by_cases hki : k = i
        · subst hki
          exact .inr hi
        · rwa [hu, setSlot_ne s _ hki] at hslot
      by_cases hstamp : 0 < (s.pthreadsList i).timeStamp
      · refine hrest (.inl ?_)
        have hunmatched := hecho i List.mem_cons_self hi hstamp (fun j hj hji => ?_) text
          (hgrow hstamp)
        · rw [updateStatus_unmatched (r := (r.1, sent)) hnext fun j hj => ?_]
          rw [hsame j hj]
          exact hunmatched j (List.mem_cons_of_mem i hj) (hhead j hj)
        · rcases List.mem_cons.mp hj with rfl | hj
          · exact absurd hji (lt_irrefl _)
          · exact absurd hji (not_lt.mpr (hhead j hj).le)
      · have htext := hkeep (not_lt.mp hstamp)
        subst htext
        refine hrest (ih (r := (r.1, sent)) hnext htail ?_)
        intro j hj hname hpos hfirst longer hlonger l hl hjl
        rw [hsame j hj] at hname hpos hlonger
        rw [hsame l hl]
        refine hecho j (List.mem_cons_of_mem i hj) hname hpos (fun m hm hmj hmname => ?_) longer
          hlonger l (List.mem_cons_of_mem i hl) hjl
        rcases List.mem_cons.mp hm with rfl | hm
        · exact not_lt.mp hstamp
        · have hold := hfirst m hm hmj
          rw [hsame m hm] at hold
          exact hold hmname

theorem refreshed_bearsName {sock msgLen : Int} {tempx : Buffer 50} {r : State × List Effect}
    (h : listenTurn fixed2 s sock msgLen tempx now stray = some r)
    (hcmd : tempx.get 0 = CmdTypes.updateStatus.code)
    (hok : Unechoed fixed2 s (.command sock msgLen tempx now stray)) (k : Fin maxThreads) :
    r.1.pthreadsList k = s.pthreadsList k ∨
      BearsName s (.command sock msgLen tempx now stray) k := by
  rcases listenTurn_cases h with ⟨-, rfl⟩ | ⟨len, text, -, hunpack, hdispatch⟩
  · exact .inl (congrFun (noteWinClient_pthreadsList s _) k)
  rcases dispatch_cases hdispatch with ⟨hother, -⟩ | ⟨-, hr⟩ | ⟨hother, -⟩ | ⟨hother, -⟩ |
    ⟨hother, -⟩
  · exact absurd (hcmd.symm.trans hother) (by decide)
  · have hnamed := updateStatus_named hr (List.pairwise_lt_finRange maxThreads) (by
      intro i _ hname hstamp hfirst longer hlonger k _ hik
      rw [noteWinClient_pthreadsList] at *
      exact hok hcmd _ hunpack i hname hstamp (fun j => hfirst j (List.mem_finRange j)) longer
        hlonger k hik) k
    rw [noteWinClient_pthreadsList] at hnamed
    refine hnamed.imp_right fun hname => ⟨hcmd, ?_⟩
    rw [messageText, hunpack]
    exact sameText_iff.mp hname
  · exact absurd (hcmd.symm.trans hother) (by decide)
  · exact absurd (hcmd.symm.trans hother) (by decide)
  · exact absurd (.inr (.inl hcmd)) hother

theorem event_dirtyFlag {t : State} {e : Event} (h : step fixed2 s e = some t)
    (he : ∀ i, e ≠ .timerVisit i) (hok : Unechoed fixed2 s e) {k : Fin maxThreads}
    (hlive : t.Live k) :
    Joins s e k ∨ (¬ Joins s e k ∧ s.Live k ∧
      ((t.pthreadsList k).dirtyFlag = (s.pthreadsList k).dirtyFlag ∨ BearsName s e k)) := by
  cases e with
  | accept fd address =>
    obtain ⟨j, hacc⟩ := step_accept h
    have hnext := nextSlot_eq_some.mpr hacc.next
    by_cases hkj : k = j
    · exact .inl (hkj ▸ hnext)
    · rw [State.Live, hacc.kept k hkj] at hlive
      refine .inr ⟨fun hk => ?_, hlive, .inl (by rw [hacc.kept k hkj])⟩
      exact hkj (Option.some.inj (Eq.trans (Eq.symm hk) hnext))
  | listenStart sock now =>
    cases h
    refine .inr ⟨id, ?_, .inl ?_⟩
    · simp only [State.Live, listenStart] at hlive ⊢
      split at hlive <;> exact hlive
    · simp only [listenStart]
      split <;> rfl
  | logoffClient name =>
    cases h
    rw [State.Live, logoffClient_slot] at hlive
    split at hlive
    · exact absurd hlive (by simp [Threads.closed])
    · rename_i hkept
      exact .inr ⟨id, hlive, .inl (by rw [logoffClient_slot, if_neg hkept])⟩
  | timerVisit i => exact absurd rfl (he i)
  | command sock msgLen tempx now stray =>
    obtain ⟨r, hr, rfl⟩ := Option.map_eq_some_iff.mp h
    rw [State.Live] at hlive ⊢
    rcases command_slot hr k with ⟨-, -, name, -, hslot⟩ | ⟨-, hslot | ⟨hcmd, hslot⟩ | hslot⟩
    · rw [hslot] at hlive ⊢
      exact .inr ⟨id, hlive, .inl rfl⟩
    · rw [hslot] at hlive ⊢
      exact .inr ⟨id, hlive, .inl rfl⟩
    · refine .inr ⟨id, by rwa [hslot] at hlive, ?_⟩
      exact (refreshed_bearsName hr hcmd hok k).imp_left fun hsame => by rw [hsame]
    · rw [hslot] at hlive
      exact absurd hlive (by simp [Threads.wiped])

end Refreshed

/-- A live slot that was there when the sweep began has been visited iff the timer has passed
it, and a silent one carries a count of all its sweeps and of this visit. -/
def Counts (t : Threads) (r : Round) (passed : Bool) : Prop :=
  0 ≤ t.dirtyFlag ∧ (0 < t.sock → (r.joined = false → r.visited = passed) ∧
    (r.answered = false → r.joined = false ∧ r.silent + passed.toNat ≤ 1 ∧
      (r.silent : Int) + passed.toNat ≤ t.dirtyFlag))

def AllCounted (s : Sweeper) : Prop :=
  ∀ k, Counts (s.server.pthreadsList k) (s.rounds k) (k.val < s.position)

theorem firstSweep_allCounted (stack : Buffer 100) : AllCounted (firstSweep stack) := by
  intro k
  refine ⟨le_refl (0 : Int), fun hlive => ?_⟩
  have hdead : ¬ (0 : Int) < -1 := by decide
  exact absurd hlive hdead

section Steps

variable {fixed2 : Int → Nat → List UInt8}

private theorem event_counted {s : Sweeper} {t : State} {e : Event} (hs : AllCounted s)
    (he : ∀ i, e ≠ .timerVisit i) (hok : Unechoed fixed2 s.server e)
    (h : step fixed2 s.server e = some t) :
    AllCounted ⟨t, s.position, noteEvent s.server s.rounds e⟩ := by
  intro k
  refine ⟨(step_slotChange h k).dirtyFlag_nonneg (hs k).1, fun hlive => ?_⟩
  simp only [noteEvent]
  rcases event_dirtyFlag h he hok hlive with hjoin | ⟨hjoin, hbefore, hflag⟩
  · rw [if_pos hjoin]
    exact ⟨fun hold => Bool.noConfusion hold, fun hquiet => Bool.noConfusion hquiet⟩
  · obtain ⟨hvisited, hsilent⟩ := (hs k).2 hbefore
    rw [if_neg hjoin]
    by_cases hname : BearsName s.server e k
    · rw [if_pos hname]
      exact ⟨hvisited, fun hquiet => Bool.noConfusion hquiet⟩
    · rw [if_neg hname, hflag.resolve_right hname]
      exact ⟨hvisited, hsilent⟩

private theorem visit_counted {s : Sweeper} {t : State} {i : Fin maxThreads}
    (hs : AllCounted s) (hi : i.val = s.position) (hbelow : i.val < s.server.noThreads)
    (h : step fixed2 s.server (.timerVisit i) = some t) :
    AllCounted ⟨t, s.position + 1, noteVisit s.server s.rounds i⟩ := by
  intro k
  obtain ⟨hflag, hk⟩ := hs k
  have hothers (hki : k ≠ i) (hslot : t.pthreadsList k = s.server.pthreadsList k)
      (hlive : 0 < (t.pthreadsList k).sock) :
      ((noteVisit s.server s.rounds i k).joined = false →
        (noteVisit s.server s.rounds i k).visited = decide (k.val < s.position + 1)) ∧
      ((noteVisit s.server s.rounds i k).answered = false →
        (noteVisit s.server s.rounds i k).joined = false ∧
        (noteVisit s.server s.rounds i k).silent + (decide (k.val < s.position + 1)).toNat ≤ 1 ∧
        ((noteVisit s.server s.rounds i k).silent : Int) +
          (decide (k.val < s.position + 1)).toNat ≤ (t.pthreadsList k).dirtyFlag) := by
    have hval : k.val ≠ s.position := fun hkp => hki (Fin.ext (hkp.trans hi.symm))
    have hpassed : decide (k.val < s.position + 1) = decide (k.val < s.position) :=
      decide_eq_decide.mpr (by omega)
    rw [noteVisit, if_neg fun hvisit => hki hvisit.1, hpassed, hslot]
    exact hk (hslot ▸ hlive)
  refine ⟨(step_slotChange h k).dirtyFlag_nonneg hflag, fun hlive => ?_⟩
  obtain ⟨r, hr, rfl⟩ := Option.map_eq_some_iff.mp h
  rcases timerVisit_slot hr k with ⟨hnobody, hslot⟩ | ⟨-, hlive', hclean, hslot⟩ |
    ⟨-, hlive', hdirty, hslot⟩
  · refine hothers ?_ hslot hlive
    rintro rfl
    exact hnobody ⟨hbelow, by rwa [hslot] at hlive⟩
  · by_cases hki : k = i
    · subst hki
      rw [if_pos rfl] at hslot
      have hbefore : decide (k.val < s.position) = false := decide_eq_false (by omega)
      have hafter : decide (k.val < s.position + 1) = true := decide_eq_true (by omega)
      obtain ⟨-, hsilent⟩ := hk hlive'
      simp only [noteVisit, hafter, hslot]
      rw [if_pos ⟨trivial, hlive'⟩]
      refine ⟨fun _ => rfl, fun hanswer => ?_⟩
      obtain ⟨hjoined, -, hcount⟩ := hsilent hanswer
      rw [hbefore] at hcount
      simp only [Bool.toNat_false, Bool.toNat_true, Threads.counted] at hcount ⊢
      exact ⟨hjoined, by omega, by omega⟩
    · rw [if_neg hki] at hslot
      exact hothers hki hslot hlive
  · split at hslot
    · rw [hslot] at hlive
      exact absurd hlive (by simp [Threads.closed])
    · rename_i hother
      refine hothers ?_ hslot hlive
      rintro rfl
      exact hother ⟨rfl, hlive'⟩

/-- A sweep that ends at or above `no_threads` has passed every live slot. -/
private theorem BelowCounter.passed {s : State} (h : BelowCounter s) {position : Nat}
    (hend : s.noThreads ≤ position) {k : Fin maxThreads} (hlive : s.Live k) :
    decide (k.val < position) = true := by
  have hbelow := h k hlive
  apply decide_eq_true
  omega

private theorem next_counted {s : Sweeper} (hs : AllCounted s) {k : Fin maxThreads}
    (hlive : s.server.Live k) (hpassed : decide (k.val < s.position) = true) :
    (s.rounds k).next.silent ≤ 1 ∧
      ((s.rounds k).next.silent : Int) ≤ (s.server.pthreadsList k).dirtyFlag := by
  obtain ⟨hflag, hk⟩ := hs k
  cases hanswer : (s.rounds k).answered with
  | true =>
    simp only [Round.next, hanswer, if_true]
    exact ⟨Nat.zero_le 1, hflag⟩
  | false =>
    obtain ⟨hjoined, hone, hcount⟩ := (hk hlive).2 hanswer
    rw [hpassed, Bool.toNat_true] at hone hcount
    simp only [Round.next, hanswer, Bool.false_eq_true, if_false]
    exact ⟨hone, by omega⟩

private theorem sweepEnd_counted {s : Sweeper} (hs : AllCounted s)
    (hend : s.server.noThreads ≤ s.position) (hok : BelowCounter s.server) :
    AllCounted ⟨s.server, 0, fun k => (s.rounds k).next⟩ := by
  intro k
  refine ⟨(hs k).1, fun hlive => ⟨fun _ => rfl, fun _ => ⟨rfl, ?_⟩⟩⟩
  have hnext := next_counted hs hlive (hok.passed hend hlive)
  simpa using hnext

private theorem sweepStep_inv {s t : Sweeper} {a : Act} (hs : AllCounted s)
    (hok : Covers fixed2 s a) (h : sweepStep fixed2 s a = some t) : AllCounted t := by
  cases a with
  | tick =>
    simp only [sweepStep] at h
    split at h
    · rename_i hbelow
      obtain ⟨i, hi, h⟩ := Option.bind_eq_some_iff.mp h
      obtain ⟨u, hu, rfl⟩ := Option.map_eq_some_iff.mp h
      have hval := slotAt_eq_some.mp hi
      exact visit_counted hs hval (by rw [hval]; exact hbelow) hu
    · rename_i hend
      cases h
      exact sweepEnd_counted hs (not_lt.mp hend) (hok (not_lt.mp hend))
  | other e =>
    have he (i : Fin maxThreads) : e ≠ .timerVisit i := by
      rintro rfl
      cases h
    have hstep : (step fixed2 s.server e).map
        (fun t => Sweeper.mk t s.position (noteEvent s.server s.rounds e)) = some t := by
      cases e with
      | timerVisit i => exact absurd rfl (he i)
      | _ => exact h
    obtain ⟨u, hu, rfl⟩ := Option.map_eq_some_iff.mp hstep
    exact event_counted hs he hok hu

private theorem sweepComplete_of_covers {s : Sweeper} {a : Act} (hs : AllCounted s)
    (hok : Covers fixed2 s a) : SweepComplete s a := by
  cases a with
  | other e => trivial
  | tick =>
    intro hend k hlive
    have hpassed := (hok hend).passed hend hlive
    have hnext := next_counted hs hlive hpassed
    refine ⟨fun hjoined => ?_, Nat.lt_succ_of_le hnext.1⟩
    rw [((hs k).2 hlive).1 hjoined, hpassed]

end Steps

/-- In every run in which `no_threads` bounds the live slots whenever a sweep ends and no report
is echoed: every sweep visits every slot that stays taken, and a slot without an answer during
two whole sweeps is not live when the second one ends. -/
theorem sweeps_complete (fixed2 : Int → Nat → List UInt8) (stack : Buffer 100) (acts : List Act)
    (hok : AllSteps (sweepStep fixed2) (Covers fixed2) (firstSweep stack) acts) :
    AllSteps (sweepStep fixed2) SweepComplete (firstSweep stack) acts :=
  hok.of_inv (fun _ _ _ hs hgood hstep => sweepStep_inv hs hgood hstep)
    (fun _ _ hs hgood => sweepComplete_of_covers hs hgood) (firstSweep_allCounted stack)

/-- 154 registers as `A` and answers, 147 registers as `B` and is silent for two sweeps. -/
def lastSilent : List Act :=
  [.other (.accept 4 (ascii "192.168.88.154")), .other (.accept 5 (ascii "192.168.88.147")),
    .other (.command 4 1 (.padded 50 [72, 1, 65]) 0 0),
    .other (.command 5 1 (.padded 50 [72, 2, 66]) 0 0),
    .tick, .tick, .tick, .other (.command 4 1 (.padded 50 [62, 1, 65]) 600 0),
    .tick, .tick, .tick]

theorem sweeps_complete_last_silent :
    AllSteps (sweepStep fun _ _ => ascii "0.00") SweepComplete (firstSweep (Buffer.zero 100))
      lastSilent :=
  sweeps_complete _ _ _ (by decide +kernel)

/-- 154 registers as `A`, 146 disconnects 147, and the timer goes through three sweeps. -/
def leftBehind : List Act :=
  threeClients.map .other ++
    [.other (.command 4 1 (.padded 50 [72, 1, 65]) 0 0),
      .other (.command 6 0 (.padded 50 [54, 2]) 0 0),
      .tick, .tick, .tick, .tick, .tick, .tick, .tick]

/-- No sweep reaches slot 2 of 146, which stays live. -/
theorem slot_left_behind :
    AllSteps (sweepStep fun _ _ => ascii "0.00")
      (fun s a => (sweepStep (fun _ _ => ascii "0.00") s a).isSome)
      (firstSweep (Buffer.zero 100)) leftBehind ∧
    ¬ AllSteps (sweepStep fun _ _ => ascii "0.00") SweepComplete (firstSweep (Buffer.zero 100))
      leftBehind := by
  constructor
  · decide +kernel
  · decide +kernel

end TcpIot.Server
