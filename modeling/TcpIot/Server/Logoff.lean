import TcpIot.Server.SlotChange
import TcpIot.Server.Truncation

/-!
# Logging off one client

`timer_thread` and `listen_thread` decide to log off the client in one slot, but `logoff_client`
is given a name and closes every live slot that carries it.
-/

namespace TcpIot.Server

open Framework

/-- The client in slot `k` is logged off, and nobody else. -/
structure LogsOff (k : Fin maxThreads) (s : State) (r : State × List Effect) : Prop where
  closed : r.2 = [.close (s.pthreadsList k).sock]
  cleared : (r.1.pthreadsList k).sock = -1 ∧ (r.1.pthreadsList k).dest = -1
  counted : r.1.noThreads = s.noThreads - 1
  kept : ∀ j ≠ k, r.1.pthreadsList j = s.pthreadsList j

/-- `timer_thread` finds the client in slot `i` with a raised flag. -/
def TimesOut (s : State) (i : Fin maxThreads) : Prop :=
  i.val < s.noThreads ∧ s.Live i ∧ 1 < (s.pthreadsList i).dirtyFlag + 1

instance (s : State) (i : Fin maxThreads) : Decidable (TimesOut s i) :=
  inferInstanceAs (Decidable (_ ∧ _))

/-- The turn is one of the thread of the slot that it uses, and `get_msg` fails there. -/
def HeaderFails (w : Wired) (t : Reading) : Prop :=
  w.table.Live (w.index t) ∧ w.fd t = t.sock ∧ Ordinary w t ∧
    ¬ HeaderAccepted (w.fd t) t.stale (w.stream t)

def LogoffLaw (fixed2 : Int → Nat → List UInt8) (w : Wired) : WireEvent → Prop
  | .timerVisit i => TimesOut w.table i →
    ∃ r, timerVisit w.table i = some r ∧ LogsOff i w.table r
  | .turn t => HeaderFails w t →
    ∃ r, turn fixed2 w t = some r ∧ LogsOff (w.index t) w.table (r.1.table, r.2)
  | _ => True

/-- The condition: of the live slots the one that is meant carries the name, and no other. -/
def NamesOnly (s : State) (name : List UInt8) (k : Fin maxThreads) : Prop :=
  ∀ j, s.Named name j ↔ j = k

def LogoffSafe (w : Wired) : WireEvent → Prop
  | .timerVisit i => TimesOut w.table i →
    NamesOnly w.table (w.table.pthreadsList i).clientName.chars i
  | .turn t => HeaderFails w t → NamesOnly w.table t.strayName (w.index t)
  | _ => True

section Logoff

variable {s u : State} {name : List UInt8} {k : Fin maxThreads}

private theorem filter_eq_singleton {p : Fin maxThreads → Prop} [DecidablePred p]
    (h : ∀ j, p j ↔ j = k) : ((List.finRange maxThreads).filter fun j => p j) = [k] := by
  have hsame : ((List.finRange maxThreads).filter fun j => p j) =
      (List.finRange maxThreads).filter (· == k) := by
    refine List.filter_congr fun j _ => ?_
    rw [beq_eq_decide]
    exact decide_eq_decide.mpr (h j)
  rw [hsame, List.filter_beq, List.count_eq_one_of_mem (List.nodup_finRange maxThreads)
    (List.mem_finRange k)]
  rfl

/-- The law of one call, made in a table where at most the slot that is meant was touched before. -/
theorem logoffClient_logsOff_iff (hlive : s.Live k) (hnoThreads : u.noThreads = s.noThreads)
    (hsock : ∀ j, (u.pthreadsList j).sock = (s.pthreadsList j).sock)
    (hname : ∀ j, (u.pthreadsList j).clientName = (s.pthreadsList j).clientName)
    (hkept : ∀ j ≠ k, u.pthreadsList j = s.pthreadsList j) :
    LogsOff k s (logoffClient u name) ↔ NamesOnly s name k := by
  have hnamed (j : Fin maxThreads) : u.Named name j ↔ s.Named name j := by
    rw [State.Named, NamedLive, hsock, hname]
    rfl
  constructor
  · intro h j
    constructor
    · intro hj
      by_contra hne
      have hslot := h.kept j hne
      rw [logoffClient_slot, if_pos ((hnamed j).mpr hj)] at hslot
      have hpos : 0 < (s.pthreadsList j).sock := hj.2
      rw [← hslot] at hpos
      exact absurd hpos (show ¬ (0 : Int) < -1 by decide)
    · rintro rfl
      by_contra hnot
      have hcleared := h.cleared.1
      rw [logoffClient_slot, if_neg (mt (hnamed j).mp hnot), hsock] at hcleared
      rw [State.Live, hcleared] at hlive
      exact absurd hlive (by decide)
  · intro h
    have honly (j : Fin maxThreads) : u.Named name j ↔ j = k := (hnamed j).trans (h j)
    refine ⟨?_, ?_, ?_, fun j hj => ?_⟩
    · simp only [logoffClient, sweep_snd _ _ _ _ (List.nodup_finRange maxThreads)]
      change ((List.finRange maxThreads).filter fun j => u.Named name j).map _ = _
      rw [filter_eq_singleton honly, List.map_singleton, hsock]
    · rw [logoffClient_slot, if_pos ((honly k).mpr rfl)]
      exact ⟨rfl, rfl⟩
    · rw [logoffClient_noThreads, slotCount_eq_one honly, hnoThreads]
      rfl
    · rw [logoffClient_slot, if_neg (mt (honly j).mp hj), hkept j hj]

theorem timerVisit_timesOut {i : Fin maxThreads} (h : TimesOut s i) :
    ∃ buff, timerVisit s i = some (logoffClient
      { s.setSlot i (s.pthreadsList i).counted with buff := buff }
      (s.pthreadsList i).clientName.chars) := by
  set name := (s.pthreadsList i).clientName with hname
  have hfits := name.fits
  have hlength : (ascii " logged off").length = 11 := rfl
  obtain ⟨copied, hcopied, htext⟩ := Buffer.strcpy_fits (Buffer.zero 100)
    (show name.chars.length < 100 by omega)
  rw [Buffer.takeWhile_noNul name.noNul] at htext
  obtain ⟨buff, hbuff, -⟩ := Buffer.strcat_fits htext (t := ascii " logged off") (by decide)
    (by omega)
  refine ⟨buff, ?_⟩
  simp only [timerVisit]
  rw [if_pos ⟨h.1, h.2.1⟩, if_pos h.2.2, ← hname, hcopied, Option.bind_some, hbuff, Option.map_some]
  rfl

end Logoff

section Laws

variable {fixed2 : Int → Nat → List UInt8} {w : Wired}

private theorem timerVisit_law_iff {s : State} {i : Fin maxThreads} (h : TimesOut s i) :
    (∃ r, timerVisit s i = some r ∧ LogsOff i s r) ↔
      NamesOnly s (s.pthreadsList i).clientName.chars i := by
  obtain ⟨buff, hvisit⟩ := timerVisit_timesOut h
  have hslot (j : Fin maxThreads) :
      ((s.setSlot i (s.pthreadsList i).counted).pthreadsList j).sock = (s.pthreadsList j).sock ∧
      ((s.setSlot i (s.pthreadsList i).counted).pthreadsList j).clientName =
        (s.pthreadsList j).clientName := by
    by_cases hji : j = i
    · subst hji
      rw [setSlot_same]
      exact ⟨rfl, rfl⟩
    · rw [setSlot_ne s _ hji]
      exact ⟨rfl, rfl⟩
  rw [hvisit, ← @logoffClient_logsOff_iff s { s.setSlot i (s.pthreadsList i).counted with buff }
    _ i h.2.1 rfl (fun j => (hslot j).1) (fun j => (hslot j).2) fun j hj => setSlot_ne s _ hj]
  simp only [Option.some_inj, exists_eq_left']

private theorem turn_law_iff {t : Reading} (h : HeaderFails w t) :
    (∃ r, turn fixed2 w t = some r ∧ LogsOff (w.index t) w.table (r.1.table, r.2)) ↔
      NamesOnly w.table t.strayName (w.index t) := by
  have hturn : turn fixed2 w t = _ := (if_pos h.2.2.1).trans (turnNarrow_of_rejected h.2.2.2)
  rw [hturn, ← @logoffClient_logsOff_iff w.table w.table _ _ h.1 rfl (fun _ => rfl)
    (fun _ => rfl) fun _ _ => rfl]
  simp only [Option.some_inj, exists_eq_left']

/-- For every run, from any table and whatever the peers send: each logoff hits exactly the client
it is for if and only if at each logoff the name that is passed is that client's alone. -/
theorem logoff_hits_iff (fixed2 : Int → Nat → List UInt8) (w : Wired) (es : List WireEvent) :
    AllSteps (wireStep fixed2) (LogoffLaw fixed2) w es ↔
      AllSteps (wireStep fixed2) LogoffSafe w es := by
  refine allSteps_congr fun w e => ?_
  cases e with
  | timerVisit i => exact forall_congr' fun h => timerVisit_law_iff h
  | turn t => exact forall_congr' fun h => turn_law_iff h
  | accept newSocket address stream => exact Iff.rfl
  | listenStart sock now => exact Iff.rfl
  | logoffClient name => exact Iff.rfl

end Laws

/-- 154 and 147 connect and register no name; the timer visits both and comes back to 154 before an
answer. -/
def unnamedTimeout : List WireEvent :=
  [.accept 4 (ascii "192.168.88.154") [], .accept 5 (ascii "192.168.88.147") [],
    .timerVisit 0, .timerVisit 1, .timerVisit 0]

/-- The visit closes the connection of 147 as well. -/
theorem logoff_hits_unnamed :
    (exec (wireStep fun _ _ => ascii "0.00") ⟨init (Buffer.zero 100), fun _ => []⟩
      unnamedTimeout).map (fun w => ((w.table.pthreadsList 0).sock, (w.table.pthreadsList 1).sock,
        w.table.noThreads)) = some (-1, -1, 0) ∧
    ¬ AllSteps (wireStep fun _ _ => ascii "0.00") (LogoffLaw fun _ _ => ascii "0.00")
      ⟨init (Buffer.zero 100), fun _ => []⟩ unnamedTimeout := by
  refine ⟨by decide, fun h => ?_⟩
  obtain ⟨r, hr, hlaw⟩ := (((((h.2 _ rfl).2 _ rfl).2 _ rfl).2 _ rfl).1 (by decide))
  cases hr
  exact absurd hlaw.counted (by decide)

end TcpIot.Server
