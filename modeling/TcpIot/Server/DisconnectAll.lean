import TcpIot.Server.Routing
import TcpIot.Server.Truncation

/-!
# `DISCONNECT_ALL` and the connections after it

The command closes the live slots below `no_threads` and wipes them, but it leaves the counter
alone, and the counter says which slot the next connection gets.
-/

namespace TcpIot.Server

open Framework

/-- The next `MAX_THREADS` connections are stored in the slots from 0 on. -/
def FillsFromZero (fixed2 : Int → Nat → List UInt8) (s : State) : Prop :=
  ∀ conns : Fin maxThreads → Int × List UInt8, ∃ t,
    exec (step fixed2) s ((List.ofFn conns).map fun c => .accept c.1 c.2) = some t ∧
    ∀ k, (t.pthreadsList k).sock = (conns k).1 ∧ (t.pthreadsList k).ipadd = lastOctet (conns k).2

/-- Every client gets one `DISCONNECT` and is closed, and the table is as it was at the start. -/
structure DisconnectsAll (fixed2 : Int → Nat → List UInt8) (s : State) (r : State × List Effect) :
    Prop where
  sent : ∀ i, s.Live i → ∃ msgLen msg, r.2.filter (fun e => e.sock = (s.pthreadsList i).sock) =
    [.sendMsg (s.pthreadsList i).sock msgLen msg CmdTypes.disconnect.code,
      .close (s.pthreadsList i).sock]
  cleared : ∀ i, ¬ r.1.Live i ∧ (r.1.pthreadsList i).dest = -1 ∧
    (r.1.pthreadsList i).clientName.chars = []
  noThreads : r.1.noThreads = 0
  next : FillsFromZero fixed2 r.1

/-- The condition: the counter is at its start, and no slot has kept a name. -/
def Nobody (s : State) : Prop :=
  s.noThreads = 0 ∧ ∀ i, (s.pthreadsList i).clientName.chars = []

instance (s : State) : Decidable (Nobody s) := inferInstanceAs (Decidable (_ ∧ _))

section Accepts

variable {fixed2 : Int → Nat → List UInt8} {s : State}

theorem newSockThread_next {k : Fin maxThreads} (hnext : s.noThreads = k) (fd : Int)
    (address : List UInt8) :
    ∃ t, step fixed2 s (.accept fd address) = some t ∧ Accepted k fd address s t := by
  have hslot := nextSlot_eq_some.mpr hnext
  have hstep : (step fixed2 s (.accept fd address)).isSome := by
    rw [step, react, newSockThread, hslot]
    rfl
  obtain ⟨t, ht⟩ := Option.isSome_iff_exists.mp hstep
  obtain ⟨j, hacc⟩ := step_accept ht
  have hjk : j = k := Fin.ext (Int.natCast_inj.mp (hacc.next.symm.trans hnext))
  exact ⟨t, ht, hjk ▸ hacc⟩

theorem accepts_stored {n : Nat} (hn : s.noThreads = n) (conns : List (Int × List UInt8))
    (hroom : n + conns.length ≤ maxThreads) :
    ∃ t, exec (step fixed2) s (conns.map fun c => .accept c.1 c.2) = some t ∧
      (∀ k : Fin maxThreads, k.val < n → t.pthreadsList k = s.pthreadsList k) ∧
      ∀ (k : Fin maxThreads) (j : Nat), k.val = n + j → ∀ c, conns[j]? = some c →
        (t.pthreadsList k).sock = c.1 ∧ (t.pthreadsList k).ipadd = lastOctet c.2 := by
  induction conns generalizing s n with
  | nil => exact ⟨s, rfl, fun _ _ => rfl, nofun⟩
  | cons c conns ih =>
    rw [List.length_cons] at hroom
    obtain ⟨u, hu, hacc⟩ := @newSockThread_next fixed2 s ⟨n, by omega⟩ hn c.1 c.2
    have hnext : u.noThreads = (n + 1 : Nat) := by
      rw [hacc.noThreads, hn]
      rfl
    obtain ⟨t, ht, hlower, hstored⟩ := ih hnext (by omega)
    refine ⟨t, ?_, fun k hk => ?_, fun k j hkj c' hc' => ?_⟩
    · rw [List.map_cons, exec_cons, hu, Option.bind_some, ht]
    · rw [hlower k (by omega), hacc.kept k fun hkn => ?_]
      rw [hkn] at hk
      exact absurd hk (lt_irrefl _)
    · cases j with
      | zero =>
        cases hc'
        have hkn : k = ⟨n, by omega⟩ := Fin.ext hkj
        rw [hlower k (by omega), hkn, hacc.filled]
        exact ⟨rfl, rfl⟩
      | succ j => exact hstored k j (by omega) c' hc'

theorem fillsFromZero (h : s.noThreads = 0) : FillsFromZero fixed2 s := by
  intro conns
  obtain ⟨t, ht, -, hstored⟩ := @accepts_stored fixed2 s 0 h (List.ofFn conns)
    (by rw [List.length_ofFn, zero_add])
  refine ⟨t, ht, fun k => hstored k k (zero_add _).symm _ ?_⟩
  rw [List.getElem?_ofFn, dif_pos k.isLt]

end Accepts

section Command

variable {s : State} {msgLen : Int} {tempx : Buffer 50} {r : State × List Effect}

theorem dispatch_disconnectAll (fixed2 : Int → Nat → List UInt8) (s : State)
    (index : Fin maxThreads) (msgLen : Int) (text : Buffer 50) (dest : UInt8) (now stray : Int) :
    dispatch fixed2 s index msgLen text CmdTypes.disconnectAll.code dest now stray =
      disconnectAll s msgLen text := by
  rw [dispatch, if_neg (by decide), if_neg (fun h => absurd h.1 (by decide)), if_neg (by decide),
    if_neg (by decide), if_pos rfl]

theorem disconnectAll_noThreads (h : disconnectAll s msgLen tempx = some r) :
    r.1.noThreads = s.noThreads := by
  unfold disconnectAll at h
  split at h
  · cases h
    rfl
  · cases h

theorem disconnectAll_idle (h : disconnectAll s msgLen tempx = some r) (hzero : s.noThreads = 0) :
    r.1.pthreadsList = s.pthreadsList := by
  unfold disconnectAll at h
  split at h
  · cases h
    dsimp only
    rw [sweep_fst _ _ _ _ (List.nodup_finRange maxThreads)]
    funext k
    refine if_neg fun hk => ?_
    have hbelow := hk.2.1
    omega
  · cases h

private theorem flatMap_single {α β : Type*} [DecidableEq α] {f : α → List β} {l : List α}
    (hn : l.Nodup) {a : α} (hf : ∀ b ∈ l, b ≠ a → f b = []) :
    l.flatMap f = if a ∈ l then f a else [] := by
  induction l with
  | nil => rfl
  | cons b l ih =>
    obtain ⟨hb, hl⟩ := List.nodup_cons.mp hn
    rw [List.flatMap_cons, ih hl fun c hc => hf c (List.mem_cons_of_mem b hc)]
    by_cases hab : a = b
    · subst hab
      rw [if_neg hb, if_pos List.mem_cons_self, List.append_nil]
    · rw [hf b List.mem_cons_self (Ne.symm hab), List.nil_append]
      simp only [List.mem_cons, hab, false_or]

/-- Of the live clients, those below the counter are sent a `DISCONNECT` and closed, and the others
nothing. -/
theorem disconnectAll_reaches (hs : Wellformed s) (h : disconnectAll s msgLen tempx = some r)
    {i : Fin maxThreads} (hi : s.Live i) :
    r.2.filter (fun e => e.sock = (s.pthreadsList i).sock) =
      if i.val < s.noThreads then
        [.sendMsg (s.pthreadsList i).sock msgLen.toNat tempx.bytes CmdTypes.disconnect.code,
          .close (s.pthreadsList i).sock]
      else [] := by
  unfold disconnectAll at h
  split at h
  · cases h
    dsimp only
    rw [sweep_snd _ _ _ _ (List.nodup_finRange maxThreads), List.filter_flatMap,
      flatMap_single (a := i) ((List.nodup_finRange maxThreads).filter _)]
    · have hmem : i ∈ (List.finRange maxThreads).filter
          (fun i => BelowLive s i (s.pthreadsList i)) ↔ i.val < s.noThreads := by
        rw [List.mem_filter, decide_eq_true_iff]
        exact ⟨fun h => h.2.1, fun h => ⟨List.mem_finRange i, h, hi⟩⟩
      by_cases hbelow : i.val < s.noThreads
      · rw [if_pos (hmem.mpr hbelow), if_pos hbelow]
        simp [Effect.sock]
      · rw [if_neg (mt hmem.mp hbelow), if_neg hbelow]
    · intro j _ hji
      have hne : (s.pthreadsList j).sock ≠ (s.pthreadsList i).sock :=
        fun hsame => hji (hs.distinct i j hi hsame)
      simp [Effect.sock, hne]
  · cases h

private theorem nobody_live (hs : Wellformed s) (hzero : s.noThreads = 0) (i : Fin maxThreads) :
    ¬ s.Live i := by
  have hcounted := hs.counted
  exact slotCount_eq_zero_iff.mp (show slotCount s.Live = 0 by omega) i

/-- The counter that the command leaves alone has to be at its start before. -/
private theorem disconnectsAll_iff (fixed2 : Int → Nat → List UInt8) (hs : Wellformed s)
    {index : Fin maxThreads} (h : disconnectAll (noteWinClient s index) msgLen tempx = some r) :
    DisconnectsAll fixed2 s r ↔ Nobody s := by
  have hcount := disconnectAll_noThreads h
  rw [noteWinClient_noThreads] at hcount
  have hidle (hzero : s.noThreads = 0) : r.1.pthreadsList = s.pthreadsList := by
    rw [disconnectAll_idle h (by rw [noteWinClient_noThreads, hzero]), noteWinClient_pthreadsList]
  constructor
  · intro hlaw
    have hzero : s.noThreads = 0 := hcount.symm.trans hlaw.noThreads
    refine ⟨hzero, fun i => ?_⟩
    have hname := (hlaw.cleared i).2.2
    rwa [hidle hzero] at hname
  · rintro ⟨hzero, hnames⟩
    have hdead := nobody_live hs hzero
    refine ⟨fun i hi => absurd hi (hdead i), fun i => ?_, hcount.trans hzero,
      fillsFromZero (hcount.trans hzero)⟩
    rw [State.Live, hidle hzero]
    exact ⟨hdead i, (hs.dead i (hdead i)).2, hnames i⟩

end Command

/-- From every reachable state: the command disconnects everybody and leaves the table as at the
start if and only if its text is read inside its buffers and there is nobody to disconnect. -/
theorem disconnectAll_law_iff {fixed2 : Int → Nat → List UInt8} {stack : Buffer 100} {s : State}
    (hreach : Reachable (step fixed2) Feasible (init stack) s) (sock msgLen : Int)
    {tempx : Buffer 50} (hcmd : tempx.get 0 = CmdTypes.disconnectAll.code) (now stray : Int) :
    (∃ r, react fixed2 s (.command sock msgLen tempx now stray) = some r ∧
      DisconnectsAll fixed2 s r) ↔
    (unpack (s.pthreadsList (lookupIndex s sock)).winCl msgLen tempx).isSome ∧ Nobody s := by
  have hs := reachable_wellformed hreach
  have hrange : CmdInRange CmdTypes.disconnectAll.code := by decide
  rw [react_command fixed2 (hcmd ▸ hrange), hcmd]
  cases hunpack : unpack (s.pthreadsList (lookupIndex s sock)).winCl msgLen tempx with
  | none =>
    refine iff_of_false ?_ ?_
    · rintro ⟨r, hr, -⟩
      cases hr
    · rintro ⟨hsome, -⟩
      cases hsome
  | some m =>
    obtain ⟨len, dest, text⟩ := m
    rw [Option.isSome_some, Option.bind_some, and_iff_right rfl, dispatch_disconnectAll]
    have hsome : (disconnectAll (noteWinClient s (lookupIndex s sock)) len text).isSome := by
      rw [disconnectAll, if_pos (by rw [noteWinClient_noThreads]; exact hs.inTable)]
      rfl
    obtain ⟨r, hr⟩ := Option.isSome_iff_exists.mp hsome
    simp only [hr, Option.some_inj, exists_eq_left']
    exact disconnectsAll_iff fixed2 hs hr

/-- 154 and 147 are connected in slots 0 and 1. -/
def twoConnected : State :=
  (exec (step fun _ _ => ascii "0.00") (init (Buffer.zero 100))
    [.accept 4 (ascii "192.168.88.154"), .accept 5 (ascii "192.168.88.147")]).getD
    (init (Buffer.zero 100))

theorem twoConnected_reachable :
    Reachable (step fun _ _ => ascii "0.00") Feasible (init (Buffer.zero 100)) twoConnected :=
  ⟨[.accept 4 (ascii "192.168.88.154"), .accept 5 (ascii "192.168.88.147")], by decide, by decide⟩

/-- 147 sends the message while both are connected. -/
theorem disconnectAll_law_iff_two_connected :
    (∃ r, react (fun _ _ => ascii "0.00") twoConnected
        (.command 5 1 (.padded 50 [CmdTypes.disconnectAll.code, 1, 65]) 0 0) = some r ∧
      DisconnectsAll (fun _ _ => ascii "0.00") twoConnected r) ↔
    (unpack (twoConnected.pthreadsList (lookupIndex twoConnected 5)).winCl 1
      (.padded 50 [CmdTypes.disconnectAll.code, 1, 65])).isSome ∧ Nobody twoConnected :=
  disconnectAll_law_iff twoConnected_reachable 5 1 (by decide) 0 0

/-- After the message both slots are free and still counted: the next connection is stored in
slot 2. -/
theorem disconnectAll_keeps_counting :
    Reachable (step fun _ _ => ascii "0.00") Feasible (init (Buffer.zero 100)) twoConnected ∧
    twoConnected.Live 0 ∧ twoConnected.Live 1 ∧
    ∃ r, react (fun _ _ => ascii "0.00") twoConnected
        (.command 5 1 (.padded 50 [CmdTypes.disconnectAll.code, 1, 65]) 0 0) = some r ∧
      (∀ i, ¬ r.1.Live i) ∧ r.1.noThreads = 2 ∧ nextSlot r.1 = some 2 ∧
      ¬ DisconnectsAll (fun _ _ => ascii "0.00") twoConnected r := by
  refine ⟨twoConnected_reachable, by decide, by decide, _, rfl, by decide, by decide, by decide,
    fun hlaw => ?_⟩
  exact absurd hlaw.noThreads (by decide)

end TcpIot.Server
