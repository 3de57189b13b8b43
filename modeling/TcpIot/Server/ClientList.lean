import TcpIot.Server.Routing
import TcpIot.Server.SlotChange
import TcpIot.Server.Text

/-!
# `SEND_CLIENT_LIST`

The list of the ordinary clients goes to the slot in `win_cl_index`, which is set once and only
counts as set above slot 0. Otherwise the command falls through to the relay branch.
-/

namespace TcpIot.Server

open Framework

/-- A connected client that is not the Windows client. -/
def State.Ordinary (s : State) (i : Fin maxThreads) : Prop :=
  s.Live i ∧ (s.pthreadsList i).winCl ≠ 1

instance (s : State) : DecidablePred s.Ordinary := fun _ => inferInstanceAs (Decidable (_ ∧ _))

/-- The entry of slot `i`, sent to the client in slot `w`. -/
def EntryFrame (s : State) (w i : Fin maxThreads) (e : Effect) : Prop :=
  ∃ after, e = .sendMsgb (s.pthreadsList w).sock (2 * (clientEntry (s.pthreadsList i)).length)
    (clientEntry (s.pthreadsList i) ++ 0 :: after) CmdTypes.sendClientList.code

/-- The client in slot `w` is sent one entry for each ordinary client, and nobody anything else. -/
def ListsClients (s : State) (w : Fin maxThreads) (sent : List Effect) : Prop :=
  List.Forall₂ (EntryFrame s w) ((List.finRange maxThreads).filter s.Ordinary) sent

/-- `accept` returns an `int`. -/
def IntDescriptor : Event → Prop
  | .accept newSocket _ => newSocket < 2 ^ 31
  | _ => True

instance : DecidablePred IntDescriptor
  | .accept _ _ => inferInstanceAs (Decidable (_ < _))
  | .listenStart _ _ | .command _ _ _ _ _ | .logoffClient _ | .timerVisit _ => isTrue trivial

/-- The fields of a slot that are printed, and the mark of the Windows client. -/
structure Listed (t : Threads) : Prop where
  winCl : t.winCl = 0 ∨ t.winCl = 1
  ipadd : t.ipadd.length ≤ 3
  dest : -1 ≤ t.dest ∧ t.dest ≤ 5

structure ListReady (s : State) : Prop where
  slots : ∀ i, Listed (s.pthreadsList i)
  highest : s.highestSock < 2 ^ 31
  index : -1 ≤ s.winClIndex ∧ s.winClIndex < maxThreads

theorem lastOctet_length_le (address : List UInt8) : (lastOctet address).length ≤ 3 :=
  ((List.takeWhile_sublist _).length_le).trans (List.length_take_le 3 _)

theorem destOf_bounds {octet : List UInt8} {old : Int} (h : -1 ≤ old ∧ old ≤ 5) :
    -1 ≤ destOf octet old ∧ destOf octet old ≤ 5 := by
  unfold destOf
  split_ifs
  all_goals omega

theorem SlotChange.listed {a b : Threads} (h : SlotChange a b) (ha : Listed a) : Listed b := by
  cases h with
  | registered fd address =>
    refine ⟨?_, lastOctet_length_le address, destOf_bounds ha.dest⟩
    rw [Server.registered]
    split
    · exact .inr rfl
    · exact .inl rfl
  | closed | timedOut | wiped =>
    have hcleared : (-1 : Int) ≤ -1 ∧ (-1 : Int) ≤ 5 := by decide
    exact ⟨ha.winCl, ha.ipadd, hcleared⟩
  | _ => exact ⟨ha.winCl, ha.ipadd, ha.dest⟩

theorem clientEntry_fits {t : Threads} (h : Listed t) (hsock : -1 ≤ t.sock ∧ t.sock < 2 ^ 31) :
    (clientEntry t).length < 50 := by
  have hdest : (decimal t.dest).length ≤ 1 + 1 := by
    have hbounds := h.dest
    rw [decimal_length_le (by decide)]
    omega
  have hnumber : (decimal t.sock).length ≤ 10 + 1 := by
    rw [decimal_length_le (by decide)]
    omega
  have hipadd := h.ipadd
  simp only [clientEntry, List.length_append, List.length_singleton]
  omega

section Index

variable {fixed2 : Int → Nat → List UInt8} {s t : State} {now stray msgLen : Int}
  {tempx : Buffer 50} {r : State × List Effect}

private theorem updateStatus_winClIndex {is : List (Fin maxThreads)}
    (h : updateStatus fixed2 now stray is s tempx = some r) : r.1.winClIndex = s.winClIndex := by
  induction is generalizing s tempx r with
  | nil =>
    cases h
    rfl
  | cons i is ih =>
    rcases updateStatus_cons h with ⟨-, hnext⟩ | ⟨-, text, sent, hnext, -⟩
    · exact ih hnext
    · have hrec := ih hnext
      exact hrec

private theorem dispatch_winClIndex {index : Fin maxThreads} {cmd dest : UInt8}
    (h : dispatch fixed2 s index msgLen tempx cmd dest now stray = some r) :
    r.1.winClIndex = s.winClIndex := by
  rcases dispatch_cases h with ⟨-, hr⟩ | ⟨-, hr⟩ | ⟨-, hr⟩ | ⟨-, hr⟩ | ⟨-, hr⟩
  · obtain ⟨name, -, hname⟩ := Option.map_eq_some_iff.mp hr
    rw [← hname]
    rfl
  · exact updateStatus_winClIndex hr
  · unfold disconnectAll at hr
    split at hr
    · cases hr
      rfl
    · cases hr
  · simp only [disconnect] at hr
    split at hr
    · obtain ⟨k, -, hk⟩ := Option.map_eq_some_iff.mp hr
      split at hk
      · subst hk
        rfl
      · subst hk
        rfl
    · cases hr
      rfl
  · rw [hr]

theorem step_winClIndex {e : Event} (h : step fixed2 s e = some t) :
    t.winClIndex = s.winClIndex ∨ ∃ k : Fin maxThreads, t.winClIndex = k := by
  obtain ⟨r, hr, rfl⟩ := Option.map_eq_some_iff.mp h
  cases e with
  | accept fd address =>
    obtain ⟨u, hu, rfl⟩ := Option.map_eq_some_iff.mp hr
    obtain ⟨k, -, rfl⟩ := Option.map_eq_some_iff.mp hu
    exact .inl rfl
  | listenStart sock now =>
    cases hr
    exact .inl rfl
  | command sock msgLen tempx now stray =>
    have hnote : (noteWinClient s (lookupIndex s sock)).winClIndex = s.winClIndex ∨
        ∃ k : Fin maxThreads, (noteWinClient s (lookupIndex s sock)).winClIndex = k := by
      unfold noteWinClient
      split
      · exact .inr ⟨_, rfl⟩
      · exact .inl rfl
    rcases listenTurn_cases hr with ⟨-, rfl⟩ | ⟨len, text, -, -, hdispatch⟩
    · exact hnote
    · rwa [dispatch_winClIndex hdispatch]
  | logoffClient name =>
    cases hr
    exact .inl rfl
  | timerVisit i =>
    simp only [react, timerVisit] at hr
    split at hr
    · split at hr
      · obtain ⟨buff, -, rfl⟩ := Option.map_eq_some_iff.mp hr
        exact .inl rfl
      · obtain ⟨text, -, rfl⟩ := Option.map_eq_some_iff.mp hr
        exact .inl rfl
    · cases hr
      exact .inl rfl

theorem step_highestSock {e : Event} (h : step fixed2 s e = some t) (hint : IntDescriptor e)
    (hs : s.highestSock < 2 ^ 31) : t.highestSock < 2 ^ 31 := by
  by_cases hacc : ∃ fd address, e = .accept fd address
  · obtain ⟨fd, address, rfl⟩ := hacc
    obtain ⟨k, hk⟩ := step_accept h
    rw [hk.highestSock]
    exact max_lt hint hs
  · rw [(step_freed h fun fd address he => hacc ⟨fd, address, he⟩).highestSock]
    exact hs

theorem init_listReady (stack : Buffer 100) : ListReady (init stack) := by
  have hempty : Listed emptySlot := ⟨.inl rfl, Nat.zero_le 3, by decide⟩
  refine ⟨fun _ => hempty, ?_, ?_⟩
  · show (0 : Int) < 2 ^ 31
    decide
  · show (-1 : Int) ≤ -1 ∧ (-1 : Int) < 7
    decide

theorem ListReady.step {e : Event} (hs : ListReady s) (hint : IntDescriptor e)
    (h : step fixed2 s e = some t) : ListReady t := by
  refine ⟨fun i => (step_slotChange h i).listed (hs.slots i),
    step_highestSock h hint hs.highest, ?_⟩
  rcases step_winClIndex h with hkept | ⟨k, hk⟩
  · rw [hkept]
    exact hs.index
  · have hlt := k.isLt
    rw [hk]
    omega

end Index

/-- `win_cl_index` is the slot of the client, or this turn makes it so, and it is not slot 0. -/
def ListServed (s : State) (index w : Fin maxThreads) : Prop :=
  0 < w ∧ (s.winClIndex = w ∨ (s.winClIndex < 0 ∧ index = w))

instance (s : State) (index w : Fin maxThreads) : Decidable (ListServed s index w) :=
  inferInstanceAs (Decidable (_ ∧ _))

/-- `win_cl_index` does not come above 0, and the relay branch finds a slot to pass the command
on to. -/
def ListRelayed (s : State) (index : Fin maxThreads) (dest : UInt8) : Prop :=
  s.winClIndex ≤ 0 ∧ ¬ ((s.pthreadsList index).winCl = 1 ∧ s.winClIndex < 0) ∧
    getDest s dest.toNat < s.noThreads ∧ s.Live index ∧ 0 < index

instance (s : State) (index : Fin maxThreads) (dest : UInt8) :
    Decidable (ListRelayed s index dest) := inferInstanceAs (Decidable (_ ∧ _))

section Branches

variable {fixed2 : Int → Nat → List UInt8} {s : State} {v w : Fin maxThreads}

theorem sendClientList_entries {stray : Int} {u : State} (hslots : u.pthreadsList = s.pthreadsList)
    (hsock : winClientSock u stray = (s.pthreadsList v).sock)
    (hlisted : ∀ i, Listed (s.pthreadsList i))
    (hfits : ∀ i, (clientEntry (s.pthreadsList i)).length < 50) (is : List (Fin maxThreads))
    (tempx : Buffer 50) :
    ∃ sent, sendClientList u CmdTypes.sendClientList.code stray is tempx = some sent ∧
      List.Forall₂ (EntryFrame s v) (is.filter s.Ordinary) sent := by
  induction is generalizing tempx with
  | nil => exact ⟨[], rfl, .nil⟩
  | cons i is ih =>
    have hmark : s.Ordinary i ↔ 0 < (s.pthreadsList i).sock ∧ (s.pthreadsList i).winCl = 0 := by
      refine and_congr_right fun _ => ?_
      rcases (hlisted i).winCl with hzero | hone
      · rw [hzero]
        decide
      · rw [hone]
        decide
    simp only [sendClientList, hslots, hsock]
    by_cases hi : s.Ordinary i
    · have hfilter : (i :: is).filter s.Ordinary = i :: is.filter s.Ordinary :=
        List.filter_cons_of_pos (decide_eq_true hi)
      rw [if_pos (hmark.mp hi), hfilter]
      obtain ⟨copied, hcopied, hbytes⟩ := tempx.strcpy_bytes (hfits i)
      obtain ⟨sent, hsent, hall⟩ := ih copied
      rw [hcopied, Option.bind_some, hsent]
      exact ⟨_, rfl, .cons ⟨_, by rw [hbytes]⟩ hall⟩
    · have hfilter : (i :: is).filter s.Ordinary = is.filter s.Ordinary :=
        List.filter_cons_of_neg (by rwa [decide_eq_true_iff])
      rw [if_neg (mt hmark.mpr hi), hfilter]
      exact ih tempx

private theorem entries_iff {is : List (Fin maxThreads)} {sent : List Effect}
    (h : List.Forall₂ (EntryFrame s v) is sent) :
    List.Forall₂ (EntryFrame s w) is sent ↔
      is = [] ∨ (s.pthreadsList v).sock = (s.pthreadsList w).sock := by
  constructor
  · intro hlaw
    cases h with
    | nil => exact .inl rfl
    | cons hv _ =>
      obtain ⟨_, rfl⟩ := hv
      obtain ⟨⟨_, hw⟩, -⟩ := List.forall₂_cons.mp hlaw
      rw [Effect.sendMsgb.injEq] at hw
      exact .inr hw.1
  · rintro (rfl | hsame)
    · cases h
      exact .nil
    · refine h.imp fun i e => ?_
      rintro ⟨after, rfl⟩
      exact ⟨after, by rw [hsame]⟩

private theorem relay_entries_iff {index : Fin maxThreads} {len : Int} {text : Buffer 50}
    {cmd dest : UInt8} {is : List (Fin maxThreads)} {sent : List Effect}
    (h : relay s index len text cmd dest = some sent) :
    List.Forall₂ (EntryFrame s w) is sent ↔
      is = [] ∧ ¬ (getDest s dest.toNat < s.noThreads ∧ s.Live index ∧ 0 < index) := by
  simp only [relay] at h
  split at h
  · rename_i hguard
    obtain ⟨k, -, rfl⟩ := Option.map_eq_some_iff.mp h
    refine iff_of_false (fun hlaw => ?_) fun hno => hno.2 hguard
    cases hlaw with
    | cons hentry _ =>
      obtain ⟨_, hframe⟩ := hentry
      cases hframe
  · rename_i hguard
    cases h
    rw [List.forall₂_nil_right_iff]
    exact (and_iff_left hguard).symm

theorem noteWinClient_winClIndex (s : State) (index : Fin maxThreads) :
    (noteWinClient s index).winClIndex =
      if (s.pthreadsList index).winCl = 1 ∧ s.winClIndex < 0 then (index.val : Int)
      else s.winClIndex := by
  unfold noteWinClient
  split <;> rfl

private theorem noOrdinary_iff :
    (List.finRange maxThreads).filter s.Ordinary = [] ↔ ∀ i, ¬ s.Ordinary i := by
  simp only [List.filter_eq_nil_iff, List.mem_finRange, true_imp_iff, decide_eq_true_iff]

/-- The list is sent to the slot in `win_cl_index`, whatever slot that is. -/
private theorem listBranch_iff (hs : Wellformed s) (hready : ListReady s) (hw : s.Live w)
    {index : Fin maxThreads} (hpos : 0 < (noteWinClient s index).winClIndex) (dest : UInt8)
    (stray : Int) (text : Buffer 50) :
    ∃ sent, sendClientList (noteWinClient s index) CmdTypes.sendClientList.code stray
        (List.finRange maxThreads) text = some sent ∧
      (ListsClients s w sent ↔ ListServed s index w ∨
        ((∀ i, ¬ s.Ordinary i) ∧ ¬ ListRelayed s index dest)) := by
  have hnote := noteWinClient_winClIndex s index
  have hbounds := hready.index
  obtain ⟨v, hv⟩ : ∃ v : Fin maxThreads, (noteWinClient s index).winClIndex = v := by
    split at hnote
    · exact ⟨index, hnote⟩
    · exact ⟨⟨s.winClIndex.toNat, by omega⟩, by dsimp only; omega⟩
  have hsock : winClientSock (noteWinClient s index) stray = (s.pthreadsList v).sock := by
    have hlt := v.isLt
    simp only [winClientSock, hv]
    rw [dif_pos (by omega), noteWinClient_pthreadsList]
    rfl
  have hfits (i : Fin maxThreads) : (clientEntry (s.pthreadsList i)).length < 50 := by
    refine clientEntry_fits (hready.slots i) ⟨?_, (hs.highest i).trans_lt hready.highest⟩
    by_cases hlive : s.Live i
    · have hopen : 0 < (s.pthreadsList i).sock := hlive
      omega
    · exact (hs.dead i hlive).1.ge
  obtain ⟨sent, hsent, hall⟩ := sendClientList_entries (noteWinClient_pthreadsList s index) hsock
    hready.slots hfits (List.finRange maxThreads) text
  refine ⟨sent, hsent, ?_⟩
  rw [ListsClients, entries_iff hall, noOrdinary_iff, or_comm]
  have hserved : (s.pthreadsList v).sock = (s.pthreadsList w).sock ↔ ListServed s index w := by
    have hsame : (s.pthreadsList v).sock = (s.pthreadsList w).sock ↔ v = w :=
      ⟨hs.distinct w v hw, fun h => by rw [h]⟩
    have hfirst : (0 : Fin maxThreads).val = 0 := rfl
    rw [hsame, ListServed, Fin.ext_iff, Fin.ext_iff, Fin.lt_def]
    split at hnote <;> omega
  have hrelayed : ¬ ListRelayed s index dest := by
    rintro ⟨hle, hunset, -⟩
    rw [if_neg hunset] at hnote
    omega
  rw [hserved, and_iff_left hrelayed]

private theorem relayBranch_iff (hwin : (s.pthreadsList w).winCl = 1) {index : Fin maxThreads}
    (hpos : ¬ 0 < (noteWinClient s index).winClIndex) {len : Int} {text : Buffer 50}
    {cmd dest : UInt8} {sent : List Effect} (h : relay s index len text cmd dest = some sent) :
    ListsClients s w sent ↔ ListServed s index w ∨
      ((∀ i, ¬ s.Ordinary i) ∧ ¬ ListRelayed s index dest) := by
  have hnote := noteWinClient_winClIndex s index
  have hserved : ¬ ListServed s index w := by
    rintro ⟨hzero, hindex | ⟨hunset, rfl⟩⟩
    · rw [Fin.lt_def] at hzero
      rw [if_neg fun h => by omega] at hnote
      omega
    · rw [Fin.lt_def] at hzero
      rw [if_pos ⟨hwin, hunset⟩] at hnote
      omega
  have hrelayed : ListRelayed s index dest ↔
      getDest s dest.toNat < s.noThreads ∧ s.Live index ∧ 0 < index := by
    constructor
    · exact fun h => h.2.2
    · intro hguard
      have hzero := Fin.lt_def.mp hguard.2.2
      by_cases hset : (s.pthreadsList index).winCl = 1 ∧ s.winClIndex < 0
      · rw [if_pos hset] at hnote
        omega
      · rw [if_neg hset] at hnote
        exact ⟨by omega, hset, hguard⟩
  rw [ListsClients, relay_entries_iff h, noOrdinary_iff, or_iff_right hserved, hrelayed]

end Branches

/-- For every reachable state, every connected Windows client, in whatever slot, and every sender
of the command: the list is sent to that client as asked if and only if the text is read inside its
buffers, and `win_cl_index` gives the client's slot above 0, or there is nobody to list and the
command is not passed on. -/
theorem clientList_iff {fixed2 : Int → Nat → List UInt8} {stack : Buffer 100} {s : State}
    (hreach : Reachable (step fixed2) (fun s e => Feasible s e ∧ IntDescriptor e) (init stack) s)
    {w : Fin maxThreads} (hw : s.Live w) (hwin : (s.pthreadsList w).winCl = 1) (sock msgLen : Int)
    {tempx : Buffer 50} (hcmd : tempx.get 0 = CmdTypes.sendClientList.code) (now stray : Int) :
    (∃ r, react fixed2 s (.command sock msgLen tempx now stray) = some r ∧
      ListsClients s w r.2) ↔
    (unpack (s.pthreadsList (lookupIndex s sock)).winCl msgLen tempx).isSome ∧
      (ListServed s (lookupIndex s sock) w ∨ ((∀ i, ¬ s.Ordinary i) ∧
        ¬ ListRelayed s (lookupIndex s sock) (commandDest s sock tempx))) := by
  have hs : Wellformed s := hreach.inv
    (fun _ _ _ hs hgood hstep => hs.step hgood.1 hstep) (init_wellformed stack)
  have hready : ListReady s := hreach.inv
    (fun _ _ _ hs hgood hstep => hs.step hgood.2 hstep) (init_listReady stack)
  have hrange : CmdInRange CmdTypes.sendClientList.code := by decide
  set index := lookupIndex s sock with hindex
  rw [react_command fixed2 (hcmd ▸ hrange), hcmd, ← hindex]
  cases hunpack : unpack (s.pthreadsList index).winCl msgLen tempx with
  | none =>
    refine iff_of_false ?_ ?_
    · rintro ⟨r, hr, -⟩
      cases hr
    · rintro ⟨hsome, -⟩
      cases hsome
  | some m =>
    obtain ⟨len, dest, text⟩ := m
    have hdest : dest = commandDest s sock tempx := unpack_dest hunpack
    subst hdest
    rw [Option.isSome_some, Option.bind_some, and_iff_right rfl]
    dsimp only
    -- The test of the branch comes after this turn's own update of `win_cl_index`.
    by_cases hpos : 0 < (noteWinClient s index).winClIndex
    · obtain ⟨sent, hsent, hiff⟩ := listBranch_iff hs hready hw hpos (commandDest s sock tempx)
        stray text
      rw [dispatch, if_neg (by decide), if_pos ⟨rfl, hpos⟩, hsent, Option.map_some]
      simp only [Option.some_inj, exists_eq_left']
      exact hiff
    · have hfalls : FallsThrough (noteWinClient s index) CmdTypes.sendClientList.code :=
        ⟨hrange, by decide, by decide, by decide, fun h => hpos h.2⟩
      rw [dispatch_fallsThrough hfalls, relay_noteWinClient]
      obtain ⟨sent, hsent⟩ := Option.isSome_iff_exists.mp
        (relay_isSome hs index len text CmdTypes.sendClientList.code (commandDest s sock tempx))
      rw [hsent, Option.map_some]
      simp only [Option.some_inj, exists_eq_left']
      exact relayBranch_iff hwin hpos hsent

/-- 154 connects first and the Windows client second. -/
def windowsSecond : State :=
  (exec (step fun _ _ => ascii "0.00") (init (Buffer.zero 100))
    [.accept 4 (ascii "192.168.88.154"), .accept 5 (ascii "192.168.88.158")]).getD
    (init (Buffer.zero 100))

/-- The Windows client asks for the list itself. -/
theorem clientList_windows_second :
    ∃ r, react (fun _ _ => ascii "0.00") windowsSecond
        (.command 5 8 (.padded 50 [CmdTypes.sendClientList.code, 0, 1]) 0 0) = some r ∧
      ListsClients windowsSecond 1 r.2 :=
  (@clientList_iff _ (Buffer.zero 100) windowsSecond
    ⟨[.accept 4 (ascii "192.168.88.154"), .accept 5 (ascii "192.168.88.158")], by decide, by decide⟩
    1 (by decide) (by decide) 5 8 _ (by decide) 0 0).mpr (by decide)

/-- The Windows client is the first to connect, and is sent nothing about 154. -/
theorem clientList_windows_first : ∃ s,
    Reachable (step fun _ _ => ascii "0.00") (fun s e => Feasible s e ∧ IntDescriptor e)
      (init (Buffer.zero 100)) s ∧
    s.Live 0 ∧ (s.pthreadsList 0).winCl = 1 ∧ s.Ordinary 1 ∧
    ∃ r, react (fun _ _ => ascii "0.00") s
        (.command 4 8 (.padded 50 [CmdTypes.sendClientList.code, 0, 1]) 0 0) = some r ∧
      r.2 = [] ∧ ¬ ListsClients s 0 r.2 := by
  refine ⟨_, ⟨[.accept 4 (ascii "192.168.88.158"), .accept 5 (ascii "192.168.88.154")],
    by decide, rfl⟩, by decide, by decide, by decide, _, rfl, by decide, fun hlaw => ?_⟩
  exact absurd hlaw.length_eq (by decide)

end TcpIot.Server
