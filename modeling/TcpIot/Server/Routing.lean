import TcpIot.Server.System

/-!
# Relaying commands

A command that `listen_thread` does not handle itself is passed on to the slot that `get_dest`
finds. It arrives there unless the sender sits in slot 0 or the receiver's slot lies at or
above `no_threads`.
-/

namespace TcpIot.Server

open Framework

def DistinctDests (s : State) : Prop :=
  ∀ i j, s.Live i → s.Live j → (s.pthreadsList i).dest = (s.pthreadsList j).dest → i = j

instance (s : State) : Decidable (DistinctDests s) :=
  inferInstanceAs (Decidable (∀ i j, _ → _ → _ → i = j))

/-- The command byte falls through every test of `dispatch` to the relay branch. -/
def FallsThrough (s : State) (cmd : UInt8) : Prop :=
  CmdInRange cmd ∧ ¬ ChangesTable cmd ∧ cmd ≠ CmdTypes.sendIotValues.code ∧
    cmd ≠ CmdTypes.sendIotCmd.code ∧ ¬ (cmd = CmdTypes.sendClientList.code ∧ 0 < s.winClIndex)

instance (s : State) (cmd : UInt8) : Decidable (FallsThrough s cmd) :=
  inferInstanceAs (Decidable (_ ∧ _))

/-- What the relay branch should do: send the command once, to the live slot with the
destination, and nothing when there is none. -/
def Routed (s : State) (msgLen : Int) (text : Buffer 50) (cmd dest : UInt8)
    (sent : List Effect) : Prop :=
  (∀ b, s.Live b → (s.pthreadsList b).dest = dest.toNat →
    sent = [.sendMsg (s.pthreadsList b).sock msgLen.toNat text.bytes cmd]) ∧
  ((∀ b, s.Live b → (s.pthreadsList b).dest ≠ dest.toNat) → sent = [])

instance (s : State) (msgLen : Int) (text : Buffer 50) (cmd dest : UInt8) (sent : List Effect) :
    Decidable (Routed s msgLen text cmd dest sent) := inferInstanceAs (Decidable (_ ∧ _))

/-- The sender's slot is not slot 0, and a live slot with the destination is below
`no_threads`. -/
def Connects (s : State) (index : Fin maxThreads) (dest : UInt8) : Prop :=
  ∀ b, s.Live b → (s.pthreadsList b).dest = dest.toNat → 0 < index ∧ b.val < s.noThreads

theorem reachable_wellformed {fixed2 : Int → Nat → List UInt8} {stack : Buffer 100} {s : State}
    (h : Reachable (step fixed2) Feasible (init stack) s) : Wellformed s :=
  h.inv (fun _ _ _ hs hfeas hstep => hs.step hfeas hstep) (init_wellformed stack)

section Relay

variable {s : State} (hs : Wellformed s)

include hs

theorem getDest_live (hdistinct : DistinctDests s) {b : Fin maxThreads} (hb : s.Live b)
    {dest : UInt8} (hdest : (s.pthreadsList b).dest = dest.toNat) :
    getDest s dest.toNat = b := by
  rcases getDest_cases s dest.toNat hs.highest with ⟨i, hi, -, hget⟩ | ⟨hnone, -⟩
  · have hlive : s.Live i := by
      by_contra hdead
      have hcleared := (hs.dead i hdead).2
      omega
    rw [hget, hdistinct i b hlive hb (hi.trans hdest.symm)]
  · exact absurd hdest (hnone b)

theorem getDest_none {dest : UInt8} (hnone : ∀ b, s.Live b → (s.pthreadsList b).dest ≠ dest.toNat) :
    getDest s dest.toNat = maxThreads := by
  rcases getDest_cases s dest.toNat hs.highest with ⟨i, hi, -, -⟩ | ⟨-, hget⟩
  · have hdead : ¬ s.Live i := fun h => hnone i h hi
    have hcleared := (hs.dead i hdead).2
    omega
  · exact hget

theorem relay_iff (hdistinct : DistinctDests s) {index : Fin maxThreads} (hindex : s.Live index)
    {msgLen : Int} {tempx : Buffer 50} {cmd dest : UInt8} {sent : List Effect}
    (h : relay s index msgLen tempx cmd dest = some sent) :
    Routed s msgLen tempx cmd dest sent ↔ Connects s index dest := by
  simp only [relay] at h
  by_cases hany : ∃ b, s.Live b ∧ (s.pthreadsList b).dest = dest.toNat
  · obtain ⟨b, hb, hdest⟩ := hany
    rw [getDest_live hs hdistinct hb hdest] at h
    have honly (c : Fin maxThreads) (hc : s.Live c)
        (hcd : (s.pthreadsList c).dest = dest.toNat) : c = b :=
      hdistinct c b hc hb (hcd.trans hdest.symm)
    have hslot : slotAt b = some b := by simp [slotAt]
    by_cases hguard : (b.val : Int) < s.noThreads ∧ 0 < (s.pthreadsList index).sock ∧ 0 < index
    · rw [if_pos hguard, hslot] at h
      cases h
      constructor
      · intro _ c hc hcd
        rw [honly c hc hcd]
        exact ⟨hguard.2.2, hguard.1⟩
      · intro _
        refine ⟨fun c hc hcd => ?_, fun hnone => absurd hdest (hnone b hb)⟩
        rw [honly c hc hcd]
    · rw [if_neg hguard] at h
      cases h
      constructor
      · intro hrouted
        exact absurd (hrouted.1 b hb hdest) (by simp)
      · intro hconnects
        obtain ⟨hpos, hlt⟩ := hconnects b hb hdest
        exact absurd ⟨hlt, hindex, hpos⟩ hguard
  · have hnone : ∀ b, s.Live b → (s.pthreadsList b).dest ≠ dest.toNat :=
      fun b hb hdest => hany ⟨b, hb, hdest⟩
    have hin := hs.inTable
    have hpast : ¬ ((maxThreads : Int) < s.noThreads ∧ 0 < (s.pthreadsList index).sock ∧
        0 < index) := fun hguard => absurd hguard.1 (not_lt.mpr hin)
    rw [getDest_none hs hnone, if_neg hpast] at h
    cases h
    exact ⟨fun _ b hb hdest => absurd hdest (hnone b hb),
      fun _ => ⟨fun b hb hdest => absurd hdest (hnone b hb), fun _ => rfl⟩⟩

end Relay

theorem relay_noteWinClient (s : State) (index k : Fin maxThreads) (msgLen : Int)
    (tempx : Buffer 50) (cmd dest : UInt8) :
    relay (noteWinClient s k) index msgLen tempx cmd dest =
      relay s index msgLen tempx cmd dest := by
  have hget : getDest (noteWinClient s k) dest.toNat = getDest s dest.toNat :=
    getDest_congr _ (noteWinClient_pthreadsList s k) (noteWinClient_highestSock s k)
  simp only [relay, hget, noteWinClient_pthreadsList, noteWinClient_noThreads]

theorem relay_isSome {s : State} (hs : Wellformed s) (index : Fin maxThreads) (msgLen : Int)
    (tempx : Buffer 50) (cmd dest : UInt8) :
    (relay s index msgLen tempx cmd dest).isSome := by
  have hin := hs.inTable
  simp only [relay]
  split
  · rename_i hguard
    have hlt : getDest s dest.toNat < maxThreads := by omega
    simp [slotAt, hlt]
  · rfl

theorem dispatch_fallsThrough {s : State} {cmd : UInt8} (h : FallsThrough s cmd)
    (fixed2 : Int → Nat → List UInt8) (index : Fin maxThreads) (msgLen : Int)
    (tempx : Buffer 50) (dest : UInt8) (now stray : Int) :
    dispatch fixed2 s index msgLen tempx cmd dest now stray =
      (relay s index msgLen tempx cmd dest).map fun sent => (s, sent) := by
  obtain ⟨-, hkeep, hvalues, hiot, hlist⟩ := h
  simp only [ChangesTable, not_or] at hkeep
  obtain ⟨hname, hupdate, hall, hone⟩ := hkeep
  simp only [dispatch, if_neg hname, if_neg hlist, if_neg hupdate, if_neg hvalues, if_neg hall,
    if_neg hone, if_neg hiot]

/-- In every reachable state whose live slots have different destinations, for every connected
sender and every command that reaches the relay branch: the command is sent once, to the client
with the destination and to nobody else, iff the sender is not in slot 0 and that client's slot
is below `no_threads`; it is sent to nobody when no client has the destination. -/
theorem relayed_iff {fixed2 : Int → Nat → List UInt8} {stack : Buffer 100} {s : State}
    (hreach : Reachable (step fixed2) Feasible (init stack) s) (hdistinct : DistinctDests s)
    {k : Fin maxThreads} (hk : s.Live k) {msgLen len : Int} {tempx text : Buffer 50}
    {dest : UInt8} (hfalls : FallsThrough (noteWinClient s k) (tempx.get 0))
    (hunpack : unpack (s.pthreadsList k).winCl msgLen tempx = some (len, dest, text))
    (now stray : Int) :
    ∃ sent, react fixed2 s (.command (s.pthreadsList k).sock msgLen tempx now stray) =
        some (noteWinClient s k, sent) ∧
      (Routed s len text (tempx.get 0) dest sent ↔ Connects s k dest) := by
  have hs := reachable_wellformed hreach
  obtain ⟨sent, hsent⟩ := Option.isSome_iff_exists.mp
    (relay_isSome hs k len text (tempx.get 0) dest)
  have hindex : lookupIndex s (s.pthreadsList k).sock = k :=
    lookupIndex_eq fun j hj => hs.distinct k j hk hj
  refine ⟨sent, ?_, relay_iff hs hdistinct hk hsent⟩
  rw [react_command fixed2 hfalls.1, hindex, hunpack, Option.bind_some,
    dispatch_fallsThrough hfalls, relay_noteWinClient, hsent, Option.map_some]

def threeConnected : State :=
  (exec (step fun _ _ => ascii "0.00") (init (Buffer.zero 100)) threeClients).getD
    (init (Buffer.zero 100))

/-- Client 146 in slot 2 sends `CABIN_SOUTH "ON"` to 154. -/
theorem relayed_iff_third_to_first :
    ∃ sent, react (fun _ _ => ascii "0.00") threeConnected
        (.command (threeConnected.pthreadsList 2).sock 2
          ⟨[25, 1, 79, 78] ++ List.replicate 46 0, rfl⟩ 0 0) =
        some (noteWinClient threeConnected 2, sent) ∧
      (Routed threeConnected 2 ⟨[79, 78, 0, 78] ++ List.replicate 46 0, rfl⟩ 25 1 sent ↔
        Connects threeConnected 2 1) :=
  @relayed_iff _ (Buffer.zero 100) _ ⟨threeClients, by decide, by decide⟩ (by decide) _
    (by decide) _ _ _ _ _ (by decide) (by decide) 0 0

/-- Client 154 in slot 0 sends the same command to 147: nothing is relayed. -/
theorem first_client_mute :
    Reachable (step fun _ _ => ascii "0.00") Feasible (init (Buffer.zero 100)) threeConnected ∧
    DistinctDests threeConnected ∧ threeConnected.Live 0 ∧ threeConnected.Live 1 ∧
    FallsThrough (noteWinClient threeConnected 0) 25 ∧
    react (fun _ _ => ascii "0.00") threeConnected
        (.command 4 2 ⟨[25, 2, 79, 78] ++ List.replicate 46 0, rfl⟩ 0 0) =
      some (threeConnected, []) ∧
    ¬ Routed threeConnected 2 ⟨[79, 78, 0, 78] ++ List.replicate 46 0, rfl⟩ 25 2 [] := by
  refine ⟨⟨threeClients, by decide, by decide⟩, ?_⟩
  decide

end TcpIot.Server
