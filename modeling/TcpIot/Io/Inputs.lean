import Mathlib.Algebra.GroupWithZero.Nat
import Mathlib.Data.Fintype.Prod
import TcpIot.Framework.Run
import TcpIot.Io.Outputs

/-!
# Input monitoring

`monitor_input_task` polls the three input ports in turn, compares each byte with the one before
and reports one event: the highest bit that changed, as on or off. A poll in which several bits
of a port have changed therefore loses all but one of the changes.
-/

namespace TcpIot.Io

open Framework

/-- The loop of `mask2int`, for at most `fuel` shifts. -/
def mask2intLoop : Nat → UInt8 → Nat → Nat
  | 0, _, i => i
  | fuel + 1, mask, i =>
    if mask >>> 1 ≠ 0 then mask2intLoop fuel (mask >>> 1) (i + 1) else i + 1

/-- `mask2int`; eight shifts empty an `UCHAR`. -/
def mask2int (mask : UInt8) : Nat := mask2intLoop 8 mask 0 - 1

/-- The number of an input from its port and bit: the loop over `real_banks` compares the index
that it has overwritten itself, and an index that it does not find stays as it is. -/
def inputIndex (bank : Fin 3) (index : Nat) : Nat :=
  (List.finRange 20).foldl (fun index i =>
    let entry := realBanks (entryOf i)
    if entry.bank = bank ∧ entry.index = index then entry.i else index) index

local instance bankNeZero : NeZero 3 := ⟨Nat.succ_ne_zero 2⟩

/-- What `monitor_input_task` keeps from one poll to the next. -/
structure Monitor where
  bank : Fin 3
  inportstatus : Fin 3 → UInt8

/-- One poll: `byte` is what `InPortByteA`, `InPortByteB` or `InPortByteC` returned. The event
holds the index and whether it went on. -/
def poll (m : Monitor) (byte : UInt8) : Monitor × Option (Nat × Bool) :=
  let result := ~~~byte
  let next := m.bank + 1
  if result ≠ m.inportstatus m.bank then
    let mask := result ^^^ m.inportstatus m.bank
    let index := mask2int mask
    let onoff := decide (mask &&& result = mask)
    (⟨next, Function.update m.inportstatus m.bank result⟩, some (inputIndex m.bank index, onoff))
  else (⟨next, m.inportstatus⟩, none)

/-- The task together with the last byte of each port and the inputs as the events give them. -/
structure Watched where
  monitor : Monitor
  polled : Fin 3 → UInt8
  replayed : Fin 20 → Bool

/-- An input is on when its port bit is low. -/
def inputOf (polled : Fin 3 → UInt8) (k : Fin 20) : Bool :=
  !bit (polled (location k).1) (location k).2

/-- The bytes that the task reads before its loop. -/
def watch (bytes : Fin 3 → UInt8) : Watched where
  monitor := ⟨0, fun bank => ~~~bytes bank⟩
  polled := bytes
  replayed := inputOf bytes

/-- An event sets the input it names; other indices name no input. -/
def replay (inputs : Fin 20 → Bool) : Option (Nat × Bool) → Fin 20 → Bool
  | none => inputs
  | some (index, onoff) =>
    if h : index < 20 then Function.update inputs ⟨index, h⟩ onoff else inputs

def Watched.poll (w : Watched) (byte : UInt8) : Watched where
  monitor := (Io.poll w.monitor byte).1
  polled := Function.update w.polled w.monitor.bank byte
  replayed := replay w.replayed (Io.poll w.monitor byte).2

/-- A run polls one byte after the other. -/
def monitorStep (w : Watched) (byte : UInt8) : Option Watched := some (w.poll byte)

/-- The replayed inputs are those of the last bytes. -/
def Watched.Agrees (w : Watched) : Prop := ∀ k, w.replayed k = inputOf w.polled k

/-- The bit of the port that is polled next is not what it was at the poll before. -/
def Watched.Changes (w : Watched) (byte : UInt8) (j : Fin 8) : Prop :=
  bit byte j ≠ bit (w.polled w.monitor.bank) j

instance (w : Watched) : Decidable w.Agrees := inferInstanceAs (Decidable (∀ _, _))

instance (w : Watched) (byte : UInt8) : DecidablePred (w.Changes byte) := fun _ =>
  inferInstanceAs (Decidable (_ ≠ _))

/-- The bit belongs to an input; the upper half of port C does not. -/
def Mapped (bank : Fin 3) (j : Fin 8) : Prop := ∃ k, location k = (bank, j)

instance (bank : Fin 3) (j : Fin 8) : Decidable (Mapped bank j) :=
  inferInstanceAs (Decidable (∃ _, _))

/-- After the poll the events give every input, and a poll in which no input has changed reports
nothing about an input. -/
def LosesNothing (w : Watched) (byte : UInt8) : Prop :=
  (w.poll byte).Agrees ∧
  ((∀ j, w.Changes byte j → ¬ Mapped w.monitor.bank j) →
    ∀ e ∈ (poll w.monitor byte).2, 20 ≤ e.1)

/-- At most one bit of the port has changed, and it is the bit of an input. -/
def OneChange (w : Watched) (byte : UInt8) : Prop :=
  ∀ j, w.Changes byte j → Mapped w.monitor.bank j ∧ ∀ j', w.Changes byte j' → j' = j

instance (w : Watched) (byte : UInt8) : Decidable (LosesNothing w byte) :=
  inferInstanceAs (Decidable (_ ∧ _))

instance (w : Watched) (byte : UInt8) : Decidable (OneChange w byte) :=
  inferInstanceAs (Decidable (∀ _, _))

private theorem mask2intLoop_eq (fuel : Nat) (mask : UInt8) (i : Nat)
    (h : mask.toNat < 2 ^ (fuel + 1)) :
    mask2intLoop (fuel + 1) mask i = i + 1 + mask.toNat.log2 := by
  have hhalf : (mask >>> 1).toNat = mask.toNat / 2 := by
    rw [UInt8.toNat_shiftRight, Nat.shiftRight_eq_div_pow]
    rfl
  have hzero : mask >>> 1 = 0 ↔ mask.toNat < 2 := by
    rw [← UInt8.toNat_inj, hhalf]
    change mask.toNat / 2 = 0 ↔ _
    omega
  rw [mask2intLoop, Nat.log2_def]
  by_cases hlast : mask.toNat < 2
  · rw [if_neg (not_not.mpr (hzero.mpr hlast)), if_neg (by omega)]
  · rw [if_pos (fun h0 => hlast (hzero.mp h0)), if_pos (by omega)]
    cases fuel with
    | zero => omega
    | succ fuel =>
      have hfuel : (mask >>> 1).toNat < 2 ^ (fuel + 1) := by
        rw [hhalf]
        omega
      rw [mask2intLoop_eq fuel _ _ hfuel, hhalf]
      omega

theorem mask2int_eq_log2 (mask : UInt8) : mask2int mask = mask.toNat.log2 := by
  rw [mask2int, mask2intLoop_eq 7 mask 0 mask.toNat_lt]
  omega

theorem inputIndex_location (k : Fin 20) : inputIndex (location k).1 (location k).2 = k := by
  decide +revert

theorem inputIndex_unmapped {bank : Fin 3} {j : Fin 8} (h : ¬ Mapped bank j) :
    inputIndex bank j = j ∧ ∀ k : Fin 20, k.val = j → (location k).1 ≠ bank := by
  decide +revert

theorem mapped_mono {bank : Fin 3} {j j' : Fin 8} (h : Mapped bank j') (hle : j ≤ j') :
    Mapped bank j := by
  decide +revert

section Poll

variable {w : Watched} {byte : UInt8}

/-- The task remembers the inverted bytes, and the events agree with them. -/
structure Watched.Tracks (w : Watched) : Prop where
  status : ∀ bank, w.monitor.inportstatus bank = ~~~w.polled bank
  agrees : w.Agrees

theorem watch_tracks (bytes : Fin 3 → UInt8) : (watch bytes).Tracks :=
  ⟨fun _ => rfl, fun _ => rfl⟩

theorem poll_status (h : w.Tracks) (byte : UInt8) (bank : Fin 3) :
    (w.poll byte).monitor.inportstatus bank = ~~~(w.poll byte).polled bank := by
  simp only [Watched.poll, Io.poll, Function.update_apply]
  split
  · simp only [Function.update_apply]
    split
    · rfl
    · exact h.status bank
  · rename_i hsame
    simp only [ne_eq, not_not] at hsame
    split
    · rename_i hbank
      rw [hbank, hsame]
    · exact h.status bank

/-- The bits in which a polled byte differs from the one before. -/
def Monitor.mask (m : Monitor) (byte : UInt8) : UInt8 := ~~~byte ^^^ m.inportstatus m.bank

theorem bit_mask (h : w.Tracks) (byte : UInt8) (j : Fin 8) :
    bit (w.monitor.mask byte) j = true ↔ w.Changes byte j := by
  rw [Monitor.mask, bit_xor, h.status, bit_not _ j.isLt, bit_not _ j.isLt, Watched.Changes]
  cases bit byte j <;> cases bit (w.polled w.monitor.bank) j <;> decide

theorem poll_event (m : Monitor) (byte : UInt8) :
    (poll m byte).2 =
      if m.mask byte = 0 then none
      else some (inputIndex m.bank (m.mask byte).toNat.log2,
        decide (m.mask byte &&& ~~~byte = m.mask byte)) := by
  have hzero : m.mask byte = 0 ↔ ~~~byte = m.inportstatus m.bank := UInt8.xor_eq_zero_iff
  rw [poll]
  by_cases hsame : ~~~byte = m.inportstatus m.bank
  · rw [if_neg (not_not.mpr hsame), if_pos (hzero.mpr hsame)]
  · rw [if_pos hsame, if_neg (mt hzero.mp hsame), ← mask2int_eq_log2]
    rfl

/-- A poll without a change reports nothing; otherwise it reports the highest changed bit, with
the right state if no other bit has changed. -/
theorem poll_cases (h : w.Tracks) (byte : UInt8) :
    ((∀ j, ¬ w.Changes byte j) ∧ (poll w.monitor byte).2 = none) ∨
    ∃ top onoff, w.Changes byte top ∧ (∀ j, w.Changes byte j → j ≤ top) ∧
      (poll w.monitor byte).2 = some (inputIndex w.monitor.bank top.val, onoff) ∧
      ((∀ j, w.Changes byte j → j = top) → onoff = !bit byte top) := by
  have hbits := bit_mask h byte
  rw [poll_event]
  revert hbits
  generalize w.monitor.mask byte = mask
  intro hbits
  by_cases hzero : mask = 0
  · refine .inl ⟨fun j hj => ?_, if_pos hzero⟩
    rw [← hbits, hzero] at hj
    simp [bit] at hj
  · have htop := bit_log2 hzero
    refine .inr ⟨⟨mask.toNat.log2, log2_lt_eight mask⟩, decide (mask &&& ~~~byte = mask),
      (hbits _).mp htop, fun j hj => ?_, if_neg hzero, fun honly => ?_⟩
    · by_contra hlt
      rw [← hbits, bit_above_log2 (not_le.mp hlt)] at hj
      cases hj
    · have hsingle : ∀ k < 8, bit mask k = true → k = mask.toNat.log2 := fun k hk hbit =>
        congrArg Fin.val (honly ⟨k, hk⟩ ((hbits ⟨k, hk⟩).mp hbit))
      simp only [and_eq_mask_iff htop hsingle, bit_not _ (log2_lt_eight mask), Bool.decide_eq_true]

theorem inputOf_poll (w : Watched) (byte : UInt8) (k : Fin 20) :
    inputOf (w.poll byte).polled k =
      if (location k).1 = w.monitor.bank then !bit byte (location k).2
      else inputOf w.polled k := by
  simp only [inputOf, Watched.poll, Function.update_apply]
  split <;> rfl

theorem inputOf_poll_ne_iff (w : Watched) (byte : UInt8) (k : Fin 20) :
    inputOf (w.poll byte).polled k ≠ inputOf w.polled k ↔
      (location k).1 = w.monitor.bank ∧ w.Changes byte (location k).2 := by
  rw [inputOf_poll]
  by_cases hbank : (location k).1 = w.monitor.bank
  · simp [hbank, inputOf, Watched.Changes]
  · simp [hbank]

theorem replayed_poll {index : Nat} {onoff : Bool}
    (hevent : (poll w.monitor byte).2 = some (index, onoff)) (k : Fin 20) :
    (w.poll byte).replayed k = if k.val = index then onoff else w.replayed k := by
  rw [Watched.poll, hevent, replay]
  by_cases hindex : index < 20
  · simp only [dif_pos hindex, Function.update_apply, Fin.ext_iff]
  · rw [dif_neg hindex, if_neg (by omega)]

theorem event_names_change (h : w.Tracks) {index : Nat} {onoff : Bool}
    (hevent : (poll w.monitor byte).2 = some (index, onoff)) (hagrees : (w.poll byte).Agrees)
    {k : Fin 20} {j : Fin 8} (hk : location k = (w.monitor.bank, j)) (hj : w.Changes byte j) :
    k.val = index := by
  have hne : inputOf (w.poll byte).polled k ≠ inputOf w.polled k :=
    (inputOf_poll_ne_iff w byte k).mpr (by rw [hk]; exact ⟨rfl, hj⟩)
  by_contra hother
  have hnew := hagrees k
  rw [replayed_poll hevent, if_neg hother, h.agrees k] at hnew
  exact hne hnew.symm

/-- What one poll loses. -/
theorem losesNothing_iff (h : w.Tracks) (byte : UInt8) :
    LosesNothing w byte ↔ OneChange w byte := by
  rcases poll_cases h byte with ⟨hnone, hevent⟩ | ⟨top, onoff, htop, hle, hevent, honoff⟩
  · refine iff_of_true ⟨fun k => ?_, ?_⟩ (fun j hj => absurd hj (hnone j))
    · have hsame : inputOf (w.poll byte).polled k = inputOf w.polled k := by
        by_contra hne
        exact hnone _ ((inputOf_poll_ne_iff w byte k).mp hne).2
      rw [hsame, Watched.poll, hevent]
      exact h.agrees k
    · intro _ e he
      rw [hevent] at he
      cases he
  · constructor
    · rintro ⟨hagrees, hsilent⟩
      have hnames {k : Fin 20} {j : Fin 8} := @event_names_change w byte h _ _ hevent hagrees k j
      by_cases hmapped : Mapped w.monitor.bank top
      · obtain ⟨k, hk⟩ := hmapped
        have honly : ∀ j, w.Changes byte j → j = top := by
          intro j hj
          obtain ⟨k', hk'⟩ := mapped_mono ⟨k, hk⟩ (hle j hj)
          have hsame : k' = k := Fin.ext ((hnames hk' hj).trans (hnames hk htop).symm)
          rw [hsame, hk] at hk'
          exact (congrArg Prod.snd hk').symm
        intro j hj
        rw [honly j hj]
        exact ⟨⟨k, hk⟩, honly⟩
      · obtain ⟨hindex, hport⟩ := inputIndex_unmapped hmapped
        have hinput : ∀ j, w.Changes byte j → ¬ Mapped w.monitor.bank j := by
          rintro j hj ⟨k, hk⟩
          exact hport k ((hnames hk hj).trans hindex) (congrArg Prod.fst hk)
        have hfar := hsilent hinput _ hevent
        rw [hindex] at hfar
        omega
    · intro hone
      obtain ⟨⟨k, hk⟩, honly⟩ := hone top htop
      have hindex : inputIndex w.monitor.bank top = k := by
        have hlocation := inputIndex_location k
        rwa [hk] at hlocation
      refine ⟨fun i => ?_, fun hinput => absurd ⟨k, hk⟩ (hinput top htop)⟩
      rw [replayed_poll hevent, hindex]
      by_cases hi : i = k
      · rw [hi, if_pos rfl, inputOf_poll, hk, if_pos rfl, honoff honly]
      · rw [if_neg fun hval => hi (Fin.ext hval), h.agrees i]
        by_contra hne
        obtain ⟨hbank, hchange⟩ := (inputOf_poll_ne_iff w byte i).mp (Ne.symm hne)
        apply hi
        apply location_injective
        rw [hk, Prod.ext_iff]
        exact ⟨hbank, honly _ hchange⟩

theorem poll_tracks (h : w.Tracks) (hone : OneChange w byte) : (w.poll byte).Tracks :=
  ⟨poll_status h byte, ((losesNothing_iff h byte).mpr hone).1⟩

end Poll

/-- Over every run of polls: no poll loses a change or reports an event for an input that has not
changed iff in every poll at most one bit of the port has changed, the bit of an input. -/
theorem polls_loseNothing_iff (bytes : Fin 3 → UInt8) (polls : List UInt8) :
    AllSteps monitorStep LosesNothing (watch bytes) polls ↔
      AllSteps monitorStep OneChange (watch bytes) polls := by
  refine allSteps_iff_of_inv (fun w byte hw _ => losesNothing_iff hw byte) ?_
    (allSteps_true (watch bytes) polls) (watch_tracks bytes)
  intro w byte t hw _ hone hstep
  cases hstep
  exact poll_tracks hw hone

/-- Two buttons of port A pressed between two polls give one event, and a change of an unused bit
of port C is reported as input 4 going on. -/
theorem monitor_loses_changes :
    ¬ AllSteps monitorStep LosesNothing (watch fun _ => 0xFF) [0xFC] ∧
    (poll (watch fun _ => 0xFF).monitor 0xFC).2 = some (1, true) ∧
    ¬ AllSteps monitorStep LosesNothing (watch fun _ => 0xFF) [0xFF, 0xFF, 0xEF] ∧
    (poll ⟨2, fun _ => 0⟩ 0xEF).2 = some (4, true) := by
  decide

end TcpIot.Io
