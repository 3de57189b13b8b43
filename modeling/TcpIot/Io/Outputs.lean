import TcpIot.Framework.Bits
import Mathlib.Data.Fin.Basic
import Mathlib.Data.List.Basic

/-!
# Relay outputs

The card has twenty outputs on three ports. `real_banks` gives the port and the bit of each; the
functions below are those of a build with the card (`USE_CARDS` defined, `SERVER_146` not).
-/

namespace TcpIot.Io

open Framework

structure RealBanks where
  i : Nat
  bank : Nat
  index : Nat
deriving DecidableEq

/-- `real_banks` as `get_host_cmd_task` leaves it; the second half of the array stays zero. -/
def realBanks (k : Fin 40) : RealBanks :=
  [⟨0, 0, 0⟩, ⟨1, 0, 1⟩, ⟨2, 0, 2⟩, ⟨3, 0, 3⟩, ⟨4, 0, 4⟩, ⟨5, 0, 5⟩, ⟨6, 0, 6⟩, ⟨7, 0, 7⟩,
    ⟨8, 1, 0⟩, ⟨9, 1, 1⟩, ⟨10, 1, 2⟩, ⟨11, 1, 3⟩, ⟨12, 1, 4⟩, ⟨13, 1, 5⟩, ⟨14, 1, 6⟩, ⟨15, 1, 7⟩,
    ⟨16, 2, 0⟩, ⟨17, 2, 1⟩, ⟨18, 2, 2⟩, ⟨19, 2, 3⟩].getD k ⟨0, 0, 0⟩

/-- The entry of an input or an output; twenty of each are wired. -/
def entryOf (k : Fin 20) : Fin 40 := k.castLE (by decide)

/-- The library that reaches the card: a byte stays at its address until the next write there. -/
structure Nbus (σ : Type*) where
  winpeek8 : σ → Nat → UInt8
  winpoke8 : σ → Nat → UInt8 → σ
  peek_poke : ∀ s a v, winpeek8 (winpoke8 s a v) a = v
  peek_poke_ne : ∀ s a v b, b ≠ a → winpeek8 (winpoke8 s a v) b = winpeek8 s b

section Ports

variable {σ : Type*} (nbus : Nbus σ)

/-- The read-modify-write that `OutPortA`, `OutPortB` and `OutPortC` share. -/
def outPort (addr : Nat) (onoff : Int) (bit : Nat) (s : σ) : σ :=
  let val := nbus.winpeek8 s addr
  if onoff = 1 then nbus.winpoke8 s addr (orBit val bit)
  else nbus.winpoke8 s addr (andNotBit val bit)

def outPortA (onoff : Int) (bit : Nat) (s : σ) : σ := outPort nbus 0x10300 onoff bit s

def outPortB (onoff : Int) (bit : Nat) (s : σ) : σ := outPort nbus 0x10301 onoff bit s

def outPortC (onoff : Int) (bit : Nat) (s : σ) : σ := outPort nbus 0x10302 onoff bit s

/-- `change_output`. -/
def changeOutput (index : Fin 40) (onoff : Int) (s : σ) : σ :=
  let bank := (realBanks index).bank
  let index2 := (realBanks index).index
  match bank with
  | 0 => outPortA nbus onoff index2 s
  | 1 => outPortB nbus onoff index2 s
  | 2 => outPortC nbus onoff index2 s
  | _ => s

/-- Calls that switch one of the twenty outputs, in order. -/
def changeOutputs (s : σ) (calls : List (Fin 20 × Bool)) : σ :=
  calls.foldl (fun s c => changeOutput nbus (entryOf c.1) (if c.2 then 1 else 0) s) s

/-- The address of an output port register. -/
def portAddr (bank : Fin 3) : Nat := 0x10300 + bank

/-- Bit `p.2` of the register of port `p.1`. -/
def portBit (s : σ) (p : Fin 3 × Fin 8) : Bool := bit (nbus.winpeek8 s (portAddr p.1)) p.2

end Ports

/-- The port and the bit of an output. -/
def location (k : Fin 20) : Fin 3 × Fin 8 :=
  (Fin.ofNat 3 (realBanks (entryOf k)).bank,
    Fin.ofNat 8 (realBanks (entryOf k)).index)

theorem location_injective : Function.Injective location := by
  intro j k
  decide +revert

theorem portAddr_injective : Function.Injective portAddr := by
  intro bank bank' h
  simp only [portAddr] at h
  omega

section Ports

variable {σ : Type*} {nbus : Nbus σ}

theorem outPort_bit (addr : Nat) (onoff : Int) (k : Nat) (s : σ) {j : Nat} (hj : j < 8) :
    bit (nbus.winpeek8 (outPort nbus addr onoff k s) addr) j =
      if j = k then decide (onoff = 1) else bit (nbus.winpeek8 s addr) j := by
  unfold outPort
  by_cases hon : onoff = 1
  · rw [if_pos hon, nbus.peek_poke, bit_orBit _ _ hj]
    by_cases hjk : j = k
    · simp [hjk, hon]
    · simp [hjk]
  · rw [if_neg hon, nbus.peek_poke, bit_andNotBit _ _ hj]
    by_cases hjk : j = k
    · simp [hjk, hon]
    · simp [hjk]

theorem outPort_elsewhere {addr other : Nat} (h : other ≠ addr) (onoff : Int) (k : Nat) (s : σ) :
    nbus.winpeek8 (outPort nbus addr onoff k s) other = nbus.winpeek8 s other := by
  unfold outPort
  split
  · exact nbus.peek_poke_ne _ _ _ _ h
  · exact nbus.peek_poke_ne _ _ _ _ h

theorem outPort_portBit (p : Fin 3 × Fin 8) (onoff : Int) (s : σ) :
    portBit nbus (outPort nbus (portAddr p.1) onoff p.2 s) =
      Function.update (portBit nbus s) p (decide (onoff = 1)) := by
  funext q
  rw [Function.update_apply, portBit]
  by_cases hport : q.1 = p.1
  · have hq : q = p ↔ q.2.val = p.2.val := by
      rw [Prod.ext_iff, ← Fin.ext_iff]
      exact and_iff_right hport
    rw [hport, outPort_bit _ _ _ _ q.2.isLt, portBit, hport]
    simp only [hq]
  · have haddr : portAddr q.1 ≠ portAddr p.1 := fun h => hport (portAddr_injective h)
    rw [outPort_elsewhere haddr, if_neg fun h => hport (congrArg Prod.fst h)]
    rfl

/-- The table and the `switch` lead every output to its own port routine. -/
theorem changeOutput_eq (k : Fin 20) (onoff : Int) (s : σ) :
    changeOutput nbus (entryOf k) onoff s =
      outPort nbus (portAddr (location k).1) onoff (location k).2 s := by
  have hbank : (realBanks (entryOf k)).bank = (location k).1 := by decide +revert
  have hindex : (realBanks (entryOf k)).index = (location k).2 := by decide +revert
  simp only [changeOutput, hbank, hindex]
  match (location k).1 with
  | 0 => rfl
  | 1 => rfl
  | 2 => rfl

theorem changeOutput_portBit (k : Fin 20) (on : Bool) (s : σ) :
    portBit nbus (changeOutput nbus (entryOf k) (if on then 1 else 0) s) =
      Function.update (portBit nbus s) (location k) on := by
  rw [changeOutput_eq, outPort_portBit]
  cases on with
  | false => rfl
  | true => rfl

theorem changeOutputs_portBit (s : σ) (calls : List (Fin 20 × Bool)) (p : Fin 3 × Fin 8) :
    portBit nbus (changeOutputs nbus s calls) p =
      (lastWrite p (calls.map (Prod.map location id))).getD (portBit nbus s p) :=
  view_foldl (fun c _ s => changeOutput_portBit c.1 c.2 s) s p

end Ports

/-- For every content of the registers and every sequence of calls: the bit of an output is what
the last call for it said, or the initial bit without one, no two outputs share a bit, and the
bits of no output stay as they were. -/
theorem outputs_last_writer {σ : Type*} (nbus : Nbus σ) (s : σ) (calls : List (Fin 20 × Bool)) :
    (∀ k, portBit nbus (changeOutputs nbus s calls) (location k) =
      (lastWrite k calls).getD (portBit nbus s (location k))) ∧
    Function.Injective location ∧
    ∀ p, (∀ k, location k ≠ p) →
      portBit nbus (changeOutputs nbus s calls) p = portBit nbus s p := by
  refine ⟨fun k => ?_, location_injective, fun p hp => ?_⟩
  · rw [changeOutputs_portBit, lastWrite_map location_injective, Option.map_id]
    rfl
  · have hnone : lastWrite p (calls.map (Prod.map location id)) = none := by
      apply lastWrite_eq_none
      intro w hw
      obtain ⟨c, -, rfl⟩ := List.mem_map.mp hw
      exact hp c.1
    rw [changeOutputs_portBit, hnone, Option.getD_none]

/-- A card that is plain memory. -/
def memory : Nbus (Nat → UInt8) where
  winpeek8 s a := s a
  winpoke8 s a v := Function.update s a v
  peek_poke s a v := Function.update_self a v s
  peek_poke_ne s _ v _ h := Function.update_of_ne h v s

theorem outputs_last_writer_memory :
    portBit memory (changeOutputs memory (fun _ => 0xF0) [(16, true), (3, true), (16, false)])
      (location 16) = false :=
  ((outputs_last_writer memory (fun _ => 0xF0) [(16, true), (3, true), (16, false)]).1 16).trans
    (by decide)

end TcpIot.Io
