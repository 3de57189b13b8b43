import Mathlib.Data.UInt
import Mathlib.Tactic.Common
import TcpIot.Framework.Buffer

/-!
# Frame headers

Every frame starts with the eight bytes `pre_preamble` and two length bytes that carry four
bits each. The readers keep the header in uninitialised locals, so on a stream that ends early
they go on with what those locals held before; `Stale` names that content.
-/

namespace TcpIot

open Framework

def prePreamble : List UInt8 := [0xF8, 0xF0, 0xF0, 0xF0, 0xF0, 0xF0, 0xF0, 0x00]

/-- `temp[0] = (UCHAR)(msg_len & 0x0F)`. -/
def lenLow (msgLen : Nat) : UInt8 := UInt8.ofNat (msgLen &&& 0x0F)

/-- `temp[1] = (UCHAR)((msg_len & 0xF0) >> 4)`. -/
def lenHigh (msgLen : Nat) : UInt8 := UInt8.ofNat ((msgLen &&& 0xF0) >>> 4)

/-- `len = high; len <<= 4; len |= low`. -/
def decodeLen (low high : UInt8) : Nat := (high.toNat <<< 4) ||| low.toNat

private theorem nibble_lt (n : Nat) : n % 16 < UInt8.size :=
  (Nat.mod_lt n (by decide)).trans (by decide)

theorem lenLow_toNat (n : Nat) : (lenLow n).toNat = n % 16 := by
  have hand : n &&& 0x0F = n % 16 := Nat.and_two_pow_sub_one_eq_mod n 4
  rw [lenLow, hand, UInt8.toNat_ofNat_of_lt' (nibble_lt n)]

theorem lenHigh_toNat (n : Nat) : (lenHigh n).toNat = n / 16 % 16 := by
  have hshift : (n &&& 0xF0) >>> 4 = n / 16 % 16 := by
    rw [Nat.shiftRight_and_distrib, Nat.shiftRight_eq_div_pow]
    exact Nat.and_two_pow_sub_one_eq_mod (n / 16) 4
  rw [lenHigh, hshift, UInt8.toNat_ofNat_of_lt' (nibble_lt (n / 16))]

theorem decodeLen_of_lt (low high : UInt8) (hlow : low.toNat < 16) :
    decodeLen low high = high.toNat * 16 + low.toNat := by
  rw [decodeLen, ← Nat.shiftLeft_add_eq_or_of_lt (i := 4) hlow, Nat.shiftLeft_eq]

theorem decodeLen_lens {n : Nat} (hn : n < 256) : decodeLen (lenLow n) (lenHigh n) = n := by
  rw [decodeLen_of_lt _ _ (by rw [lenLow_toNat]; omega), lenLow_toNat, lenHigh_toNat]
  omega

theorem lens_of_decodeLen {low high : UInt8} {n : Nat} (hlow : low.toNat < 16)
    (hhigh : high.toNat < 16) (h : decodeLen low high = n) :
    low = lenLow n ∧ high = lenHigh n := by
  rw [decodeLen_of_lt low high hlow] at h
  constructor
  · apply UInt8.toNat_inj.mp
    rw [lenLow_toNat]
    omega
  · apply UInt8.toNat_inj.mp
    rw [lenHigh_toNat]
    omega

theorem lens_small (n : Nat) : ∀ b ∈ [lenLow n, lenHigh n], b.toNat < 16 := by
  intro b hb
  rw [List.mem_pair] at hb
  cases hb with
  | inl hlow =>
    rw [hlow, lenLow_toNat]
    omega
  | inr hhigh =>
    rw [hhigh, lenHigh_toNat]
    omega

theorem lens_perm (low high : UInt8) (body : List UInt8) :
    (prePreamble ++ low :: high :: body).Perm ((prePreamble ++ body) ++ [low, high]) := by
  rw [List.append_assoc]
  exact (@List.perm_append_comm _ [low, high] _).append_left prePreamble

/-- What the uninitialised locals of a header reader held before. -/
structure Stale (n : Nat) where
  preamble : Buffer n
  low : UInt8
  high : UInt8

section Reading

variable {n : Nat} (stale : Stale n) (stream : List UInt8)

/-- The eight bytes compared with `pre_preamble` after `recv` asked for `count` bytes: the
received ones first, then the old content of the array. -/
def preambleBytes (count : Nat) : List UInt8 :=
  (stream.take count ++ stale.preamble.bytes.drop (stream.take count).length).take 8

/-- The two single-byte reads of the length, whose results are not checked. -/
def readLength : Nat × List UInt8 :=
  (decodeLen (stream.headD stale.low) (stream.tail.headD stale.high), stream.drop 2)

@[simp] theorem preambleBytes_prePreamble (rest : List UInt8) :
    preambleBytes stale (prePreamble ++ rest) 8 = prePreamble := by
  simp [preambleBytes, prePreamble]

theorem preambleBytes_of_le (h : 8 ≤ stream.length) :
    preambleBytes stale stream 8 = stream.take 8 := by
  have hlen : (stream.take 8).length = 8 := by simpa using h
  rw [preambleBytes, hlen, List.take_append_of_le_length (by omega), List.take_take]
  simp

@[simp] theorem readLength_cons (low high : UInt8) (rest : List UInt8) :
    readLength stale (low :: high :: rest) = (decodeLen low high, rest) := rfl

end Reading

end TcpIot
