import TcpIot.Server.Dispatch

/-!
# Numbers as text

What `"%d"` prints: the length of the text and the bytes in it.
-/

namespace TcpIot.Server

theorem ascii_length (text : String) : (ascii text).length = text.length := by
  rw [ascii, List.length_map, String.length_toList]

theorem ascii_append (s t : String) : ascii (s ++ t) = ascii s ++ ascii t := by
  rw [ascii, String.toList_append, List.map_append, ascii, ascii]

theorem decimal_natCast (n : Nat) : decimal n = ascii n.repr := rfl

theorem decimal_negSucc (n : Nat) : decimal (Int.negSucc n) = 45 :: ascii (n + 1).repr := by
  change ascii ("-" ++ (n + 1).repr) = _
  rw [ascii_append]
  rfl

theorem decimal_natCast_length_le {n k : Nat} (hk : 0 < k) :
    (decimal n).length ≤ k ↔ n < 10 ^ k := by
  rw [decimal_natCast, ascii_length, Nat.length_repr_le_iff hk]

theorem decimal_negSucc_length_le {n k : Nat} (hk : 0 < k) :
    (decimal (Int.negSucc n)).length ≤ k + 1 ↔ n + 1 < 10 ^ k := by
  rw [decimal_negSucc, List.length_cons, ascii_length, Nat.add_le_add_iff_right,
    Nat.length_repr_le_iff hk]

/-- A number fits into `k + 1` bytes, with one of them for the sign. -/
theorem decimal_length_le {k : Nat} (hk : 0 < k) (n : Int) :
    (decimal n).length ≤ k + 1 ↔ -(10 ^ k : Nat) < n ∧ n < (10 ^ (k + 1) : Nat) := by
  have hmono : 10 ^ k ≤ 10 ^ (k + 1) := Nat.pow_le_pow_right (by decide) (Nat.le_succ k)
  cases n with
  | ofNat n =>
    rw [Int.ofNat_eq_natCast, decimal_natCast_length_le (Nat.succ_pos k)]
    omega
  | negSucc n =>
    rw [decimal_negSucc_length_le hk]
    omega

theorem mem_decimal {n : Int} {c : UInt8} (h : c ∈ decimal n) :
    c = 45 ∨ 48 ≤ c.toNat ∧ c.toNat ≤ 57 := by
  have hdigits (n : Nat) (h : c ∈ ascii n.repr) : 48 ≤ c.toNat ∧ c.toNat ≤ 57 := by
    rw [ascii, Nat.toList_repr] at h
    obtain ⟨d, hd, rfl⟩ := List.mem_map.mp h
    have hdigit : 48 ≤ d.toNat ∧ d.toNat ≤ 57 :=
      Char.isDigit_iff_toNat.mp (Nat.isDigit_of_mem_toDigits (by decide) (by decide) hd)
    rw [UInt8.toNat_ofNat']
    omega
  cases n with
  | ofNat n => exact .inr (hdigits n h)
  | negSucc n =>
    rw [decimal_negSucc] at h
    exact (List.mem_cons.mp h).imp_right (hdigits (n + 1))

theorem decimal_noNul (n : Nat) : 0 ∉ decimal n := by
  intro h
  cases mem_decimal h with
  | inl hsign => cases hsign
  | inr hdigit => exact absurd hdigit.1 (by decide)

end TcpIot.Server
