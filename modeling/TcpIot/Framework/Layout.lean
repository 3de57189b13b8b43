import Mathlib.Tactic.Ring
import TcpIot.Framework.Buffer

/-!
# C data in files

`int` fields are stored as four bytes, the lowest first. A `read` into an object stores as many
bytes as the file still has, at most the size of the object, and leaves the rest of the object.
-/

namespace TcpIot.Framework

/-- The `w` lowest bytes of `n`. -/
def leBytes : Nat → Nat → List UInt8
  | 0, _ => []
  | w + 1, n => UInt8.ofNat n :: leBytes w (n / 256)

def leValue : List UInt8 → Nat
  | [] => 0
  | c :: cs => c.toNat + 256 * leValue cs

@[simp] theorem leBytes_length (w n : Nat) : (leBytes w n).length = w := by
  induction w generalizing n with
  | zero => rfl
  | succ w ih => rw [leBytes, List.length_cons, ih]

theorem leValue_leBytes (w n : Nat) : leValue (leBytes w n) = n % 256 ^ w := by
  induction w generalizing n with
  | zero =>
    rw [pow_zero, Nat.mod_one]
    rfl
  | succ w ih =>
    have hlow : (UInt8.ofNat n).toNat = n % 256 := UInt8.toNat_ofNat'
    rw [leBytes, leValue, ih, hlow, pow_succ', Nat.mod_mul]

def intBytes (x : Int32) : List UInt8 := leBytes 4 x.toUInt32.toNat

/-- The `int` at an offset. -/
def intAt (l : List UInt8) (offset : Nat) : Int32 :=
  (UInt32.ofNat (leValue ((l.drop offset).take 4))).toInt32

@[simp] theorem intBytes_length (x : Int32) : (intBytes x).length = 4 := leBytes_length 4 _

theorem intAt_intBytes (x : Int32) (rest : List UInt8) : intAt (intBytes x ++ rest) 0 = x := by
  have htake : (intBytes x ++ rest).take 4 = intBytes x := List.take_left' (intBytes_length x)
  have hlt : x.toUInt32.toNat < 256 ^ 4 := x.toUInt32.toNat_lt
  rw [intAt, List.drop_zero, htake, intBytes, leValue_leBytes, Nat.mod_eq_of_lt hlt,
    UInt32.ofNat_toNat]
  rfl

theorem intAt_append {front : List UInt8} {n : Nat} (h : front.length = n) (rest : List UInt8)
    (offset : Nat) : intAt (front ++ rest) (n + offset) = intAt rest offset := by
  rw [intAt, ← h, List.drop_length_add_append, intAt]

theorem intAt_flatMap (xs : List Int32) (k : Nat) :
    intAt (xs.flatMap intBytes) (4 * k) = xs.getD k 0 := by
  induction xs generalizing k with
  | nil =>
    rw [List.flatMap_nil, intAt, List.drop_nil]
    rfl
  | cons x xs ih =>
    rw [List.flatMap_cons]
    cases k with
    | zero => exact intAt_intBytes x _
    | succ k =>
      rw [Nat.mul_succ, Nat.add_comm, intAt_append (intBytes_length x), ih, List.getD_cons_succ]

section Chunks

variable {α : Type*} {f : α → List UInt8} {n : Nat}

theorem flatMap_length (hf : ∀ a, (f a).length = n) (l : List α) :
    (l.flatMap f).length = n * l.length := by
  induction l with
  | nil => rfl
  | cons a l ih =>
    rw [List.flatMap_cons, List.length_append, hf, ih, List.length_cons, Nat.mul_succ, Nat.add_comm]

theorem flatMap_chunk (hf : ∀ a, (f a).length = n) {l : List α} {k : Nat} {a : α}
    (hk : l[k]? = some a) : ((l.flatMap f).drop (n * k)).take n = f a := by
  induction l generalizing k with
  | nil => cases hk
  | cons b l ih =>
    rw [List.flatMap_cons]
    cases k with
    | zero =>
      have hab : b = a := Option.some.inj hk
      rw [Nat.mul_zero, List.drop_zero, List.take_left' (hf b), hab]
    | succ k =>
      rw [Nat.mul_succ, Nat.add_comm, ← hf b, List.drop_length_add_append, hf b]
      exact ih hk

end Chunks

namespace Buffer

variable {n : Nat}

theorem write_after {b : Buffer n} {front rest src : List UInt8} {k : Nat}
    (hb : b.bytes = front ++ rest) (hk : front.length = k) (hfit : src.length ≤ rest.length) :
    ∃ c, b.write k src = some c ∧ c.bytes = (front ++ src) ++ rest.drop src.length := by
  have hsize := b.bytes_length
  rw [hb, List.length_append, hk] at hsize
  refine ⟨_, write_eq_some (by omega), ?_⟩
  dsimp only
  rw [hb, ← hk, List.take_left, List.drop_length_add_append]

theorem padded_self (b : Buffer n) : padded n b.bytes = b :=
  Buffer.ext (List.take_left' b.bytes_length)

/-- The object after a `read` of its size from a file that goes on with `src`. -/
def overwrite (b : Buffer n) (src : List UInt8) : Buffer n :=
  ⟨src.take n ++ b.bytes.drop src.length, by
    rw [List.length_append, List.length_take, List.length_drop, bytes_length]
    omega⟩

theorem overwrite_bytes (b : Buffer n) (src : List UInt8) :
    (b.overwrite src).bytes = src.take n ++ b.bytes.drop src.length := rfl

theorem overwrite_nil (b : Buffer n) : b.overwrite [] = b := by
  ext1
  simp [overwrite]

theorem overwrite_full (b : Buffer n) {src : List UInt8} (h : n ≤ src.length) :
    (b.overwrite src).bytes = src.take n := by
  rw [overwrite_bytes, List.drop_eq_nil_of_le (by rw [bytes_length]; exact h), List.append_nil]

theorem overwrite_eq_self {b : Buffer n} {src : List UInt8} :
    b.overwrite src = b ↔ src.take n <+: b.bytes := by
  have hdrop : b.bytes.drop (src.take n).length = b.bytes.drop src.length := by
    rw [List.length_take]
    rcases le_total src.length n with hle | hle
    · rw [Nat.min_eq_right hle]
    · rw [Nat.min_eq_left hle, List.drop_eq_nil_of_le (by simp),
        List.drop_eq_nil_of_le (by simpa using hle)]
  rw [Buffer.ext_iff, overwrite_bytes, ← hdrop]
  constructor
  · exact fun h => ⟨_, h⟩
  · rintro ⟨rest, hrest⟩
    rw [← hrest, List.drop_left]

/-- The object after `k` reads from a file that holds `src`. -/
def reads (b : Buffer n) (src : List UInt8) : Nat → Buffer n
  | 0 => b
  | k + 1 => (reads b src k).overwrite (src.drop (n * k))

theorem reads_succ (b : Buffer n) (src : List UInt8) (k : Nat) :
    b.reads src (k + 1) = (b.reads src k).overwrite (src.drop (n * k)) := rfl

theorem reads_succ_left (b : Buffer n) (src : List UInt8) (k : Nat) :
    b.reads src (k + 1) = (b.overwrite src).reads (src.drop n) k := by
  induction k with
  | zero => rfl
  | succ k ih => rw [reads_succ, ih, reads_succ, List.drop_drop, Nat.mul_succ, Nat.add_comm n]

theorem reads_full (b : Buffer n) {src : List UInt8} {k : Nat} (h : n * (k + 1) ≤ src.length) :
    (b.reads src (k + 1)).bytes = (src.drop (n * k)).take n := by
  rw [reads_succ, overwrite_full]
  rw [List.length_drop]
  rw [Nat.mul_succ] at h
  omega

theorem reads_end (b : Buffer n) {src : List UInt8} {k j : Nat} (h : src.length ≤ n * k) :
    b.reads src (k + j) = b.reads src k := by
  induction j with
  | zero => rfl
  | succ j ih =>
    have hend : src.length ≤ n * (k + j) := h.trans (Nat.mul_le_mul_left n (Nat.le_add_right k j))
    rw [← Nat.add_assoc, reads_succ, List.drop_eq_nil_of_le hend, overwrite_nil, ih]

end Buffer

end TcpIot.Framework
