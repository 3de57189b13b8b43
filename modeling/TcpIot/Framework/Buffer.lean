import Mathlib.Data.List.TakeWhile
import Mathlib.Tactic.Common

/-!
# C byte arrays

A `Buffer n` is a `char` array of `n` bytes. Copies name the range they touch as an `Access`
with `int` bounds, so a negative length or a range past the end is visible; a copy whose range
is out of bounds is undefined and yields `none`. A `CString n` is the NUL-terminated text that
such an array holds.
-/

namespace TcpIot.Framework

/-- The byte range `[start, start + count)` of an array of `size` bytes. -/
structure Access where
  size : Nat
  start : Int
  count : Int
deriving DecidableEq, Repr

def Access.InBounds (a : Access) : Prop := 0 ≤ a.start ∧ 0 ≤ a.count ∧ a.start + a.count ≤ a.size

instance (a : Access) : Decidable a.InBounds := inferInstanceAs (Decidable (_ ∧ _ ∧ _))

theorem Access.inBounds_mk (size : Nat) (start count : Int) :
    (Access.mk size start count).InBounds ↔ 0 ≤ start ∧ 0 ≤ count ∧ start + count ≤ size :=
  Iff.rfl

structure Buffer (n : Nat) where
  bytes : List UInt8
  length_eq : bytes.length = n
deriving DecidableEq

namespace Buffer

variable {n m : Nat}

@[ext] theorem ext {b c : Buffer n} (h : b.bytes = c.bytes) : b = c := by
  cases b
  cases c
  simpa using h

@[simp] theorem bytes_length (b : Buffer n) : b.bytes.length = n := b.length_eq

def zero (n : Nat) : Buffer n := ⟨List.replicate n 0, List.length_replicate⟩

@[simp] theorem zero_bytes (n : Nat) : (zero n).bytes = List.replicate n 0 := rfl

/-- The array that starts with `front` and is zero from there on. -/
def padded (n : Nat) (front : List UInt8) : Buffer n :=
  ⟨(front ++ List.replicate n 0).take n, by
    rw [List.length_take, List.length_append, List.length_replicate]
    omega⟩

def get (b : Buffer n) (i : Fin n) : UInt8 := b.bytes.get (i.cast b.length_eq.symm)

def read (b : Buffer n) (start count : Int) : Option (List UInt8) :=
  if Access.InBounds ⟨n, start, count⟩ then
    some ((b.bytes.drop start.toNat).take count.toNat)
  else none

def write (b : Buffer n) (start : Int) (src : List UInt8) : Option (Buffer n) :=
  if h : Access.InBounds ⟨n, start, src.length⟩ then
    some ⟨b.bytes.take start.toNat ++ src ++ b.bytes.drop (start.toNat + src.length), by
      simp only [Access.inBounds_mk] at h
      simp only [List.length_append, List.length_take, List.length_drop, bytes_length]
      omega⟩
  else none

/-- `memmove(dst + dstart, src + sstart, count)`; the source range is read before the store,
so the two ranges may overlap. -/
def memmove (dst : Buffer n) (dstart : Int) (src : Buffer m) (sstart count : Int) :
    Option (Buffer n) := (src.read sstart count).bind (dst.write dstart)

theorem read_eq_some {b : Buffer n} {start count : Int} {l : List UInt8} :
    b.read start count = some l ↔
      Access.InBounds ⟨n, start, count⟩ ∧ (b.bytes.drop start.toNat).take count.toNat = l := by
  unfold read
  split
  · rename_i hin
    simp [hin]
  · rename_i hout
    simp [hout]

theorem read_isSome {b : Buffer n} {start count : Int} :
    (b.read start count).isSome ↔ Access.InBounds ⟨n, start, count⟩ := by
  unfold read
  split
  · rename_i hin
    simp [hin]
  · rename_i hout
    simp [hout]

theorem read_length {b : Buffer n} {start count : Int} {l : List UInt8}
    (h : b.read start count = some l) : (l.length : Int) = count := by
  obtain ⟨hin, rfl⟩ := read_eq_some.mp h
  rw [Access.inBounds_mk] at hin
  simp only [List.length_take, List.length_drop, bytes_length]
  omega

theorem write_isSome {b : Buffer n} {start : Int} {src : List UInt8} :
    (b.write start src).isSome ↔ Access.InBounds ⟨n, start, src.length⟩ := by
  unfold write
  split
  · rename_i hin
    simp [hin]
  · rename_i hout
    simp [hout]

theorem write_bytes {b c : Buffer n} {start : Int} {src : List UInt8}
    (h : b.write start src = some c) :
    c.bytes = b.bytes.take start.toNat ++ src ++ b.bytes.drop (start.toNat + src.length) := by
  unfold write at h
  split at h
  · cases h
    rfl
  · cases h

theorem write_eq_some {b : Buffer n} {start : Nat} {src : List UInt8}
    (h : start + src.length ≤ n) :
    b.write start src =
      some ⟨b.bytes.take start ++ src ++ b.bytes.drop (start + src.length), by
        simp only [List.length_append, List.length_take, List.length_drop, bytes_length]
        omega⟩ := by
  have hin : Access.InBounds ⟨n, start, src.length⟩ := by
    rw [Access.inBounds_mk]
    omega
  simp only [write, hin, dite_true, Int.toNat_natCast]

theorem get_eq_getD (b : Buffer n) (i : Fin n) : b.get i = b.bytes.getD i 0 := by
  simp [get]

theorem write_zero {b : Buffer n} {src : List UInt8} (h : src.length ≤ n) :
    ∃ c, b.write 0 src = some c ∧ c.bytes = src ++ b.bytes.drop src.length := by
  refine ⟨_, @write_eq_some _ _ 0 _ (by omega), ?_⟩
  simp

theorem write_take (b : Buffer n) {src : List UInt8} {count : Int} (hcount : count = src.length)
    (hfit : src.length ≤ n) (rest : List UInt8) :
    ∃ c, b.write 0 ((src ++ rest).take count.toNat) = some c ∧
      (src ++ rest).drop count.toNat = rest ∧ c.bytes = src ++ b.bytes.drop src.length := by
  rw [hcount, Int.toNat_natCast, List.take_left, List.drop_left]
  obtain ⟨c, hc, hbytes⟩ := @write_zero _ b src hfit
  exact ⟨c, hc, rfl, hbytes⟩

theorem memmove_isSome {dst : Buffer n} {src : Buffer m} {dstart sstart count : Int} :
    (dst.memmove dstart src sstart count).isSome ↔
      Access.InBounds ⟨m, sstart, count⟩ ∧ Access.InBounds ⟨n, dstart, count⟩ := by
  unfold memmove
  cases hr : src.read sstart count with
  | none =>
    have hno : ¬ Access.InBounds ⟨m, sstart, count⟩ := by
      rw [← read_isSome (b := src), hr]
      simp
    simp [hno]
  | some l =>
    have hin : Access.InBounds ⟨m, sstart, count⟩ := (read_eq_some.mp hr).1
    rw [Option.bind_some, write_isSome, read_length hr]
    simp [hin]

theorem memmove_eq_some (dst : Buffer n) (src : Buffer m) {dstart sstart count : Int}
    (hs : Access.InBounds ⟨m, sstart, count⟩) (hd : Access.InBounds ⟨n, dstart, count⟩) :
    ∃ c, dst.memmove dstart src sstart count = some c ∧
      c.bytes = dst.bytes.take dstart.toNat ++
        (src.bytes.drop sstart.toNat).take count.toNat ++
        dst.bytes.drop (dstart.toNat + count.toNat) := by
  have hsome := (@memmove_isSome n m dst src dstart sstart count).mpr ⟨hs, hd⟩
  obtain ⟨c, hc⟩ := Option.isSome_iff_exists.mp hsome
  refine ⟨c, hc, ?_⟩
  obtain ⟨l, hl, hwrite⟩ := Option.bind_eq_some_iff.mp hc
  have hlen := read_length hl
  obtain ⟨-, rfl⟩ := read_eq_some.mp hl
  rw [write_bytes hwrite]
  congr 3
  omega

/-- `memmove(b, b + skip, len); b[len] = 0;` -/
def shiftDown (b : Buffer n) (skip len : Int) : Option (Buffer n) :=
  (b.memmove 0 b skip len).bind fun moved => moved.write len [0]

def shiftDownAccesses (n : Nat) (skip len : Int) : List Access :=
  [⟨n, skip, len⟩, ⟨n, 0, len⟩, ⟨n, len, 1⟩]

theorem shiftDown_isSome (b : Buffer n) (skip len : Int) :
    (b.shiftDown skip len).isSome ↔ ∀ a ∈ shiftDownAccesses n skip len, a.InBounds := by
  simp only [shiftDownAccesses, List.forall_mem_cons, List.not_mem_nil, false_implies,
    implies_true, and_true]
  rw [← and_assoc, ← @memmove_isSome _ _ b b]
  unfold shiftDown
  cases b.memmove 0 b skip len with
  | none => simp
  | some moved => simp [write_isSome]

theorem shiftDownAccesses_inBounds {n : Nat} {skip len : Int} (hskip : 0 < skip)
    (hlen : 0 ≤ len) (hfit : skip + len ≤ n) : ∀ a ∈ shiftDownAccesses n skip len, a.InBounds := by
  simp only [shiftDownAccesses, List.forall_mem_cons, List.not_mem_nil, false_implies,
    implies_true, and_true, Access.inBounds_mk]
  omega

theorem shiftDown_eq_some {b : Buffer n} {head body tail : List UInt8}
    (hbytes : b.bytes = head ++ (body ++ tail)) (hhead : head ≠ []) :
    ∃ c after, b.shiftDown head.length body.length = some c ∧ c.bytes = body ++ 0 :: after := by
  have hpos := List.length_pos_iff.mpr hhead
  have hsize := b.bytes_length
  rw [hbytes] at hsize
  simp only [List.length_append] at hsize
  obtain ⟨moved, hmoved, hmovedBytes⟩ := @memmove_eq_some _ _ b b 0 head.length body.length
    (by rw [Access.inBounds_mk]; omega) (by rw [Access.inBounds_mk]; omega)
  rw [hbytes] at hmovedBytes
  simp only [Int.toNat_zero, Int.toNat_natCast, List.take_zero, List.nil_append,
    List.drop_left, List.take_left] at hmovedBytes
  have hwrite : (moved.write body.length [0]).isSome := by
    rw [write_isSome, Access.inBounds_mk, List.length_singleton]
    omega
  obtain ⟨c, hc⟩ := Option.isSome_iff_exists.mp hwrite
  refine ⟨c, moved.bytes.drop (body.length + 1), ?_, ?_⟩
  · rw [shiftDown, hmoved, Option.bind_some, hc]
  · rw [write_bytes hc, hmovedBytes, Int.toNat_natCast, List.take_left, List.append_assoc]
    rfl

/-- The text before the first NUL; `none` when the array holds no NUL. -/
def cstr (b : Buffer n) : Option (List UInt8) :=
  if 0 ∈ b.bytes then some (b.bytes.takeWhile (· ≠ 0)) else none

theorem cstr_isSome {b : Buffer n} : b.cstr.isSome ↔ 0 ∈ b.bytes := by
  unfold cstr
  split
  · rename_i hnul
    simp [hnul]
  · rename_i hnul
    simp [hnul]

theorem takeWhile_noNul {s : List UInt8} (hs : 0 ∉ s) : s.takeWhile (· ≠ 0) = s := by
  rw [List.takeWhile_eq_self_iff]
  intro c hc
  have hne : c ≠ 0 := fun h0 => hs (h0 ▸ hc)
  simpa using hne

theorem cstr_append_zero {b : Buffer n} {s rest : List UInt8} (h : b.bytes = s ++ 0 :: rest) :
    b.cstr = some (s.takeWhile (· ≠ 0)) := by
  have htake (l : List UInt8) :
      (l ++ 0 :: rest).takeWhile (· ≠ (0 : UInt8)) = l.takeWhile (· ≠ 0) := by
    induction l with
    | nil => simp
    | cons c l ih => rw [List.cons_append, List.takeWhile_cons, List.takeWhile_cons, ih]
  rw [cstr, if_pos (by simp [h]), h, htake]

theorem cstr_of_append {b : Buffer n} {s rest : List UInt8} (h : b.bytes = s ++ 0 :: rest)
    (hs : 0 ∉ s) : b.cstr = some s := by
  rw [cstr_append_zero h, takeWhile_noNul hs]

private theorem split_at_nul {l : List UInt8} (h : 0 ∈ l) :
    ∃ rest, l = l.takeWhile (· ≠ 0) ++ 0 :: rest := by
  induction l with
  | nil => cases h
  | cons c l ih =>
    by_cases hc : c = 0
    · exact ⟨l, by simp [hc]⟩
    · obtain ⟨rest, hrest⟩ := ih ((List.mem_cons.mp h).resolve_left (Ne.symm hc))
      refine ⟨rest, ?_⟩
      rw [List.takeWhile_cons_of_pos (by simpa using hc), List.cons_append, ← hrest]

theorem cstr_eq_some {b : Buffer n} {s : List UInt8} :
    b.cstr = some s ↔ 0 ∉ s ∧ ∃ rest, b.bytes = s ++ 0 :: rest := by
  constructor
  · intro h
    unfold cstr at h
    split at h
    · rename_i hnul
      cases h
      refine ⟨fun h0 => ?_, split_at_nul hnul⟩
      simpa using List.mem_takeWhile_imp h0
    · cases h
  · rintro ⟨hs, rest, hrest⟩
    exact cstr_of_append hrest hs

/-- The bytes that `strlen(b)` looks at: the text and its NUL, or one byte past the array. -/
def strlenAccess (b : Buffer n) : Access := ⟨n, 0, (b.bytes.takeWhile (· ≠ 0)).length + 1⟩

theorem strlenAccess_inBounds {b : Buffer n} : b.strlenAccess.InBounds ↔ 0 ∈ b.bytes := by
  rw [strlenAccess, Access.inBounds_mk]
  constructor
  · intro hin
    by_contra hnul
    rw [takeWhile_noNul hnul, b.bytes_length] at hin
    omega
  · intro hnul
    obtain ⟨rest, hrest⟩ := split_at_nul hnul
    have hlen := congrArg List.length hrest
    simp only [b.bytes_length, List.length_append, List.length_cons] at hlen
    omega

theorem nul_mem_iff {b : Buffer n} : 0 ∈ b.bytes ↔ (b.bytes.takeWhile (· ≠ 0)).length < n := by
  rw [← strlenAccess_inBounds, strlenAccess, Access.inBounds_mk]
  omega

/-- `strcpy(b, s)` for a terminated text `s`. -/
def strcpy (b : Buffer n) (s : List UInt8) : Option (Buffer n) := b.write 0 (s ++ [0])

theorem strcpy_isSome {b : Buffer n} {s : List UInt8} (h : s.length < n) :
    (b.strcpy s).isSome := by
  rw [strcpy, write_isSome, Access.inBounds_mk, List.length_append, List.length_singleton]
  omega

/-- `strcat(b, s)`. -/
def strcat (b : Buffer n) (s : List UInt8) : Option (Buffer n) :=
  b.cstr.bind fun old => b.write old.length (s ++ [0])

theorem strcpy_bytes (b : Buffer n) {s : List UInt8} (h : s.length < n) :
    ∃ c, b.strcpy s = some c ∧ c.bytes = s ++ 0 :: b.bytes.drop (s.length + 1) := by
  obtain ⟨c, hc, hbytes⟩ := @write_zero _ b (s ++ [0])
    (by rw [List.length_append, List.length_singleton]; omega)
  refine ⟨c, hc, ?_⟩
  rw [hbytes, List.append_assoc, List.length_append, List.length_singleton, List.singleton_append]

theorem strcpy_fits (b : Buffer n) {s : List UInt8} (h : s.length < n) :
    ∃ c, b.strcpy s = some c ∧ c.cstr = some (s.takeWhile (· ≠ 0)) := by
  obtain ⟨c, hc, hbytes⟩ := b.strcpy_bytes h
  exact ⟨c, hc, cstr_append_zero hbytes⟩

theorem strcpy_overruns (b : Buffer n) {s : List UInt8} (h : n ≤ s.length) :
    b.strcpy s = none := by
  rw [← Option.not_isSome_iff_eq_none, strcpy, write_isSome, Access.inBounds_mk,
    List.length_append, List.length_singleton]
  omega

theorem strcat_fits {b : Buffer n} {s t : List UInt8} (h : b.cstr = some s) (ht : 0 ∉ t)
    (hfit : s.length + t.length < n) : ∃ c, b.strcat t = some c ∧ c.cstr = some (s ++ t) := by
  obtain ⟨hs, rest, hrest⟩ := cstr_eq_some.mp h
  have hsome : (b.strcat t).isSome := by
    rw [strcat, h, Option.bind_some, write_isSome, Access.inBounds_mk, List.length_append,
      List.length_singleton]
    omega
  obtain ⟨c, hc⟩ := Option.isSome_iff_exists.mp hsome
  refine ⟨c, hc, ?_⟩
  rw [strcat, h, Option.bind_some] at hc
  have hbytes := write_bytes hc
  rw [hrest, Int.toNat_natCast, List.take_left, ← List.append_assoc s, List.append_assoc] at hbytes
  refine cstr_of_append hbytes ?_
  rw [List.mem_append]
  exact not_or.mpr ⟨hs, ht⟩

theorem strcat_overruns {b : Buffer n} {s t : List UInt8} (h : b.cstr = some s)
    (hlong : n ≤ s.length + t.length) : b.strcat t = none := by
  rw [← Option.not_isSome_iff_eq_none, strcat, h, Option.bind_some, write_isSome,
    Access.inBounds_mk, List.length_append, List.length_singleton]
  omega

end Buffer

/-- A NUL-terminated text stored in a `char` array of `n` bytes. -/
structure CString (n : Nat) where
  chars : List UInt8
  fits : chars.length < n
  noNul : 0 ∉ chars
deriving DecidableEq

namespace CString

variable {n : Nat}

@[ext] theorem ext {s t : CString n} (h : s.chars = t.chars) : s = t := by
  cases s
  cases t
  simpa using h

def empty (n : Nat) : CString (n + 1) := ⟨[], Nat.succ_pos n, List.not_mem_nil⟩

/-- `strcpy` into the array; undefined when the text and its NUL do not fit. -/
def ofChars (n : Nat) (s : List UInt8) : Option (CString n) :=
  if h : s.length < n ∧ 0 ∉ s then some ⟨s, h.1, h.2⟩ else none

theorem ofChars_eq_some {s : List UInt8} {t : CString n} :
    ofChars n s = some t ↔ t.chars = s := by
  unfold ofChars
  constructor
  · intro h
    split at h
    · cases h
      rfl
    · cases h
  · rintro rfl
    simp [t.fits, t.noNul]

end CString

end TcpIot.Framework
