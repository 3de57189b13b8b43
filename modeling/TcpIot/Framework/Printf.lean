import Mathlib.Data.List.Basic
import Mathlib.Data.List.TakeWhile
import Mathlib.Tactic.Common

/-!
# `sprintf` with a text from outside as format

A call `sprintf(buf, format, n)` with one unsigned argument. Literal bytes are copied, `%%` stands
for one percent sign, and the first integer conversion prints the argument. Everything else is
undefined: a conversion that takes an argument of another kind, a second conversion, a width taken
from the arguments, a directive that is not complete. The argument is below 128, so a length
modifier changes nothing.
-/

namespace TcpIot.Framework

/-- `'%'`. -/
def percent : UInt8 := 37

namespace Printf

/-- A conversion specification behind its `%`, without the length modifier. -/
structure Directive where
  flags : List UInt8
  width : Nat
  precision : Option Nat
  conversion : UInt8

def isFlag (c : UInt8) : Bool := c = 45 ∨ c = 43 ∨ c = 32 ∨ c = 35 ∨ c = 48

def isDigit (c : UInt8) : Bool := 48 ≤ c ∧ c ≤ 57

/-- One of `h l j z t`. -/
def isLength (c : UInt8) : Bool := c = 104 ∨ c = 108 ∨ c = 106 ∨ c = 122 ∨ c = 116

def numeral (s : List UInt8) : Nat := s.foldl (fun n c => 10 * n + (c.toNat - 48)) 0

/-- The number at the start of a text, 0 when there is none, and the rest. -/
def readNumber (s : List UInt8) : Nat × List UInt8 :=
  (numeral (s.takeWhile isDigit), s.dropWhile isDigit)

/-- The precision, when the text goes on with a point. -/
def readPrecision : List UInt8 → Option Nat × List UInt8
  | 46 :: s => (some (readNumber s).1, (readNumber s).2)
  | s => (none, s)

def readDirective (s : List UInt8) : Option (Directive × List UInt8) :=
  let width := readNumber (s.dropWhile isFlag)
  let precision := readPrecision width.2
  match precision.2.dropWhile isLength with
  | [] => none
  | c :: rest => some (⟨s.takeWhile isFlag, width.1, precision.1, c⟩, rest)

def digit (upper : Bool) (d : Nat) : UInt8 :=
  UInt8.ofNat (if d < 10 then 48 + d else if upper then 55 + d else 87 + d)

/-- The digits of `n`; none for 0. -/
def digits (upper : Bool) (base : Nat) : Nat → Nat → List UInt8
  | 0, _ => []
  | fuel + 1, n =>
    if n = 0 then [] else digits upper base fuel (n / base) ++ [digit upper (n % base)]

/-- Pad to the width: on the right, with zeros behind the prefix, or on the left. -/
def pad (d : Directive) (lead body : List UInt8) : List UInt8 :=
  let missing := d.width - (lead.length + body.length)
  if 45 ∈ d.flags then lead ++ body ++ List.replicate missing 32
  else if 48 ∈ d.flags ∧ d.precision = none then lead ++ List.replicate missing 48 ++ body
  else List.replicate missing 32 ++ lead ++ body

/-- At least as many digits as the precision says. -/
def atLeast (precision : Nat) (ds : List UInt8) : List UInt8 :=
  List.replicate (precision - ds.length) 48 ++ ds

def sign (d : Directive) : List UInt8 :=
  if 43 ∈ d.flags then [43] else if 32 ∈ d.flags then [32] else []

/-- The text of the argument; `none` for a conversion that does not take an integer. -/
def convert (d : Directive) (n : Nat) : Option (List UInt8) :=
  let precision := d.precision.getD 1
  let decimal := atLeast precision (digits false 10 n n)
  let octal := digits false 8 n n
  let alternate := 35 ∈ d.flags ∧ n ≠ 0
  if d.conversion = 100 ∨ d.conversion = 105 then some (pad d (sign d) decimal)
  else if d.conversion = 117 then some (pad d [] decimal)
  else if d.conversion = 111 then
    let precision := if 35 ∈ d.flags then max precision (octal.length + 1) else precision
    some (pad d [] (atLeast precision octal))
  else if d.conversion = 120 then
    some (pad d (if alternate then [48, 120] else []) (atLeast precision (digits false 16 n n)))
  else if d.conversion = 88 then
    some (pad d (if alternate then [48, 88] else []) (atLeast precision (digits true 16 n n)))
  else if d.conversion = 99 then
    some (pad { d with precision := some 0 } [] [UInt8.ofNat n])
  else none

end Printf

/-- The text of `sprintf`; `arg` is the argument while it is not used up. -/
def sprintfFor : Nat → Option Nat → List UInt8 → Option (List UInt8)
  | _, _, [] => some []
  | 0, _, _ :: _ => none
  | fuel + 1, arg, c :: s =>
    if c ≠ percent then (sprintfFor fuel arg s).map (c :: ·)
    else if s.head? = some percent then (sprintfFor fuel arg s.tail).map (percent :: ·)
    else
      arg.bind fun n =>
      (Printf.readDirective s).bind fun r =>
      (Printf.convert r.1 n).bind fun text =>
        (sprintfFor fuel none r.2).map (text ++ ·)

/-- `sprintf(buf, format, n)`, before the store into `buf`. -/
def sprintf (format : List UInt8) (n : Nat) : Option (List UInt8) :=
  sprintfFor format.length (some n) format

/-- What `printf(format)` prints without an argument. -/
def printf (format : List UInt8) : Option (List UInt8) := sprintfFor format.length none format

namespace Printf

private theorem digit_ne_percent (upper : Bool) {d : Nat} (hd : d < 16) :
    digit upper d ≠ percent := by
  intro h
  have hvalue := congrArg UInt8.toNat h
  have hpercent : percent.toNat = 37 := rfl
  rw [digit, UInt8.toNat_ofNat', hpercent] at hvalue
  split_ifs at hvalue <;> omega

theorem percent_not_mem_digits {upper : Bool} {base : Nat} (hpos : 0 < base) (hbase : base ≤ 16)
    (fuel n : Nat) : percent ∉ digits upper base fuel n := by
  induction fuel generalizing n with
  | zero => exact List.not_mem_nil
  | succ fuel ih =>
    rw [digits]
    split
    · exact List.not_mem_nil
    · rw [List.mem_append, not_or, List.mem_singleton]
      exact ⟨ih _, (digit_ne_percent upper ((Nat.mod_lt n hpos).trans_le hbase)).symm⟩

private theorem percent_not_mem_replicate {k : Nat} {c : UInt8} (hc : c ≠ percent) :
    percent ∉ List.replicate k c := fun h => hc (List.eq_of_mem_replicate h).symm

theorem percent_not_mem_atLeast {precision : Nat} {ds : List UInt8} (h : percent ∉ ds) :
    percent ∉ atLeast precision ds := by
  rw [atLeast, List.mem_append, not_or]
  exact ⟨percent_not_mem_replicate (by decide), h⟩

theorem percent_not_mem_pad {d : Directive} {lead body : List UInt8} (hlead : percent ∉ lead)
    (hbody : percent ∉ body) : percent ∉ pad d lead body := by
  have hspaces (k : Nat) : percent ∉ List.replicate k (32 : UInt8) :=
    percent_not_mem_replicate (by decide)
  have hzeros (k : Nat) : percent ∉ List.replicate k (48 : UInt8) :=
    percent_not_mem_replicate (by decide)
  rw [pad]
  split_ifs <;> simp only [List.mem_append, not_or] <;> tauto

theorem percent_not_mem_convert {d : Directive} {n : Nat} (hn : UInt8.ofNat n ≠ percent)
    {text : List UInt8} (h : convert d n = some text) : percent ∉ text := by
  have hdigits (upper : Bool) (base precision : Nat) (hpos : 0 < base) (hbase : base ≤ 16) :
      percent ∉ atLeast precision (digits upper base n n) :=
    percent_not_mem_atLeast (percent_not_mem_digits hpos hbase n n)
  have hsign : percent ∉ sign d := by
    rw [sign]
    split_ifs <;> decide
  have hnil : percent ∉ ([] : List UInt8) := List.not_mem_nil
  simp only [convert] at h
  split_ifs at h <;> cases h
  case pos => exact percent_not_mem_pad hsign (hdigits _ 10 _ (by decide) (by decide))
  all_goals first
    | exact percent_not_mem_pad hnil (hdigits _ _ _ (by decide) (by decide))
    | exact percent_not_mem_pad (by decide) (hdigits _ _ _ (by decide) (by decide))
    | exact percent_not_mem_pad hnil (by simpa using hn.symm)

theorem readDirective_suffix {s rest : List UInt8} {d : Directive}
    (h : readDirective s = some (d, rest)) : rest <:+ s := by
  have hprecision (s : List UInt8) : (readPrecision s).2 <:+ s := by
    unfold readPrecision
    split
    · exact (List.dropWhile_suffix _).trans (List.suffix_cons _ _)
    · exact List.suffix_refl _
  simp only [readDirective] at h
  split at h
  · cases h
  · rename_i c after hafter
    cases h
    have hlast := List.suffix_cons c rest
    rw [← hafter] at hlast
    exact hlast.trans <| (List.dropWhile_suffix _).trans <| (hprecision _).trans <|
      (List.dropWhile_suffix _).trans (List.dropWhile_suffix _)

end Printf

theorem sprintfFor_literal {fuel : Nat} {s : List UInt8} (arg : Option Nat)
    (hfuel : s.length ≤ fuel) (h : percent ∉ s) : sprintfFor fuel arg s = some s := by
  induction s generalizing fuel with
  | nil => rw [sprintfFor]
  | cons c s ih =>
    obtain ⟨fuel, rfl⟩ : ∃ k, fuel = k + 1 := ⟨fuel - 1, by simp at hfuel; omega⟩
    obtain ⟨hc, hs⟩ := not_or.mp (fun hmem => h (List.mem_cons.mpr hmem))
    rw [sprintfFor, if_pos (Ne.symm hc), ih (Nat.le_of_succ_le_succ hfuel) hs, Option.map_some]

theorem sprintfFor_percents {fuel : Nat} {arg : Option Nat} {s text : List UInt8}
    (harg : ∀ n ∈ arg, UInt8.ofNat n ≠ percent) (h : sprintfFor fuel arg s = some text) :
    text.count percent ≤ s.count percent ∧
      (percent ∈ s → text.count percent < s.count percent) := by
  induction fuel generalizing arg s text with
  | zero =>
    cases s with
    | nil =>
      cases h
      exact ⟨le_rfl, fun hmem => by cases hmem⟩
    | cons c s => cases h
  | succ fuel ih =>
    cases s with
    | nil =>
      cases h
      exact ⟨le_rfl, fun hmem => by cases hmem⟩
    | cons c s =>
      rw [sprintfFor] at h
      split_ifs at h with hc hpair
      · obtain ⟨rest, hrest, rfl⟩ := Option.map_eq_some_iff.mp h
        obtain ⟨hle, hlt⟩ := ih harg hrest
        rw [List.count_cons_of_ne hc, List.count_cons_of_ne hc]
        exact ⟨hle, fun hmem => hlt ((List.mem_cons.mp hmem).resolve_left (Ne.symm hc))⟩
      · obtain ⟨rest, hrest, rfl⟩ := Option.map_eq_some_iff.mp h
        obtain ⟨tail, rfl⟩ := List.head?_eq_some_iff.mp hpair
        have hle := (ih harg hrest).1
        rw [not_ne_iff.mp hc, List.count_cons_self, List.count_cons_self, List.count_cons_self]
        rw [List.tail_cons] at hle
        omega
      · obtain ⟨n, hn, hdirective⟩ := Option.bind_eq_some_iff.mp h
        obtain ⟨⟨d, after⟩, hread, hconversion⟩ := Option.bind_eq_some_iff.mp hdirective
        obtain ⟨out, hconvert, htext⟩ := Option.bind_eq_some_iff.mp hconversion
        obtain ⟨rest, hrest, rfl⟩ := Option.map_eq_some_iff.mp htext
        have hle : rest.count percent ≤ after.count percent := (ih (by simp) hrest).1
        have hsuffix := (Printf.readDirective_suffix hread).sublist.count_le percent
        have hout := Printf.percent_not_mem_convert (harg n hn) hconvert
        rw [not_ne_iff.mp hc, List.count_cons_self, List.count_append,
          List.count_eq_zero_of_not_mem hout]
        omega

theorem sprintf_literal {format : List UInt8} (n : Nat) (h : percent ∉ format) :
    sprintf format n = some format := sprintfFor_literal (some n) le_rfl h

private theorem sprintfFor_append {fuel k : Nat} {s t : List UInt8} (ht : percent ∉ t)
    (hs : s.length ≤ k) (hboth : (s ++ t).length ≤ fuel) :
    (sprintfFor fuel none (s ++ t)).isSome = (sprintfFor k none s).isSome := by
  induction k generalizing fuel s with
  | zero =>
    rw [List.length_eq_zero_iff.mp (Nat.le_zero.mp hs), List.nil_append] at *
    rw [sprintfFor_literal none hboth ht]
    rfl
  | succ k ih =>
    cases s with
    | nil =>
      rw [List.nil_append] at hboth ⊢
      rw [sprintfFor_literal none hboth ht]
      rfl
    | cons c s =>
      obtain ⟨fuel, rfl⟩ : ∃ j, fuel = j + 1 := ⟨fuel - 1, by simp at hboth; omega⟩
      have htail := Nat.le_of_succ_le_succ hboth
      rw [List.cons_append, sprintfFor, sprintfFor]
      by_cases hc : c ≠ percent
      · rw [if_pos hc, if_pos hc, Option.isSome_map, Option.isSome_map,
          ih (Nat.le_of_succ_le_succ hs) htail]
      · rw [if_neg hc, if_neg hc]
        match s with
        | [] =>
          have hhead : t.head? ≠ some percent := fun h => ht (List.mem_of_mem_head? h)
          rw [List.nil_append, if_neg hhead]
          rfl
        | d :: s =>
          by_cases hd : d = percent
          · have hpair : (d :: s).head? = some percent := congrArg some hd
            have hpair' : (d :: s ++ t).head? = some percent := congrArg some hd
            rw [if_pos hpair, if_pos hpair', Option.isSome_map, Option.isSome_map]
            exact ih (Nat.le_of_succ_le (Nat.le_of_succ_le_succ hs)) (Nat.le_of_succ_le htail)
          · have hpair : (d :: s).head? ≠ some percent := fun h => hd (Option.some.inj h)
            have hpair' : (d :: s ++ t).head? ≠ some percent := fun h => hd (Option.some.inj h)
            rw [if_neg hpair, if_neg hpair']
            rfl

/-- A text without percent signs behind a format changes nothing. -/
theorem printf_append_isSome (s : List UInt8) {t : List UInt8} (ht : percent ∉ t) :
    (printf (s ++ t)).isSome = (printf s).isSome :=
  sprintfFor_append ht le_rfl le_rfl

/-- A text with a percent sign is not printed as it is. -/
theorem sprintf_percents {format text : List UInt8} {n : Nat} (hn : UInt8.ofNat n ≠ percent)
    (h : sprintf format n = some text) (hmem : percent ∈ format) :
    text.count percent < format.count percent :=
  (sprintfFor_percents (by simpa using hn) h).2 hmem

end TcpIot.Framework
