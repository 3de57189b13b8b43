import Mathlib.Data.List.DropRight
import TcpIot.Framework.Printf

/-!
# Integers in a text

`%d` of `fscanf` skips white space and takes a sign and digits. It reports the end of the input
when nothing else is left, and leaves a text that starts otherwise unread. The number that a
numeral stands for is a parameter, since a numeral may be out of range.
-/

namespace TcpIot.Framework

namespace Scanf

open Printf

def isSpace (c : UInt8) : Bool := c = 32 ∨ (9 ≤ c ∧ c ≤ 13)

def isSign (c : UInt8) : Bool := c = 43 ∨ c = 45

/-- The numeral at the start of a text; empty when there is none. -/
def numeralOf : List UInt8 → List UInt8
  | [] => []
  | c :: s =>
    if isSign c then
      if s.takeWhile isDigit = [] then [] else c :: s.takeWhile isDigit
    else (c :: s).takeWhile isDigit

/-- The number that a numeral stands for. -/
def intValue : List UInt8 → Int
  | [] => 0
  | c :: s =>
    if c = 45 then -(numeral s : Int)
    else if c = 43 then numeral s
    else numeral (c :: s)

/-- What `%d` finds, and what it leaves unread. -/
inductive Conversion where
  | eof
  | mismatch (rest : List UInt8)
  | int (text rest : List UInt8)
deriving DecidableEq

def convert (input : List UInt8) : Conversion :=
  let s := input.dropWhile isSpace
  if s = [] then .eof
  else if numeralOf s = [] then .mismatch s
  else .int (numeralOf s) (s.drop (numeralOf s).length)

theorem convert_int_length {input text rest : List UInt8} (h : convert input = .int text rest) :
    rest.length < input.length := by
  have hle : (input.dropWhile isSpace).length ≤ input.length :=
    (List.dropWhile_sublist isSpace).length_le
  simp only [convert] at h
  split at h
  · cases h
  · rename_i hs
    split at h
    · cases h
    · rename_i hnumeral
      cases h
      have hpos := List.length_pos_iff.mpr hs
      have hread := List.length_pos_iff.mpr hnumeral
      rw [List.length_drop]
      omega

theorem convert_mismatch {input rest : List UInt8} (h : convert input = .mismatch rest) :
    convert rest = .mismatch rest := by
  simp only [convert] at h
  split at h
  · cases h
  · rename_i hs
    split at h
    · rename_i hnumeral
      cases h
      simp only [convert, List.dropWhile_idempotent, if_neg hs, if_pos hnumeral]
    · cases h

theorem convert_nil : convert [] = .eof := rfl

/-- The integers that `%d` reads from the start of a text, and whether the text ends with them. -/
def integers {β : Type*} (value : List UInt8 → β) (input : List UInt8) : List β × Bool :=
  match h : convert input with
  | .eof => ([], true)
  | .mismatch _ => ([], false)
  | .int text rest =>
    have : rest.length < input.length := convert_int_length h
    (value text :: (integers value rest).1, (integers value rest).2)
termination_by input.length

section Integers

variable {β : Type*} {value : List UInt8 → β} {input text rest : List UInt8}

theorem integers_eof (h : convert input = .eof) : integers value input = ([], true) := by
  rw [integers]
  split <;> rename_i h' <;> rw [h] at h' <;> cases h'

theorem integers_mismatch (h : convert input = .mismatch rest) :
    integers value input = ([], false) := by
  rw [integers]
  split <;> rename_i h' <;> rw [h] at h' <;> cases h'

theorem integers_int (h : convert input = .int text rest) :
    integers value input =
      (value text :: (integers value rest).1, (integers value rest).2) := by
  rw [integers]
  split <;> rename_i h' <;> rw [h] at h' <;> cases h'
  rfl

end Integers

/-- `atoi`. -/
def atoi (s : List UInt8) : Int := intValue (numeralOf (s.dropWhile isSpace))

theorem isDigit_iff {c : UInt8} : isDigit c ↔ 48 ≤ c.toNat ∧ c.toNat ≤ 57 := by
  rw [isDigit, decide_eq_true_eq, UInt8.le_iff_toNat_le, UInt8.le_iff_toNat_le]
  rfl

theorem isDigit_not_space {c : UInt8} (h : isDigit c) : isSpace c = false ∧ isSign c = false := by
  rw [isDigit_iff] at h
  simp only [isSpace, isSign, decide_eq_false_iff_not, ← UInt8.toNat_inj, UInt8.le_iff_toNat_le]
  have h32 : (32 : UInt8).toNat = 32 := rfl
  have h13 : (13 : UInt8).toNat = 13 := rfl
  have h43 : (43 : UInt8).toNat = 43 := rfl
  have h45 : (45 : UInt8).toNat = 45 := rfl
  omega

theorem atoi_digits {text : List UInt8} (h : ∀ c ∈ text, isDigit c) (rest : List UInt8) :
    atoi (text ++ 0 :: rest) = numeral text := by
  have htake : (text ++ 0 :: rest).takeWhile isDigit = text := by
    rw [List.takeWhile_append_of_pos h]
    simp [isDigit]
  cases text with
  | nil => rfl
  | cons c text =>
    obtain ⟨hspace, hsign⟩ := isDigit_not_space (h c List.mem_cons_self)
    have hvalue : intValue (c :: text) = numeral (c :: text) := by
      simp only [isSign, decide_eq_false_iff_not, not_or] at hsign
      rw [intValue, if_neg hsign.2, if_neg hsign.1]
    rw [atoi, List.cons_append, List.dropWhile_cons_of_neg (by simp [hspace]), numeralOf,
      if_neg (by simp [hsign]), ← List.cons_append, htake, hvalue]

end Scanf

end TcpIot.Framework
