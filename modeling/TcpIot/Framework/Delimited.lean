import Mathlib.Data.List.Infix
import TcpIot.Framework.Framing

/-!
# Text between delimiters

`expect` takes a fixed text off the front of a stream, `upTo` the text in front of the first
occurrence of a delimiter. A delimiter whose first element does not occur in it again cannot
overlap itself, so a text is read back up to its delimiter exactly when it does not hold it.
-/

namespace TcpIot.Framework

variable {β : Type*} [DecidableEq β]

/-- The stream behind `front`. -/
def expect (front s : List β) : Option (List β) :=
  if front <+: s then some (s.drop front.length) else none

/-- The text in front of the first `delim`, and what is behind it. -/
def upTo (delim : List β) : List β → Option (List β × List β)
  | [] => if delim = [] then some ([], []) else none
  | c :: s =>
    if delim <+: c :: s then some ([], (c :: s).drop delim.length)
    else (upTo delim s).map fun r => (c :: r.1, r.2)

theorem expect_append (front rest : List β) : expect front (front ++ rest) = some rest := by
  rw [expect, if_pos (List.prefix_append _ _), List.drop_left]

theorem expect_eq_some {front s rest : List β} (h : expect front s = some rest) :
    s = front ++ rest := by
  rw [expect] at h
  split at h
  · rename_i hfront
    obtain ⟨tail, rfl⟩ := hfront
    rw [List.drop_left] at h
    rw [Option.some.inj h]
  · cases h

theorem upTo_eq_some {delim s text rest : List β} (h : upTo delim s = some (text, rest)) :
    s = text ++ (delim ++ rest) := by
  induction s generalizing text with
  | nil =>
    rw [upTo] at h
    split at h
    · rename_i hnil
      cases h
      rw [hnil]
      rfl
    · cases h
  | cons c s ih =>
    rw [upTo] at h
    split at h
    · rename_i hdelim
      obtain ⟨tail, htail⟩ := hdelim
      cases h
      rw [← htail, List.drop_left]
      rfl
    · obtain ⟨r, hr, heq⟩ := Option.map_eq_some_iff.mp h
      cases heq
      rw [ih hr]
      rfl

theorem upTo_delim (delim rest : List β) : upTo delim (delim ++ rest) = some ([], rest) := by
  cases hs : delim ++ rest with
  | nil =>
    obtain ⟨rfl, rfl⟩ := List.append_eq_nil_iff.mp hs
    rfl
  | cons c s =>
    rw [upTo, if_pos (hs ▸ List.prefix_append delim rest), ← hs, List.drop_left]

/-- The first element of the delimiter does not occur in it again. -/
def Unbordered (delim : List β) : Prop := ∃ c tail, delim = c :: tail ∧ c ∉ tail

omit [DecidableEq β] in
private theorem Unbordered.not_prefix {delim : List β} (hdelim : Unbordered delim)
    {text : List β} (hne : text ≠ []) (h : ¬ delim <:+: text) (rest : List β) :
    ¬ delim <+: text ++ (delim ++ rest) := by
  intro hinit
  obtain ⟨c, tail, rfl, hc⟩ := hdelim
  rcases List.prefix_or_prefix_of_prefix hinit (List.prefix_append text _) with hin | hout
  · exact h hin.isInfix
  · -- The text is a proper start of the delimiter, so the delimiter starts again inside itself.
    obtain ⟨v, hv⟩ := hout
    obtain ⟨b, text, rfl⟩ := List.exists_cons_of_ne_nil hne
    rw [List.cons_append] at hv
    obtain ⟨rfl, rfl⟩ := List.cons.inj hv
    rw [List.cons_append, List.cons_append, List.cons_prefix_cons] at hinit
    have hsecond := (List.prefix_append_right_inj text).mp hinit.2
    cases v with
    | nil =>
      rw [List.append_nil] at h
      exact h (List.infix_refl _)
    | cons d v =>
      rw [List.cons_prefix_cons] at hsecond
      rw [hsecond.1] at hc
      exact hc (by simp)

theorem upTo_append {delim : List β} (hdelim : Unbordered delim) {text : List β}
    (h : ¬ delim <:+: text) (rest : List β) :
    upTo delim (text ++ (delim ++ rest)) = some (text, rest) := by
  induction text with
  | nil => exact upTo_delim delim rest
  | cons c text ih =>
    have hno := hdelim.not_prefix (List.cons_ne_nil c text) h rest
    have htext : ¬ delim <:+: text := fun hin => h (hin.trans (List.suffix_cons c text).isInfix)
    rw [List.cons_append] at hno
    rw [List.cons_append, upTo, if_neg hno, ih htext, Option.map_some]

theorem upTo_shorter {delim text : List β} (hne : delim ≠ []) (h : delim <:+: text)
    {rest read left : List β} (hread : upTo delim (text ++ rest) = some (read, left)) :
    read.length < text.length := by
  induction text generalizing read with
  | nil => exact absurd (List.infix_nil.mp h) hne
  | cons c text ih =>
    rw [List.cons_append, upTo] at hread
    split at hread
    · cases hread
      exact Nat.succ_pos _
    · rename_i hno
      obtain ⟨r, hr, heq⟩ := Option.map_eq_some_iff.mp hread
      cases heq
      rcases List.infix_cons_iff.mp h with hinit | hin
      · exact absurd (hinit.trans (List.prefix_append (c :: text) rest)) hno
      · exact Nat.succ_lt_succ (ih hin hr)

theorem upTo_prefix {delim : List β} (hdelim : Unbordered delim) {text rest read left : List β}
    (hread : upTo delim (text ++ (delim ++ rest)) = some (read, left)) :
    read <+: text ∧ (read = text → ¬ delim <:+: text) := by
  by_cases hin : delim <:+: text
  · have hne : delim ≠ [] := by
      obtain ⟨c, tail, rfl, -⟩ := hdelim
      exact List.cons_ne_nil c tail
    have hshort := upTo_shorter hne hin hread
    have hstart : read <+: text ++ (delim ++ rest) := ⟨_, (upTo_eq_some hread).symm⟩
    refine ⟨List.prefix_of_prefix_length_le hstart (List.prefix_append _ _) hshort.le, ?_⟩
    rintro rfl
    exact absurd hshort (Nat.lt_irrefl _)
  · rw [upTo_append hdelim hin] at hread
    cases hread
    exact ⟨List.prefix_refl _, fun _ => hin⟩

/-- `while(*(p++) != sep && i < left) i++;` from `i = 0`: the final `i`, undefined when the loop
reads behind the array. -/
def scanTo (sep : β) : Nat → List β → Option Nat
  | _, [] => none
  | left, c :: l =>
    if c ≠ sep ∧ 0 < left then (scanTo sep (left - 1) l).map (· + 1) else some 0

theorem scanTo_found {sep : β} {f : List β} (hf : sep ∉ f) {left : Nat} (hle : f.length ≤ left)
    (l : List β) : scanTo sep left (f ++ sep :: l) = some f.length := by
  induction f generalizing left with
  | nil => simp [scanTo]
  | cons c f ih =>
    obtain ⟨hc, hrest⟩ := not_or.mp (mt List.mem_cons.mpr hf)
    rw [List.length_cons] at hle
    rw [List.cons_append, scanTo, if_pos ⟨Ne.symm hc, by omega⟩, ih hrest (by omega),
      Option.map_some, List.length_cons]

theorem scanTo_missing {sep : β} {l : List β} (hl : sep ∉ l) (left : Nat) :
    scanTo sep left l = if left < l.length then some left else none := by
  induction l generalizing left with
  | nil => rfl
  | cons c l ih =>
    obtain ⟨hc, hrest⟩ := not_or.mp (mt List.mem_cons.mpr hl)
    rw [scanTo]
    cases left with
    | zero => simp
    | succ left =>
      rw [if_pos ⟨Ne.symm hc, left.succ_pos⟩, Nat.add_sub_cancel, ih hrest]
      by_cases hleft : left < l.length
      · simp [hleft]
      · simp [hleft]

theorem scanTo_isSome (sep : β) {left : Nat} {l : List β} (h : left < l.length) :
    ∃ i ≤ left, scanTo sep left l = some i := by
  induction l generalizing left with
  | nil => exact absurd h (Nat.not_lt_zero _)
  | cons c l ih =>
    rw [scanTo]
    split
    · rename_i hgo
      rw [List.length_cons] at h
      obtain ⟨i, hi, hscan⟩ := @ih (left - 1) (by omega)
      exact ⟨i + 1, by omega, by rw [hscan, Option.map_some]⟩
    · exact ⟨0, Nat.zero_le _, rfl⟩

theorem scanTo_lt {sep : β} {left i : Nat} {l : List β} (h : scanTo sep left l = some i) :
    i < l.length := by
  induction l generalizing left i with
  | nil => cases h
  | cons c l ih =>
    rw [scanTo] at h
    split at h
    · obtain ⟨j, hj, rfl⟩ := Option.map_eq_some_iff.mp h
      exact Nat.succ_lt_succ (ih hj)
    · cases h
      exact Nat.succ_pos _

end TcpIot.Framework
