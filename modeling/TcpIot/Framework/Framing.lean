import Mathlib.Data.List.Basic
import Mathlib.Tactic.Common

/-!
# Decoding a stream of frames

`next` takes one message off the front of a stream, or fails. Its loop `decodeStream` collects
messages until `next` fails and keeps what is left over. Frames that `next` reads back in front
of any continuation are read back as a whole stream, and conversely a decoded stream is the
concatenation of the pieces that were consumed.
-/

namespace TcpIot.Framework

variable {β μ : Type*} (next : List β → Option (μ × List β))

/-- The receive loop, for at most `fuel` messages. -/
def decodeFor : Nat → List β → List μ × List β
  | 0, s => ([], s)
  | fuel + 1, s =>
    match next s with
    | none => ([], s)
    | some (m, rest) =>
      let tail := decodeFor fuel rest
      (m :: tail.1, tail.2)

/-- The receive loop; every message takes at least one byte, so the length of the stream
bounds their number. -/
def decodeStream (s : List β) : List μ × List β := decodeFor next s.length s

/-- `next` consumes at least one element. -/
def Shrinking : Prop := ∀ s m rest, next s = some (m, rest) → rest.length < s.length

variable {next}

theorem decodeFor_stable (hs : Shrinking next) (fuel extra : Nat) (s : List β)
    (hfuel : s.length ≤ fuel) : decodeFor next (fuel + extra) s = decodeFor next fuel s := by
  induction fuel generalizing s with
  | zero =>
    cases extra with
    | zero => rfl
    | succ extra =>
      have hnone : next s = none := by
        cases hn : next s with
        | none => rfl
        | some p =>
          have := hs s p.1 p.2 hn
          omega
      simp only [decodeFor, hnone]
  | succ fuel ih =>
    rw [Nat.succ_add, decodeFor, decodeFor]
    cases hn : next s with
    | none => rfl
    | some p =>
      have hlt := hs s p.1 p.2 hn
      simp only [ih p.2 (by omega)]

theorem decodeStream_eq (hs : Shrinking next) (s : List β) :
    decodeStream next s =
      match next s with
      | none => ([], s)
      | some (m, rest) => (m :: (decodeStream next rest).1, (decodeStream next rest).2) := by
  unfold decodeStream
  cases hn : next s with
  | none => cases s <;> simp [decodeFor, hn]
  | some p =>
    have hlt := hs s p.1 p.2 hn
    obtain ⟨k, hk⟩ : ∃ k, s.length = p.2.length + k + 1 := ⟨s.length - p.2.length - 1, by omega⟩
    simp only [hk, decodeFor, hn, decodeFor_stable hs _ k p.2 (Nat.le_refl _)]

/-- Frames that are read back one by one are read back from their concatenation, whatever the
stream holds after them. -/
theorem decodeStream_flatMap (hs : Shrinking next) (encode : μ → List β) (ms : List μ)
    (rest : List β)
    (hread : ∀ m ∈ ms, ∀ tail, next (encode m ++ tail) = some (m, tail)) :
    decodeStream next (ms.flatMap encode ++ rest) =
      (ms ++ (decodeStream next rest).1, (decodeStream next rest).2) := by
  induction ms with
  | nil => rfl
  | cons m ms ih =>
    rw [decodeStream_eq hs, List.flatMap_cons, List.append_assoc,
      hread m List.mem_cons_self]
    have hms := ih fun m' hm' => hread m' (List.mem_cons_of_mem _ hm')
    simp only [hms, List.cons_append]

theorem decodeStream_flatMap_iff {α : Type*} (hs : Shrinking next) {encode : α → List β}
    {want : α → μ} {good : α → Prop} {rest : List β} (hend : next rest = none) {as : List α}
    (hread : ∀ a ∈ as, good a → ∀ tail, next (encode a ++ tail) = some (want a, tail))
    (honly : ∀ a ∈ as, ∀ tail left, next (encode a ++ tail) = some (want a, left) → good a) :
    decodeStream next (as.flatMap encode ++ rest) = (as.map want, rest) ↔ ∀ a ∈ as, good a := by
  induction as with
  | nil =>
    rw [List.flatMap_nil, List.nil_append, decodeStream_eq hs, hend]
    exact iff_of_true rfl fun a ha => by cases ha
  | cons a as ih =>
    have htail := ih (fun b hb => hread b (List.mem_cons_of_mem a hb))
      fun b hb => honly b (List.mem_cons_of_mem a hb)
    rw [List.forall_mem_cons, ← htail, decodeStream_eq hs, List.flatMap_cons, List.append_assoc]
    constructor
    · intro hall
      have hgood : good a := by
        cases hn : next (encode a ++ (as.flatMap encode ++ rest)) with
        | none =>
          rw [hn] at hall
          cases hall
        | some p =>
          rw [hn] at hall
          obtain ⟨m, left⟩ := p
          have hm : m = want a := (List.cons.inj (congrArg Prod.fst hall)).1
          exact honly a List.mem_cons_self _ left (hm ▸ hn)
      rw [hread a List.mem_cons_self hgood] at hall
      have hmessages : want a :: (decodeStream next (as.flatMap encode ++ rest)).1 =
          want a :: as.map want := congrArg Prod.fst hall
      have hleft : (decodeStream next (as.flatMap encode ++ rest)).2 = rest :=
        congrArg Prod.snd hall
      exact ⟨hgood, Prod.ext (List.cons.inj hmessages).2 hleft⟩
    · rintro ⟨hgood, hrest⟩
      simp only [hread a List.mem_cons_self hgood, hrest, List.map_cons]

theorem decodeStream_nil (hs : Shrinking next) : decodeStream next [] = ([], []) := by
  have hnone : next [] = none := by
    cases hn : next [] with
    | none => rfl
    | some p => exact absurd (hs [] p.1 p.2 hn) (Nat.not_lt_zero _)
  rw [decodeStream_eq hs, hnone]

/-- The decoded messages come with the pieces of the stream they were read from. -/
theorem decodeStream_pieces {piece : μ → List β → Prop}
    (hpiece : ∀ s m rest, next s = some (m, rest) → ∃ p, s = p ++ rest ∧ piece m p)
    (hs : Shrinking next) (s : List β) :
    ∃ ps, List.Forall₂ piece (decodeStream next s).1 ps ∧
      s = ps.flatten ++ (decodeStream next s).2 := by
  induction hlen : s.length using Nat.strongRecOn generalizing s with
  | ind len ih =>
    rw [decodeStream_eq hs]
    cases hn : next s with
    | none => exact ⟨[], .nil, rfl⟩
    | some q =>
      obtain ⟨p, hsplit, hp⟩ := hpiece s q.1 q.2 hn
      have hlt := hs s q.1 q.2 hn
      obtain ⟨ps, hps, hrest⟩ := ih q.2.length (by omega) q.2 rfl
      refine ⟨p :: ps, .cons hp hps, ?_⟩
      rw [List.flatten_cons, List.append_assoc, ← hrest]
      exact hsplit

end TcpIot.Framework
