import Mathlib.Data.List.Flatten
import Mathlib.Data.List.Perm.Basic
import TcpIot.Framework.Framing
import TcpIot.Framework.Interleaving

/-!
# Frames of several senders on one stream

A message fixes the bytes of its frame but for a fixed number of length bytes, and the length
bytes that are sent are smaller than what a reader would accept. When the pieces of such frames
reach a stream in any order, the reader gets the messages exactly if they arrived frame by frame.
-/

namespace TcpIot.Framework

variable {β μ : Type*}

/-- The bytes of a frame for `m`, in any order and perhaps with other length bytes. -/
def Piece (frame core : μ → List β) (small : β → Prop) (count : Nat) (m : μ) (p : List β) :
    Prop :=
  ∃ lens, p.Perm (core m ++ lens) ∧ lens.length = count ∧ ((∀ b ∈ lens, small b) → p = frame m)

theorem flatten_flatMap {send : μ → List (List β)} {frame : μ → List β}
    (hsend : ∀ m, (send m).flatten = frame m) (ms : List μ) :
    (ms.flatMap send).flatten = ms.flatMap frame := by
  rw [List.flatMap_def, List.flatten_flatten, List.map_map]
  exact List.flatMap_congr fun m _ => hsend m

/-- `core m` are the bytes that the message fixes, `count` more the length bytes. -/
structure LengthPrefixed (next : List β → Option (μ × List β)) (frame core : μ → List β)
    (small : β → Prop) (count : Nat) : Prop where
  shrinking : Shrinking next
  sent : ∀ m, ∃ lens, (frame m).Perm (core m ++ lens) ∧ lens.length = count ∧ ∀ b ∈ lens, small b
  read : ∀ s m rest, next s = some (m, rest) →
    ∃ p, s = p ++ rest ∧ Piece frame core small count m p

namespace LengthPrefixed

variable {next : List β → Option (μ × List β)} {frame core : μ → List β} {small : β → Prop}
  {count : Nat}

private theorem perm_pair {p c c' l l' ps : List β} (hp : p.Perm (c ++ l))
    (hps : ps.Perm (c' ++ l')) : (p ++ ps).Perm ((c ++ c') ++ (l ++ l')) := by
  apply (hp.append hps).trans
  rw [List.append_assoc, List.append_assoc]
  exact (List.perm_append_comm_assoc l c' l').append_left c

private theorem pieces_perm {ms : List μ} {ps : List (List β)}
    (h : List.Forall₂ (Piece frame core small count) ms ps) :
    ∃ lens, ps.flatten.Perm (ms.flatMap core ++ lens) ∧ lens.length = count * ms.length ∧
      ((∀ b ∈ lens, small b) → ps.flatten = ms.flatMap frame) := by
  induction h with
  | nil => exact ⟨[], .refl _, rfl, fun _ => rfl⟩
  | cons hp _ ih =>
    obtain ⟨lens, hperm, hlength, hframe⟩ := hp
    obtain ⟨lens', hperm', hlength', hframes⟩ := ih
    refine ⟨lens ++ lens', ?_, ?_, fun hsmall => ?_⟩
    · rw [List.flatten_cons, List.flatMap_cons]
      exact perm_pair hperm hperm'
    · rw [List.length_append, hlength, hlength', List.length_cons, Nat.mul_succ, Nat.add_comm]
    · rw [List.flatten_cons, List.flatMap_cons,
        hframe fun b hb => hsmall b (List.mem_append_left _ hb),
        hframes fun b hb => hsmall b (List.mem_append_right _ hb)]

private theorem frames_perm (h : LengthPrefixed next frame core small count) (ms : List μ) :
    ∃ lens, (ms.flatMap frame).Perm (ms.flatMap core ++ lens) ∧
      lens.length = count * ms.length ∧ ∀ b ∈ lens, small b := by
  induction ms with
  | nil => exact ⟨[], .refl _, rfl, fun b hb => by cases hb⟩
  | cons m ms ih =>
    obtain ⟨lens, hperm, hlength, hsmall⟩ := h.sent m
    obtain ⟨lens', hperm', hlength', hsmall'⟩ := ih
    refine ⟨lens ++ lens', ?_, ?_, fun b hb => ?_⟩
    · rw [List.flatMap_cons, List.flatMap_cons]
      exact perm_pair hperm hperm'
    · rw [List.length_append, hlength, hlength', List.length_cons, Nat.mul_succ, Nat.add_comm]
    · exact (List.mem_append.mp hb).elim (hsmall b) (hsmall' b)

private theorem eq_frames (h : LengthPrefixed next frame core small count) {s : List β}
    (hs : s.Perm ((decodeStream next s).1.flatMap frame)) :
    s = (decodeStream next s).1.flatMap frame := by
  obtain ⟨ps, hps, hsplit⟩ := decodeStream_pieces h.read h.shrinking s
  obtain ⟨lens, hpieces, hlength, hframes⟩ := pieces_perm hps
  obtain ⟨sent, hsent, hsentLength, hsmall⟩ := h.frames_perm (decodeStream next s).1
  have hleft : (decodeStream next s).2 = [] := by
    have hread := congrArg List.length hsplit
    have htotal := hs.length_eq.trans hsent.length_eq
    rw [List.length_append, hpieces.length_eq] at hread
    rw [List.length_append] at hread htotal
    exact List.length_eq_zero_iff.mp (by omega)
  rw [hleft, List.append_nil] at hsplit
  have hlens : lens.Perm sent := by
    apply (List.perm_append_left_iff _).mp (hpieces.symm.trans _)
    rw [← hsplit]
    exact hs.trans hsent
  rw [← hframes fun b hb => hsmall b (hlens.mem_iff.mp hb)]
  exact hsplit

/-- The bytes of the frames in any order: exactly the messages are read, in some order, iff the
frames lie in the stream one behind the other. -/
theorem intact_iff (h : LengthPrefixed next frame core small count) {ms : List μ} {s : List β}
    (hread : ∀ m ∈ ms, ∀ tail, next (frame m ++ tail) = some (m, tail))
    (hs : s.Perm (ms.flatMap frame)) :
    (decodeStream next s).1.Perm ms ↔ ∃ order : List μ, order.Perm ms ∧ s = order.flatMap frame := by
  constructor
  · intro hperm
    exact ⟨_, hperm, h.eq_frames (hs.trans (hperm.symm.flatMap_right frame))⟩
  · rintro ⟨order, horder, rfl⟩
    have hdecode := decodeStream_flatMap h.shrinking frame order []
      fun m hm => hread m (horder.mem_iff.mp hm)
    rw [List.append_nil, decodeStream_nil h.shrinking, List.append_nil] at hdecode
    rw [hdecode]
    exact horder

/-- Senders that write their frames piece by piece, in any interleaving. -/
theorem interleaved_iff (h : LengthPrefixed next frame core small count)
    {send : μ → List (List β)} (hsend : ∀ m, (send m).flatten = frame m)
    {senders : List (List μ)} {out : List (List β)}
    (hread : ∀ m ∈ senders.flatten, ∀ tail, next (frame m ++ tail) = some (m, tail))
    (hout : Interleaving (senders.map fun ms => ms.flatMap send) out) :
    (decodeStream next out.flatten).1.Perm senders.flatten ↔
      ∃ order : List μ, order.Perm senders.flatten ∧ out.flatten = order.flatMap frame := by
  have hall : (senders.map fun ms => ms.flatMap send).flatten = senders.flatten.flatMap send := by
    rw [List.flatMap_def, List.map_flatten, List.flatten_flatten, List.map_map]
    rfl
  have hbytes := flatten_flatMap hsend senders.flatten
  apply h.intact_iff hread
  rw [← hbytes, ← hall]
  exact hout.perm.flatten

end LengthPrefixed

end TcpIot.Framework
