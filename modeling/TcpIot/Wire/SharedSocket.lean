import TcpIot.Framework.SharedStream
import TcpIot.Wire.Frames

/-!
# Frames of several threads on one client socket

No lock is held while a frame is sent (even the one around a single `send` is commented out), so
the `send` calls of threads that write to the same client may fall between each other. The
client decodes what was sent exactly when the bytes reach the stream frame by frame.
-/

namespace TcpIot.Server

open Framework

/-- The `send` calls of one frame, each delivered to the stream in one step. -/
def sends (m : UInt8 × List UInt8) : List (List UInt8) := sendMsg m.2.length m.2 m.1

theorem flatten_sends (m : UInt8 × List UInt8) : (sends m).flatten = frame m := rfl

/-- `calls` is an order in which the `send` calls of the threads can take place; every thread
sends its frames one after the other. -/
def Schedule (threads : List (List (UInt8 × List UInt8))) (calls : List (List UInt8)) : Prop :=
  Interleaving (threads.map fun frames => frames.flatMap sends) calls

/-- The client's receive loop gets the sent frames, as a multiset. -/
def DecodedIntact (stale : Stale 10) (threads : List (List (UInt8 × List UInt8)))
    (calls : List (List UInt8)) : Prop :=
  (decodeStream (Client.nextFrame stale) calls.flatten).1.Perm threads.flatten

instance (stale : Stale 10) (threads : List (List (UInt8 × List UInt8)))
    (calls : List (List UInt8)) : Decidable (DecodedIntact stale threads calls) :=
  inferInstanceAs (Decidable (List.Perm _ _))

def FrameByFrame (threads : List (List (UInt8 × List UInt8))) (calls : List (List UInt8)) :
    Prop :=
  ∃ order : List (UInt8 × List UInt8),
    order.Perm threads.flatten ∧ calls.flatten = order.flatMap frame

/-- The frames towards a client. Its length bytes are nibbles, where the client would accept other
bytes for the same length. -/
theorem downFrames (stale : Stale 10) :
    LengthPrefixed (Client.nextFrame stale) frame (fun m => prePreamble ++ m.1 :: m.2)
      (fun b => b.toNat < 16) 2 where
  shrinking := Client.nextFrame_shrinking stale
  sent m := by
    refine ⟨[lenLow m.2.length, lenHigh m.2.length], ?_, rfl, lens_small _⟩
    rw [frame_eq]
    exact lens_perm _ _ _
  read s m rest hs := by
    obtain ⟨low, high, body, rfl, hlen, hparse⟩ :=
      (takeFrame_eq_some (Client.getMsg_readsHeader stale) (by decide)).mp hs
    match body, hparse with
    | msgType :: payload, hparse =>
      cases hparse
      refine ⟨_, rfl, [low, high], lens_perm low high _, rfl, fun hsmall => ?_⟩
      have hpayload : decodeLen low high = payload.length := (Nat.succ.inj hlen).symm
      obtain ⟨rfl, rfl⟩ := lens_of_decodeLen (hsmall low (by simp)) (hsmall high (by simp)) hpayload
      rw [frame_eq]

/-- For every number of threads, all their frames and every order of their `send` calls: the
client decodes exactly the frames that were sent iff the bytes arrive frame by frame. -/
theorem decodedIntact_iff (stale : Stale 10) (threads : List (List (UInt8 × List UInt8)))
    (calls : List (List UInt8)) (hfit : ∀ m ∈ threads.flatten, m.2.length ≤ 255)
    (hcalls : Schedule threads calls) :
    DecodedIntact stale threads calls ↔ FrameByFrame threads calls := by
  have hread : ∀ m ∈ threads.flatten, ∀ tail,
      Client.nextFrame stale (frame m ++ tail) = some (m, tail) := by
    intro m hm
    exact Client.nextFrame_frame stale m (Nat.lt_succ_of_le (hfit m hm))
  exact (downFrames stale).interleaved_iff flatten_sends hread hcalls

/-- The relayed command `CABIN_SOUTH "ON"` and a `SEND_STATUS` of the timer, sent whole. -/
theorem decodedIntact_iff_relay_then_status :
    DecodedIntact ⟨Buffer.zero 10, 0, 0⟩ [[(25, [79, 78])], [(58, [116, 105])]]
      (sends (25, [79, 78]) ++ sends (58, [116, 105])) ↔
    FrameByFrame [[(25, [79, 78])], [(58, [116, 105])]]
      (sends (25, [79, 78]) ++ sends (58, [116, 105])) :=
  decodedIntact_iff ⟨Buffer.zero 10, 0, 0⟩ _ _ (by decide)
    (@Interleaving.prepend _ [] [sends (58, [116, 105])] [] _ (sends (25, [79, 78]))
      (@Interleaving.prepend _ [[]] [] [] _ (sends (58, [116, 105])) (.done (by decide))))

/-- The timer's frame falls behind the preamble of a relayed command: the client decodes
nothing. -/
theorem interleaved_sends_lost :
    Schedule [[(25, [79, 78])], [(58, [116, 105])]]
      ([prePreamble] ++ (sends (58, [116, 105]) ++ (sends (25, [79, 78])).tail)) ∧
    ¬ DecodedIntact ⟨Buffer.zero 10, 0, 0⟩ [[(25, [79, 78])], [(58, [116, 105])]]
      ([prePreamble] ++ (sends (58, [116, 105]) ++ (sends (25, [79, 78])).tail)) := by
  constructor
  · have hrest : Interleaving ([] ++ (sends (25, [79, 78])).tail :: [[]])
        ((sends (25, [79, 78])).tail ++ []) := by
      have h := @Interleaving.prepend _ [] [[]] [] _ (sends (25, [79, 78])).tail
        (.done (by decide))
      rwa [List.append_nil] at h
    exact @Interleaving.prepend _ [] [sends (58, [116, 105])] (sends (25, [79, 78])).tail _
      [prePreamble]
      (@Interleaving.prepend _ [(sends (25, [79, 78])).tail] [] [] _ (sends (58, [116, 105]))
        hrest)
  · decide

/-- With a lock held for whole frames, no `send` of one frame falls between two of another, and
the frames survive in every order of the threads. -/
theorem frameByFrame_of_locked {threads : List (List (UInt8 × List UInt8))}
    {order : List (UInt8 × List UInt8)} (h : Interleaving threads order) :
    Schedule threads (order.flatMap sends) ∧ FrameByFrame threads (order.flatMap sends) := by
  exact ⟨Interleaving.flatMap sends h, order, h.perm, flatten_flatMap flatten_sends order⟩

end TcpIot.Server
