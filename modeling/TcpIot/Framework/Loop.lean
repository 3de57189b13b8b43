import Mathlib.Data.Option.Basic

/-!
# Loops that may not end

The body of a loop either goes on with a new state or ends with a result. `loop` runs it for a
number of turns; `Ends` says that some number of turns is enough. The rules below follow the
loop turn by turn without naming that number.
-/

namespace TcpIot.Framework

variable {σ β : Type*} (body : σ → σ ⊕ β)

/-- At most `fuel` turns of the loop; `none` when it has not ended by then. -/
def loop : Nat → σ → Option β
  | 0, _ => none
  | fuel + 1, s =>
    match body s with
    | .inl t => loop fuel t
    | .inr b => some b

def Ends (s : σ) (b : β) : Prop := ∃ fuel, loop body fuel s = some b

variable {body} {s t : σ} {b c : β}

theorem loop_goes_on (h : body s = .inl t) (fuel : Nat) :
    loop body (fuel + 1) s = loop body fuel t := by
  rw [loop, h]

theorem ends_of_result (h : body s = .inr b) : Ends body s b :=
  ⟨1, by rw [loop, h]⟩

theorem ends_goes_on (h : body s = .inl t) : Ends body s b ↔ Ends body t b := by
  constructor
  · rintro ⟨fuel, hfuel⟩
    cases fuel with
    | zero => cases hfuel
    | succ fuel => exact ⟨fuel, by rw [← loop_goes_on h, hfuel]⟩
  · rintro ⟨fuel, hfuel⟩
    exact ⟨fuel + 1, by rw [loop_goes_on h, hfuel]⟩

theorem Ends.unique (h : Ends body s b) (h' : Ends body s c) : b = c := by
  obtain ⟨fuel, hfuel⟩ := h
  induction fuel generalizing s with
  | zero => cases hfuel
  | succ fuel ih =>
    cases hs : body s with
    | inl t =>
      rw [loop_goes_on hs] at hfuel
      exact ih ((ends_goes_on hs).mp h') hfuel
    | inr d =>
      obtain ⟨fuel', hfuel'⟩ := h'
      cases fuel' with
      | zero => cases hfuel'
      | succ fuel' =>
        rw [loop, hs] at hfuel hfuel'
        exact (Option.some.inj hfuel).symm.trans (Option.some.inj hfuel')

/-- A loop that always goes on from the states of an invariant never ends. -/
theorem not_ends_of_inv {Inv : σ → Prop} (hstep : ∀ s, Inv s → ∃ t, body s = .inl t ∧ Inv t)
    (hs : Inv s) (b : β) : ¬ Ends body s b := by
  rintro ⟨fuel, hfuel⟩
  induction fuel generalizing s with
  | zero => cases hfuel
  | succ fuel ih =>
    obtain ⟨t, ht, hinv⟩ := hstep s hs
    rw [loop_goes_on ht] at hfuel
    exact ih hinv hfuel

end TcpIot.Framework
