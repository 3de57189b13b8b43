import Mathlib.Logic.Function.Basic
import TcpIot.Framework.Run

/-!
# Networks of components

Several components that run the same partial step, one step of one component at a time. What a
component may receive is decided by the label, so a message in flight is a label that some
component's past allows; loss, duplication and reordering need no machinery of their own.
-/

namespace TcpIot.Framework

variable {ι σ α : Type*} [DecidableEq ι] {step : ι → σ → α → Option σ}

/-- The component named by the label takes its step, the others stay. -/
def netStep (step : ι → σ → α → Option σ) (w : ι → σ) (a : ι × α) : Option (ι → σ) :=
  (step a.1 (w a.1) a.2).map (Function.update w a.1)

theorem netStep_eq_some {w v : ι → σ} {a : ι × α} :
    netStep step w a = some v ↔ ∃ s, step a.1 (w a.1) a.2 = some s ∧ Function.update w a.1 s = v :=
  Option.map_eq_some_iff

/-- A property of the single components that every step of a component keeps. -/
theorem netStep_local {P : ι → σ → Prop} {w v : ι → σ} {a : ι × α}
    (hkeep : ∀ s, step a.1 (w a.1) a.2 = some s → P a.1 (w a.1) → P a.1 s)
    (hw : ∀ i, P i (w i)) (h : netStep step w a = some v) (i : ι) : P i (v i) := by
  obtain ⟨s, hs, rfl⟩ := netStep_eq_some.mp h
  by_cases hi : i = a.1
  · subst hi
    rw [Function.update_self]
    exact hkeep s hs (hw _)
  · rw [Function.update_of_ne hi]
    exact hw i

/-- A relation between a component's past and its present that its own steps establish. -/
theorem netStep_mono {R : σ → σ → Prop} (hrefl : ∀ s, R s s) {w v : ι → σ} {a : ι × α}
    (hstep : ∀ s, step a.1 (w a.1) a.2 = some s → R (w a.1) s)
    (h : netStep step w a = some v) (i : ι) : R (w i) (v i) := by
  obtain ⟨s, hs, rfl⟩ := netStep_eq_some.mp h
  by_cases hi : i = a.1
  · subst hi
    rw [Function.update_self]
    exact hstep s hs
  · rw [Function.update_of_ne hi]
    exact hrefl _

end TcpIot.Framework
