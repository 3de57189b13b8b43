import Mathlib.Logic.Function.Basic
import Mathlib.Data.Prod.Basic
import TcpIot.Framework.Run

/-!
# Critical sections

Calls on a shared state that are executed in pieces. A call that may write is alone between its
entry and its exit; calls that only read may overlap each other. Whatever the scheduler does with
the pieces, the calls that have left have had the effect and the results of being executed whole,
one after the other, in the order in which they left.
-/

namespace TcpIot.Framework

variable {T σ P R : Type*}

section Pieces

variable (piece : P → σ → Option (σ × (P ⊕ R))) (admits : σ → P → Prop)

/-- From `s` the pieces of the call that starts at `p` lead to the state `s'`, where the call
stands at a later point or has its result. -/
inductive Pieces : σ → P → σ → P ⊕ R → Prop
  | start (s : σ) (p : P) : Pieces s p s (.inl p)
  | next {s s' s'' : σ} {p q : P} {x : P ⊕ R} (h : Pieces s p s' (.inl q))
      (hpiece : piece q s' = some (s'', x)) : Pieces s p s'' x

/-- The calls, each admitted in the state it meets and executed whole, with their results. -/
inductive Serial (start : σ) : List (P × R) → σ → Prop
  | nil : Serial start [] start
  | snoc {log : List (P × R)} {s s' : σ} {p : P} {r : R} (h : Serial start log s)
      (hadmits : admits s p) (hcall : Pieces piece s p s' (.inr r)) :
      Serial start (log ++ [(p, r)]) s'

variable {piece admits}

/-- An assertion that every piece keeps holds wherever the call stands. -/
theorem Pieces.rule {At : P ⊕ R → σ → Prop}
    (hkeep : ∀ q s s' x, At (.inl q) s → piece q s = some (s', x) → At x s') {s s' : σ} {p : P}
    {x : P ⊕ R} (h : Pieces piece s p s' x) (hstart : At (.inl p) s) : At x s' := by
  induction h with
  | start => exact hstart
  | next _ hpiece ih => exact hkeep _ _ _ _ (ih hstart) hpiece

/-- What every whole call keeps holds after all of them. -/
theorem Serial.rule {I : List (P × R) → σ → Prop} {start s : σ} {log : List (P × R)}
    (hkeep : ∀ log s p s' r, I log s → admits s p → Pieces piece s p s' (.inr r) →
      I (log ++ [(p, r)]) s')
    (h : Serial piece admits start log s) (hstart : I [] start) : I log s := by
  induction h with
  | nil => exact hstart
  | snoc _ hadmits hcall ih => exact hkeep _ _ _ _ _ ih hadmits hcall

end Pieces

/-- The shared state, for each thread between entry and exit its call and how far it is, and the
calls that have left with their results. -/
structure Sections (T σ P R : Type*) where
  shared : σ
  inside : T → Option (P × (P ⊕ R))
  log : List (P × R)

namespace Sections

variable (piece : P → σ → Option (σ × (P ⊕ R))) (admits : σ → P → Prop) (writes : P → Prop)

/-- What holds between the pieces: the shared state is that of the calls which have left, with
the pieces so far of those inside. -/
structure Inv (start : σ) (S : Sections T σ P R) : Prop where
  alone : ∀ t u c c', S.inside t = some c → writes c.1 → S.inside u = some c' → t = u
  serial : ∃ s, Serial piece admits start S.log s ∧
    (∀ t c, S.inside t = some c → admits s c.1 ∧ Pieces piece s c.1 S.shared c.2) ∧
    ((∀ t c, S.inside t = some c → ¬ writes c.1) → S.shared = s)

variable {piece admits writes} {start : σ} {S : Sections T σ P R}

theorem Inv.empty (start : σ) :
    Inv piece admits writes start (⟨start, fun _ => none, []⟩ : Sections T σ P R) where
  alone t u c c' ht := by cases ht
  serial := ⟨start, .nil, fun t c ht => (by cases ht), fun _ => rfl⟩

theorem Inv.reading (h : Inv piece admits writes start S) {t : T} {c : P × (P ⊕ R)}
    (ht : S.inside t = some c) (hreads : ¬ writes c.1) :
    ∀ u c', S.inside u = some c' → ¬ writes c'.1 := by
  intro u c' hu hw
  obtain rfl := h.alone u t c' c hu hw ht
  rw [hu] at ht
  cases ht
  exact hreads hw

variable [DecidableEq T]

private theorem inside_update {inside : T → Option (P × (P ⊕ R))} {t u : T}
    {v : Option (P × (P ⊕ R))} {c : P × (P ⊕ R)} (h : Function.update inside t v u = some c) :
    u = t ∧ v = some c ∨ u ≠ t ∧ inside u = some c := by
  by_cases hu : u = t
  · subst hu
    rw [Function.update_self] at h
    exact .inl ⟨rfl, h⟩
  · rw [Function.update_of_ne hu] at h
    exact .inr ⟨hu, h⟩

theorem Inv.enter (h : Inv piece admits writes start S) {t : T} {p : P}
    (hadmits : admits S.shared p) (hfree : ∀ u c, S.inside u = some c → ¬ writes c.1 ∧ ¬ writes p) :
    Inv piece admits writes start
      { S with inside := Function.update S.inside t (some (p, .inl p)) } where
  alone := by
    intro u v c c' hu hw hv
    rcases inside_update hu with ⟨rfl, hc⟩ | ⟨hut, hu⟩
    · rcases inside_update hv with ⟨rfl, -⟩ | ⟨-, hv⟩
      · rfl
      · cases hc
        exact absurd hw (hfree v c' hv).2
    · exact absurd hw (hfree u c hu).1
  serial := by
    obtain ⟨s, hserial, hpieces, hidle⟩ := h.serial
    have hshared : S.shared = s := hidle fun u c hu => (hfree u c hu).1
    rw [hshared] at hadmits
    refine ⟨s, hserial, fun u c hu => ?_, fun _ => hshared⟩
    rcases inside_update hu with ⟨-, hc⟩ | ⟨-, hu⟩
    · cases hc
      change admits s p ∧ Pieces piece s p S.shared (.inl p)
      rw [hshared]
      exact ⟨hadmits, .start s p⟩
    · exact hpieces u c hu

theorem Inv.work (h : Inv piece admits writes start S)
    (hread : ∀ p, ¬ writes p → ∀ s s' x, Pieces piece s p s' x → s' = s) {t : T} {p q : P}
    {s' : σ} {x : P ⊕ R} (ht : S.inside t = some (p, .inl q))
    (hpiece : piece q S.shared = some (s', x)) :
    Inv piece admits writes start
      { S with shared := s', inside := Function.update S.inside t (some (p, x)) } where
  alone := by
    intro u v c c' hu hw hv
    rcases inside_update hu with ⟨rfl, hc⟩ | ⟨hut, hu⟩
    · rcases inside_update hv with ⟨rfl, -⟩ | ⟨-, hv⟩
      · rfl
      · cases hc
        exact h.alone u v _ _ ht hw hv
    · exact absurd (h.alone u t c _ hu hw ht) hut
  serial := by
    obtain ⟨s, hserial, hpieces, hidle⟩ := h.serial
    obtain ⟨hadmits, hbefore⟩ := hpieces t _ ht
    have hcall : Pieces piece s p s' x := hbefore.next hpiece
    refine ⟨s, hserial, fun u c hu => ?_, fun hall => ?_⟩
    · rcases inside_update hu with ⟨-, hc⟩ | ⟨hut, hu⟩
      · cases hc
        exact ⟨hadmits, hcall⟩
      · -- another thread is inside, so this one reads and has left the state as it was
        have hreads : ¬ writes p := fun hw => hut (h.alone t u _ c ht hw hu).symm
        have hshared : S.shared = s := hidle (h.reading ht hreads)
        have hsame : s' = s := hread p hreads s s' x hcall
        have hother := hpieces u c hu
        rw [hshared] at hother
        change admits s c.1 ∧ Pieces piece s c.1 s' c.2
        rw [hsame]
        exact hother
    · have hreads : ¬ writes p := hall t (p, x) (Function.update_self ..)
      exact hread p hreads s s' x hcall

theorem Inv.leave (h : Inv piece admits writes start S) {t : T} {p : P} {r : R}
    (ht : S.inside t = some (p, .inr r)) :
    Inv piece admits writes start
      { S with inside := Function.update S.inside t none, log := S.log ++ [(p, r)] } where
  alone := by
    intro u v c c' hu hw hv
    rcases inside_update hu with ⟨-, hc⟩ | ⟨hut, hu⟩
    · cases hc
    · rcases inside_update hv with ⟨-, hc⟩ | ⟨-, hv⟩
      · cases hc
      · exact h.alone u v c c' hu hw hv
  serial := by
    obtain ⟨s, hserial, hpieces, hidle⟩ := h.serial
    obtain ⟨hadmits, hcall⟩ := hpieces t _ ht
    refine ⟨S.shared, hserial.snoc hadmits hcall, fun u c hu => ?_, fun _ => rfl⟩
    rcases inside_update hu with ⟨-, hc⟩ | ⟨hut, hu⟩
    · cases hc
    · have hreads : ¬ writes p := fun hw => hut (h.alone t u _ c ht hw hu).symm
      have hshared : S.shared = s := hidle (h.reading ht hreads)
      have hother := hpieces u c hu
      rwa [hshared] at hother ⊢

end Sections

end TcpIot.Framework
