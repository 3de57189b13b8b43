import Mathlib.Data.Option.Basic

/-!
# Runs of partial labelled steps

A system is a partial step function `σ → α → Option σ`: the label carries whatever the
environment decides (a descriptor returned by the kernel, a received byte, the thread that is
scheduled), and `none` means that no such step exists or that the step is undefined.
`AllSteps good` says that every step a schedule takes is `good` in the state it starts from.
-/

namespace TcpIot.Framework

variable {σ α : Type*} {step : σ → α → Option σ}

def exec (step : σ → α → Option σ) : σ → List α → Option σ
  | s, [] => some s
  | s, a :: as => (step s a).bind fun t => exec step t as

@[simp] theorem exec_nil (s : σ) : exec step s [] = some s := rfl

@[simp] theorem exec_cons (s : σ) (a : α) (as : List α) :
    exec step s (a :: as) = (step s a).bind fun t => exec step t as := rfl

/-- Every step of the schedule that is reached meets `good`. -/
def AllSteps (step : σ → α → Option σ) (good : σ → α → Prop) : σ → List α → Prop
  | _, [] => True
  | s, a :: as => good s a ∧ ∀ t, step s a = some t → AllSteps step good t as

@[simp] theorem allSteps_nil (good : σ → α → Prop) (s : σ) : AllSteps step good s [] := trivial

theorem allSteps_true (s : σ) (as : List α) : AllSteps step (fun _ _ => True) s as := by
  induction as generalizing s with
  | nil => trivial
  | cons a as ih => exact ⟨trivial, fun t _ => ih t⟩

theorem allSteps_cons {good : σ → α → Prop} {s : σ} {a : α} {as : List α} :
    AllSteps step good s (a :: as) ↔
      good s a ∧ ∀ t, step s a = some t → AllSteps step good t as := Iff.rfl

theorem allSteps_of_forall {P : α → Prop} {as : List α} (h : ∀ a ∈ as, P a) (s : σ) :
    AllSteps step (fun _ a => P a) s as := by
  induction as generalizing s with
  | nil => trivial
  | cons a as ih =>
    exact ⟨h a List.mem_cons_self, fun t _ => ih (fun b hb => h b (List.mem_cons_of_mem a hb)) t⟩

instance decidableAllSteps (good : σ → α → Prop) [∀ s a, Decidable (good s a)] :
    (s : σ) → (as : List α) → Decidable (AllSteps step good s as)
  | _, [] => isTrue trivial
  | s, a :: as =>
    match h : step s a with
    | none => decidable_of_iff (good s a) (by simp [allSteps_cons, h])
    | some t =>
      have := decidableAllSteps good t as
      decidable_of_iff (good s a ∧ AllSteps step good t as) (by simp [allSteps_cons, h])

theorem AllSteps.imp {good want : σ → α → Prop} {s : σ} {as : List α}
    (hgw : ∀ s a, good s a → want s a) (h : AllSteps step good s as) :
    AllSteps step want s as := by
  induction as generalizing s with
  | nil => trivial
  | cons a as ih => exact ⟨hgw s a h.1, fun t ht => ih (h.2 t ht)⟩

/-- The induction behind every safety result: an invariant that good steps keep holds after a
run of good steps. -/
theorem AllSteps.exec_inv {good : σ → α → Prop} {Inv : σ → Prop} {s t : σ} {as : List α}
    (hstep : ∀ s a t, Inv s → good s a → step s a = some t → Inv t)
    (h : AllSteps step good s as) (hs : Inv s) (hrun : exec step s as = some t) : Inv t := by
  induction as generalizing s with
  | nil =>
    cases hrun
    exact hs
  | cons a as ih =>
    obtain ⟨u, hu, hrest⟩ := Option.bind_eq_some_iff.mp hrun
    exact ih (h.2 u hu) (hstep s a u hs h.1 hu) hrest

/-- What good steps give in an invariant state holds of every step of a run of good steps. -/
theorem AllSteps.of_inv {good want : σ → α → Prop} {Inv : σ → Prop} {s : σ} {as : List α}
    (hstep : ∀ s a t, Inv s → good s a → step s a = some t → Inv t)
    (hwant : ∀ s a, Inv s → good s a → want s a)
    (h : AllSteps step good s as) (hs : Inv s) : AllSteps step want s as := by
  induction as generalizing s with
  | nil => trivial
  | cons a as ih =>
    exact ⟨hwant s a hs h.1, fun t ht => ih (h.2 t ht) (hstep s a t hs h.1 ht)⟩

/-- Where `want` and `good` agree step by step on invariant states, they agree on whole runs. -/
theorem allSteps_iff_of_inv {base good want : σ → α → Prop} {Inv : σ → Prop}
    {s : σ} {as : List α}
    (hiff : ∀ s a, Inv s → base s a → (want s a ↔ good s a))
    (hstep : ∀ s a t, Inv s → base s a → good s a → step s a = some t → Inv t)
    (hbase : AllSteps step base s as) (hs : Inv s) :
    AllSteps step want s as ↔ AllSteps step good s as := by
  induction as generalizing s with
  | nil => exact Iff.rfl
  | cons a as ih =>
    rw [allSteps_cons, allSteps_cons, hiff s a hs hbase.1]
    refine and_congr_right fun hgood => forall_congr' fun t => forall_congr' fun ht => ?_
    exact ih (hbase.2 t ht) (hstep s a t hs hbase.1 hgood ht)

theorem allSteps_congr {good want : σ → α → Prop} {s : σ} {as : List α}
    (hiff : ∀ s a, want s a ↔ good s a) :
    AllSteps step want s as ↔ AllSteps step good s as :=
  ⟨AllSteps.imp fun s a => (hiff s a).mp, AllSteps.imp fun s a => (hiff s a).mpr⟩

theorem exec_append (s : σ) (as bs : List α) :
    exec step s (as ++ bs) = (exec step s as).bind fun t => exec step t bs := by
  induction as generalizing s with
  | nil => rfl
  | cons a as ih =>
    rw [List.cons_append, exec_cons, exec_cons, Option.bind_assoc]
    congr 1
    funext t
    exact ih t

theorem allSteps_append {good : σ → α → Prop} {s : σ} {as bs : List α} :
    AllSteps step good s (as ++ bs) ↔
      AllSteps step good s as ∧ ∀ t, exec step s as = some t → AllSteps step good t bs := by
  induction as generalizing s with
  | nil => simp
  | cons a as ih =>
    rw [List.cons_append, allSteps_cons, allSteps_cons, and_assoc]
    refine and_congr_right fun _ => ?_
    constructor
    · intro h
      refine ⟨fun u hu => (ih.mp (h u hu)).1, fun t ht => ?_⟩
      obtain ⟨u, hu, hrest⟩ := Option.bind_eq_some_iff.mp ht
      exact (ih.mp (h u hu)).2 t hrest
    · intro h u hu
      refine ih.mpr ⟨h.1 u hu, fun t ht => h.2 t ?_⟩
      rw [exec_cons, hu, Option.bind_some, ht]

/-- When every step of one system is a step of another, so is every run. -/
theorem exec_refines {τ β : Type*} {step' : τ → β → Option τ} {f : σ → τ}
    (hstep : ∀ s a t, step s a = some t → ∃ b, step' (f s) b = some (f t)) {s t : σ}
    {as : List α} (hrun : exec step s as = some t) :
    ∃ bs, exec step' (f s) bs = some (f t) := by
  induction as generalizing s with
  | nil =>
    cases hrun
    exact ⟨[], rfl⟩
  | cons a as ih =>
    obtain ⟨u, hu, hrest⟩ := Option.bind_eq_some_iff.mp hrun
    obtain ⟨b, hb⟩ := hstep s a u hu
    obtain ⟨bs, hbs⟩ := ih hrest
    exact ⟨b :: bs, by rw [exec_cons, hb, Option.bind_some, hbs]⟩

/-- When every step of one system is one step of another or none, so is every run. -/
theorem exec_filterMap {τ β : Type*} {step' : τ → β → Option τ} {f : σ → τ} {op : α → Option β}
    (hstep : ∀ s a t, step s a = some t → exec step' (f s) (op a).toList = some (f t)) {s t : σ}
    {as : List α} (hrun : exec step s as = some t) :
    exec step' (f s) (as.filterMap op) = some (f t) := by
  induction as generalizing s with
  | nil =>
    cases hrun
    rfl
  | cons a as ih =>
    obtain ⟨u, hu, hrest⟩ := Option.bind_eq_some_iff.mp hrun
    have hops : (a :: as).filterMap op = (op a).toList ++ as.filterMap op := by
      cases hop : op a with
      | none => rw [List.filterMap_cons_none hop, Option.toList_none, List.nil_append]
      | some b => rw [List.filterMap_cons_some hop, Option.toList_some, List.singleton_append]
    rw [hops, exec_append, hstep s a u hu, Option.bind_some]
    exact ih hrest

def Reachable (step : σ → α → Option σ) (good : σ → α → Prop) (start s : σ) : Prop :=
  ∃ as, AllSteps step good start as ∧ exec step start as = some s

theorem Reachable.inv {good : σ → α → Prop} {Inv : σ → Prop} {start s : σ}
    (hstep : ∀ s a t, Inv s → good s a → step s a = some t → Inv t)
    (h : Reachable step good start s) (hs : Inv start) : Inv s := by
  obtain ⟨as, hall, hrun⟩ := h
  exact hall.exec_inv hstep hs hrun

end TcpIot.Framework
