import TcpIot.Server.System

/-!
# Setting client names concurrently

All listen threads pass a new name through the one global `client_name`: a first `strcpy` fills it
from the message, a second copies it into the thread's slot, and a thread that starts clears it.
A step is one of these statements, each taken as a whole.
-/

namespace TcpIot.Server

open Framework

/-- Where a thread is in its handling of `SET_CLIENT_NAME`: the slot it has looked up and the
message it has received. -/
inductive NamePhase where
  | idle
  | received (index : Fin maxThreads) (tempx : Buffer 50)
  | copied (index : Fin maxThreads) (tempx : Buffer 50)
deriving DecidableEq

/-- The server with any number of threads. -/
structure Naming (τ : Type*) where
  table : State
  phase : τ → NamePhase
  /-- Ghost: the texts written to `client_name`, the last one first. -/
  written : List (List UInt8)

inductive NameStep (τ : Type*) where
  | start (t : τ) (sock now : Int)
  | receive (t : τ) (index : Fin maxThreads) (tempx : Buffer 50)
  /-- `strcpy(client_name, tempx)`. -/
  | copyIn (t : τ)
  /-- `strcpy(pthreads_list[index].client_name, client_name)`. -/
  | copyOut (t : τ)
deriving DecidableEq

/-- The name in a message, when it fits `client_name`. -/
def nameIn (tempx : Buffer 50) : Option (CString 30) := tempx.cstr.bind (CString.ofChars 30)

def storeName (s : State) (index : Fin maxThreads) (name : CString 30) : State :=
  s.setSlot index { s.pthreadsList index with clientName := name }

section Naming

variable {τ : Type*} [DecidableEq τ]

/-- No thread is in the handler yet. -/
def Naming.ofTable (s : State) : Naming τ := ⟨s, fun _ => .idle, []⟩

def Naming.setPhase (σ : Naming τ) (t : τ) (p : NamePhase) : Naming τ :=
  { σ with phase := Function.update σ.phase t p }

/-- One statement; `none` when the thread is elsewhere or the copy does not fit. -/
def nameStep (σ : Naming τ) : NameStep τ → Option (Naming τ)
  | .start t sock now =>
    match σ.phase t with
    | .idle => some { σ with table := listenStart σ.table sock now, written := [] :: σ.written }
    | _ => none
  | .receive t index tempx =>
    match σ.phase t with
    | .idle => some (σ.setPhase t (.received index tempx))
    | _ => none
  | .copyIn t =>
    match σ.phase t with
    | .received index tempx => (nameIn tempx).map fun name =>
      { σ.setPhase t (.copied index tempx) with
        table := { σ.table with clientName := name }
        written := name.chars :: σ.written }
    | _ => none
  | .copyOut t =>
    match σ.phase t with
    | .copied index _ => some { σ.setPhase t .idle with
        table := storeName σ.table index σ.table.clientName }
    | _ => none

/-- The slot that a step fills and the message it handles. -/
def Naming.storing (σ : Naming τ) : NameStep τ → Option (Fin maxThreads × Buffer 50)
  | .copyOut t =>
    match σ.phase t with
    | .copied index tempx => some (index, tempx)
    | _ => none
  | _ => none

/-- The message that a step copies into `client_name`. -/
def Naming.taking (σ : Naming τ) : NameStep τ → Option (Buffer 50)
  | .copyIn t =>
    match σ.phase t with
    | .received _ tempx => some tempx
    | _ => none
  | _ => none

/-- What a step should do: stay inside `client_name`, store in the thread's slot the name that
its client sent, and leave every other name. -/
def NamesRight (σ : Naming τ) (a : NameStep τ) : Prop :=
  (∀ tempx ∈ σ.taking a, (nameIn tempx).isSome) ∧
  ∀ σ' ∈ nameStep σ a, ∀ j, some (σ'.table.pthreadsList j).clientName.chars =
    match σ.storing a with
    | some (index, tempx) =>
      if j = index then tempx.cstr else some (σ.table.pthreadsList j).clientName.chars
    | none => some (σ.table.pthreadsList j).clientName.chars

/-- The name has at most 29 bytes, and the last text written to `client_name` before the second
copy is the one that the thread's own client sent. -/
def OwnTextLast (σ : Naming τ) (a : NameStep τ) : Prop :=
  (∀ tempx ∈ σ.taking a, ∃ name, tempx.cstr = some name ∧ name.length < 30) ∧
  ∀ m ∈ σ.storing a, σ.written.head? = m.2.cstr

instance (σ : Naming τ) (a : NameStep τ) : Decidable (NamesRight σ a) :=
  inferInstanceAs (Decidable (_ ∧ _))

/-- What the ghost says about `client_name`. -/
structure Naming.Inv (σ : Naming τ) : Prop where
  last : ∀ text ∈ σ.written.head?, σ.table.clientName.chars = text
  nonempty : ∀ t index tempx, σ.phase t = .copied index tempx → σ.written ≠ []

omit [DecidableEq τ] in
theorem ofTable_inv (s : State) : (Naming.ofTable s : Naming τ).Inv where
  last _ h := by cases h
  nonempty _ _ _ h := by cases h

theorem nameIn_isSome {tempx : Buffer 50} :
    (nameIn tempx).isSome ↔ ∃ name, tempx.cstr = some name ∧ name.length < 30 := by
  unfold nameIn
  cases hname : tempx.cstr with
  | none => simp
  | some name =>
    have hnul := (Buffer.cstr_eq_some.mp hname).1
    simp [CString.ofChars, hnul]

theorem storeName_clientName (s : State) (index j : Fin maxThreads) (name : CString 30) :
    ((storeName s index name).pthreadsList j).clientName =
      if j = index then name else (s.pthreadsList j).clientName := by
  by_cases hj : j = index
  · rw [if_pos hj, hj, storeName, setSlot_same]
  · rw [if_neg hj, storeName, setSlot_ne _ _ hj]

theorem listenStart_clientName (s : State) (sock now : Int) (j : Fin maxThreads) :
    ((listenStart s sock now).pthreadsList j).clientName = (s.pthreadsList j).clientName := by
  simp only [listenStart]
  split <;> rfl

/-- The two copies with nothing in between are the handler of the sequential server. -/
theorem copies_eq_setClientName {σ : Naming τ} {t : τ} {index : Fin maxThreads}
    {tempx : Buffer 50} (h : σ.phase t = .received index tempx) :
    (exec nameStep σ [.copyIn t, .copyOut t]).map Naming.table =
      setClientName σ.table index tempx := by
  simp only [exec_cons, exec_nil, nameStep, h, setClientName]
  rw [← nameIn]
  cases nameIn tempx with
  | none => rfl
  | some name =>
    simp [Naming.setPhase, storeName, State.setSlot]

theorem nameStep_cases {σ σ' : Naming τ} {a : NameStep τ} (h : nameStep σ a = some σ') :
    match a with
    | .start t sock now => σ.phase t = .idle ∧
        σ' = { σ with table := listenStart σ.table sock now, written := [] :: σ.written }
    | .receive t index tempx => σ.phase t = .idle ∧ σ' = σ.setPhase t (.received index tempx)
    | .copyIn t => ∃ index tempx name, σ.phase t = .received index tempx ∧
        σ' = { σ.setPhase t (.copied index tempx) with
          table := { σ.table with clientName := name }
          written := name.chars :: σ.written }
    | .copyOut t => ∃ index tempx, σ.phase t = .copied index tempx ∧
        σ' = { σ.setPhase t .idle with
          table := storeName σ.table index σ.table.clientName } := by
  cases a with
  | start t sock now =>
    simp only [nameStep] at h
    split at h
    · exact ⟨‹_›, (Option.some.inj h).symm⟩
    · cases h
  | receive t index tempx =>
    simp only [nameStep] at h
    split at h
    · exact ⟨‹_›, (Option.some.inj h).symm⟩
    · cases h
  | copyIn t =>
    simp only [nameStep] at h
    split at h
    · obtain ⟨name, -, hname⟩ := Option.map_eq_some_iff.mp h
      exact ⟨_, _, name, ‹_›, hname.symm⟩
    · cases h
  | copyOut t =>
    simp only [nameStep] at h
    split at h
    · exact ⟨_, _, ‹_›, (Option.some.inj h).symm⟩
    · cases h

theorem nameStep_clientName {σ σ' : Naming τ} {a : NameStep τ} (h : nameStep σ a = some σ')
    (j : Fin maxThreads) :
    (σ'.table.pthreadsList j).clientName =
      match σ.storing a with
      | some (index, _) =>
        if j = index then σ.table.clientName else (σ.table.pthreadsList j).clientName
      | none => (σ.table.pthreadsList j).clientName := by
  have hcases := nameStep_cases h
  cases a with
  | start t sock now =>
    obtain ⟨-, rfl⟩ := hcases
    exact listenStart_clientName _ _ _ _
  | receive t index tempx =>
    obtain ⟨-, rfl⟩ := hcases
    rfl
  | copyIn t =>
    obtain ⟨_, _, _, -, rfl⟩ := hcases
    rfl
  | copyOut t =>
    obtain ⟨index, tempx, hphase, rfl⟩ := hcases
    simp only [Naming.storing, hphase]
    exact storeName_clientName _ _ _ _

theorem storing_isSome {σ : Naming τ} {a : NameStep τ} {m : Fin maxThreads × Buffer 50}
    (h : σ.storing a = some m) :
    (nameStep σ a).isSome ∧ ∃ t, σ.phase t = .copied m.1 m.2 := by
  cases a with
  | copyOut t =>
    simp only [Naming.storing] at h
    split at h
    · rename_i index tempx hphase
      cases h
      exact ⟨by simp [nameStep, hphase], t, hphase⟩
    · cases h
  | start t sock now => cases h
  | receive t index tempx => cases h
  | copyIn t => cases h

omit [DecidableEq τ] in
theorem Naming.Inv.head {σ : Naming τ} (h : σ.Inv) {t : τ} {index : Fin maxThreads}
    {tempx : Buffer 50} (ht : σ.phase t = .copied index tempx) :
    σ.written.head? = some σ.table.clientName.chars := by
  cases hwritten : σ.written with
  | nil => exact absurd hwritten (h.nonempty t index tempx ht)
  | cons text texts =>
    have hlast := h.last text (by rw [hwritten]; rfl)
    rw [hlast]
    rfl

theorem namesRight_iff {σ : Naming τ} (h : σ.Inv) (a : NameStep τ) :
    NamesRight σ a ↔ OwnTextLast σ a := by
  refine and_congr (forall₂_congr fun tempx _ => nameIn_isSome) ?_
  cases hstoring : σ.storing a with
  | none =>
    refine iff_of_true (fun σ' hσ' j => ?_) (fun m hm => by cases hm)
    have hname := nameStep_clientName hσ' j
    rw [hstoring] at hname
    exact congrArg (fun name : CString 30 => some name.chars) hname
  | some m =>
    obtain ⟨hstep, t, ht⟩ := storing_isSome hstoring
    obtain ⟨σ', hσ'⟩ := Option.isSome_iff_exists.mp hstep
    have hname := nameStep_clientName hσ'
    rw [hstoring] at hname
    constructor
    · rintro hright _ ⟨⟩
      have hsent := hright σ' hσ' m.1
      rw [hname] at hsent
      simpa [h.head ht] using hsent
    · intro hown σ'' hσ'' j
      cases hσ'.symm.trans hσ''
      have hsent := hown m rfl
      rw [h.head ht] at hsent
      rw [hname]
      dsimp only
      split
      · exact hsent
      · rfl

theorem copied_of_setPhase {σ : Naming τ} {t u : τ} {p : NamePhase} {index : Fin maxThreads}
    {tempx : Buffer 50} (hp : p ≠ .copied index tempx)
    (h : (σ.setPhase t p).phase u = .copied index tempx) : σ.phase u = .copied index tempx := by
  change Function.update σ.phase t p u = _ at h
  by_cases hu : u = t
  · rw [hu, Function.update_self] at h
    exact absurd h hp
  · rwa [Function.update_of_ne hu] at h

theorem nameStep_inv {σ σ' : Naming τ} {a : NameStep τ} (h : σ.Inv)
    (hstep : nameStep σ a = some σ') : σ'.Inv := by
  have hcases := nameStep_cases hstep
  cases a with
  | start t sock now =>
    obtain ⟨-, rfl⟩ := hcases
    exact ⟨fun text htext => Option.some.inj htext, fun _ _ _ _ => List.cons_ne_nil _ _⟩
  | receive t index tempx =>
    obtain ⟨-, rfl⟩ := hcases
    refine ⟨h.last, fun u index' tempx' hu => ?_⟩
    exact h.nonempty u index' tempx' (copied_of_setPhase (by simp) hu)
  | copyIn t =>
    obtain ⟨_, _, _, -, rfl⟩ := hcases
    exact ⟨fun text htext => Option.some.inj htext, fun _ _ _ _ => List.cons_ne_nil _ _⟩
  | copyOut t =>
    obtain ⟨_, _, -, rfl⟩ := hcases
    refine ⟨h.last, fun u index' tempx' hu => ?_⟩
    exact h.nonempty u index' tempx' (copied_of_setPhase (by simp) hu)

end Naming

/-- For any number of threads and every order of their statements: every name that does not
overrun `client_name` is stored in the slot of its client with no other name changed iff every
name has at most 29 bytes and, at every second copy, the last text that any thread wrote to
`client_name` is the name that this thread's client sent. -/
theorem clientNames_iff {τ : Type*} [DecidableEq τ] (s : State) (steps : List (NameStep τ)) :
    AllSteps nameStep NamesRight (.ofTable s) steps ↔
      AllSteps nameStep OwnTextLast (.ofTable s) steps :=
  allSteps_iff_of_inv (fun _ a hσ _ => namesRight_iff hσ a)
    (fun _ _ _ hσ _ _ hstep => nameStep_inv hσ hstep) (allSteps_true _ _) (ofTable_inv s)

/-- A message that holds one letter. -/
def letterMessage (c : UInt8) : Buffer 50 := .padded 50 [c]

/-- Two clients send the names `a` and `b`; both threads make their first copy before either makes
its second. -/
def crossedNames : List (NameStep Bool) :=
  [.receive false 0 (letterMessage 97), .receive true 1 (letterMessage 98), .copyIn false,
    .copyIn true, .copyOut false]

/-- The slot of the first client gets the name of the second. -/
theorem crossed_names_stored :
    ¬ AllSteps nameStep NamesRight (.ofTable (init (Buffer.zero 100))) crossedNames ∧
    ((exec nameStep (.ofTable (init (Buffer.zero 100))) crossedNames).map fun σ =>
      (σ.table.pthreadsList 0).clientName.chars) = some [98] := by
  decide

end TcpIot.Server
