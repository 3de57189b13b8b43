import TcpIot.Server.Heartbeat

/-!
# `UPDATE_STATUS` from end to end

The loop compares every slot with the text that it received, and appends the uptime to that text
when it reports a slot. What a later slot is compared with is the text of the last report.
-/

namespace TcpIot.Server

open Framework

section Reports

variable (fixed2 : Int → Nat → List UInt8)

/-- The reports of the loop: the slot that each one is sent for, and its text. -/
def updateStatusReports (now : Int) :
    List (Fin maxThreads) → State → Buffer 50 → List (Fin maxThreads × Buffer 50)
  | [], _, _ => []
  | i :: is, s, tempx =>
    let t := s.pthreadsList i
    if SameText t.clientName tempx then
      let s := s.setSlot i (t.refreshed now)
      if 0 < t.timeStamp then
        match appendUptime fixed2 (now - t.orgTimeStamp) tempx with
        | none => []
        | some tempx => (i, tempx) :: updateStatusReports now is s tempx
      else updateStatusReports now is s tempx
    else updateStatusReports now is s tempx

/-- The frame of a report. -/
def reportFrame (s : State) (stray : Int) (report : Fin maxThreads × Buffer 50) : Effect :=
  .sendMsgb (winClientSock s stray) (2 * (report.2.cstr.getD []).length) report.2.bytes
    CmdTypes.sendMessage2.code

/-- The text of a report: the name, a blank and the uptime. -/
def reportText (now : Int) (x : List UInt8) (t : Threads) : List UInt8 :=
  x ++ 32 :: (uptime fixed2 (now - t.orgTimeStamp)).takeWhile (· ≠ 0)

/-- The uptime fits `tempx2`, and behind the name and a blank it fits `tempx`. -/
def ReportFits (now : Int) (x : List UInt8) (t : Threads) : Prop :=
  (uptime fixed2 (now - t.orgTimeStamp)).length < 50 ∧ (reportText fixed2 now x t).length < 50

end Reports

section Appending

variable {fixed2 : Int → Nat → List UInt8} {now : Int} {x : List UInt8} {t : Threads}
  {tempx : Buffer 50}

theorem appendUptime_fits (htext : tempx.cstr = some x) (h : ReportFits fixed2 now x t) :
    ∃ longer, appendUptime fixed2 (now - t.orgTimeStamp) tempx = some longer ∧
      longer.cstr = some (reportText fixed2 now x t) := by
  obtain ⟨huptime, hreport⟩ := h
  rw [reportText, List.length_append, List.length_cons] at hreport
  obtain ⟨tempx2, hcopy, htempx2⟩ := Buffer.strcpy_fits (Buffer.zero 50) huptime
  obtain ⟨blank, hblank, hblankText⟩ := @Buffer.strcat_fits _ _ _ [32] htext (by decide)
    (by rw [List.length_singleton]; omega)
  obtain ⟨longer, hlonger, hlongerText⟩ := @Buffer.strcat_fits _ _ _
    ((uptime fixed2 (now - t.orgTimeStamp)).takeWhile (· ≠ 0)) hblankText
    (fun hnul => by simpa using List.mem_takeWhile_imp hnul)
    (by rw [List.length_append, List.length_singleton]; omega)
  refine ⟨longer, ?_, ?_⟩
  · rw [appendUptime, hcopy, Option.bind_some, hblank, Option.bind_some, htempx2,
      Option.bind_some, hlonger]
  · rw [hlongerText, reportText, List.append_assoc, List.singleton_append]

theorem appendUptime_overruns (htext : tempx.cstr = some x) (h : ¬ ReportFits fixed2 now x t) :
    appendUptime fixed2 (now - t.orgTimeStamp) tempx = none := by
  by_cases huptime : (uptime fixed2 (now - t.orgTimeStamp)).length < 50
  · have hreport : ¬ (reportText fixed2 now x t).length < 50 := fun hfit => h ⟨huptime, hfit⟩
    rw [reportText, List.length_append, List.length_cons] at hreport
    obtain ⟨tempx2, hcopy, htempx2⟩ := Buffer.strcpy_fits (Buffer.zero 50) huptime
    rw [appendUptime, hcopy, Option.bind_some, htempx2]
    by_cases hblank : x.length + 1 < 50
    · obtain ⟨blank, hsome, hblankText⟩ := @Buffer.strcat_fits _ _ _ [32] htext (by decide) hblank
      rw [hsome, Option.bind_some, Option.bind_some]
      refine Buffer.strcat_overruns hblankText ?_
      rw [List.length_append, List.length_singleton]
      omega
    · rw [@Buffer.strcat_overruns _ _ _ [32] htext (not_lt.mp hblank), Option.bind_none]
  · rw [appendUptime, Buffer.strcpy_overruns _ (not_lt.mp huptime), Option.bind_none]

end Appending

abbrev Threads.Called (t : Threads) (x : List UInt8) : Prop := t.clientName.chars = x

/-- Every listed slot called `x` is refreshed and no other one changed, one report is sent for each
such slot that has reported before, and its text starts with `x` and a blank. -/
structure ReportsAll (slots : Fin maxThreads → Threads) (now : Int) (x : List UInt8)
    (is : List (Fin maxThreads)) (t : State) (reports : List (Fin maxThreads × Buffer 50)) :
    Prop where
  refreshed : ∀ k ∈ is, (slots k).Called x →
    (t.pthreadsList k).dirtyFlag = 0 ∧ (t.pthreadsList k).timeStamp = now
  kept : ∀ k ∈ is, ¬ (slots k).Called x → t.pthreadsList k = slots k
  once : reports.map Prod.fst = is.filter fun k => (slots k).Called x ∧ 0 < (slots k).timeStamp
  texts : ∀ report ∈ reports, ∃ text, report.2.cstr = some text ∧ x ++ [32] <+: text

/-- The slot holds what an `UPDATE_STATUS` would write, and has not reported before. -/
def Unaffected (now : Int) (t : Threads) : Prop :=
  t.dirtyFlag = 0 ∧ t.timeStamp = now ∧ t.timeStamp ≤ 0

instance (now : Int) (t : Threads) : Decidable (Unaffected now t) :=
  inferInstanceAs (Decidable (_ ∧ _))

/-- The first of the listed slots called `x` that has reported before. -/
def FirstReport (slots : Fin maxThreads → Threads) (x : List UInt8) (is : List (Fin maxThreads))
    (i : Fin maxThreads) : Prop :=
  i ∈ is ∧ (slots i).Called x ∧ 0 < (slots i).timeStamp ∧
    ∀ j ∈ is, j < i → (slots j).Called x → (slots j).timeStamp ≤ 0

instance (slots : Fin maxThreads → Threads) (x : List UInt8) (is : List (Fin maxThreads)) :
    DecidablePred (FirstReport slots x is) := fun _ => inferInstanceAs (Decidable (_ ∧ _ ∧ _ ∧ _))

/-- The condition: the first report fits, and behind its slot the name and the text of the report
belong to unaffected slots only. -/
def ReportsOnce (fixed2 : Int → Nat → List UInt8) (slots : Fin maxThreads → Threads) (now : Int)
    (x : List UInt8) (is : List (Fin maxThreads)) : Prop :=
  ∀ i, FirstReport slots x is i → ReportFits fixed2 now x (slots i) ∧
    ∀ k ∈ is, i < k → (slots k).Called x ∨ (slots k).Called (reportText fixed2 now x (slots i)) →
      Unaffected now (slots k)

instance (fixed2 : Int → Nat → List UInt8) (now : Int) (x : List UInt8) (t : Threads) :
    Decidable (ReportFits fixed2 now x t) := inferInstanceAs (Decidable (_ ∧ _))

instance (fixed2 : Int → Nat → List UInt8) (slots : Fin maxThreads → Threads) (now : Int)
    (x : List UInt8) (is : List (Fin maxThreads)) :
    Decidable (ReportsOnce fixed2 slots now x is) :=
  inferInstanceAs (Decidable (∀ _, _ → _ ∧ ∀ _ ∈ _, _ → _ → _))

section Law

variable {fixed2 : Int → Nat → List UInt8} {slots : Fin maxThreads → Threads} {now : Int}
  {x : List UInt8} {i : Fin maxThreads} {is : List (Fin maxThreads)} {t : State}
  {reports : List (Fin maxThreads × Buffer 50)}

private theorem refreshed_eq_iff {t : Threads} :
    t.refreshed now = t ↔ t.dirtyFlag = 0 ∧ t.timeStamp = now := by
  cases t
  simp only [Threads.refreshed, Threads.mk.injEq, true_and]
  constructor
  · rintro ⟨hstamp, hflag⟩
    exact ⟨hflag.symm, hstamp.symm⟩
  · rintro ⟨hflag, hstamp⟩
    exact ⟨hstamp.symm, hflag.symm⟩

private theorem reportsAll_cons_silent
    (hsilent : (slots i).Called x → (slots i).timeStamp ≤ 0)
    (hrefreshed : (slots i).Called x →
      (t.pthreadsList i).dirtyFlag = 0 ∧ (t.pthreadsList i).timeStamp = now)
    (hkept : ¬ (slots i).Called x → t.pthreadsList i = slots i) :
    ReportsAll slots now x (i :: is) t reports ↔ ReportsAll slots now x is t reports := by
  have hfilter : (i :: is).filter (fun k => (slots k).Called x ∧ 0 < (slots k).timeStamp) =
      is.filter fun k => (slots k).Called x ∧ 0 < (slots k).timeStamp := by
    refine List.filter_cons_of_neg ?_
    rw [decide_eq_true_iff]
    exact fun hreport => absurd hreport.2 (not_lt.mpr (hsilent hreport.1))
  constructor
  · intro h
    exact ⟨fun k hk => h.refreshed k (List.mem_cons_of_mem i hk),
      fun k hk => h.kept k (List.mem_cons_of_mem i hk), h.once.trans hfilter, h.texts⟩
  · intro h
    refine ⟨?_, ?_, h.once.trans hfilter.symm, h.texts⟩
    · exact List.forall_mem_cons.mpr ⟨hrefreshed, h.refreshed⟩
    · exact List.forall_mem_cons.mpr ⟨hkept, h.kept⟩

private theorem reportsOnce_cons_silent (hhead : ∀ k ∈ is, i < k)
    (hsilent : (slots i).Called x → (slots i).timeStamp ≤ 0) :
    ReportsOnce fixed2 slots now x (i :: is) ↔ ReportsOnce fixed2 slots now x is := by
  have hfirst (j : Fin maxThreads) :
      FirstReport slots x (i :: is) j ↔ FirstReport slots x is j := by
    constructor
    · rintro ⟨hj, hcalled, hstamp, hlower⟩
      refine ⟨?_, hcalled, hstamp, fun k hk => hlower k (List.mem_cons_of_mem i hk)⟩
      refine (List.mem_cons.mp hj).resolve_left ?_
      rintro rfl
      exact absurd hstamp (not_lt.mpr (hsilent hcalled))
    · rintro ⟨hj, hcalled, hstamp, hlower⟩
      refine ⟨List.mem_cons_of_mem i hj, hcalled, hstamp, fun k hk => ?_⟩
      rcases List.mem_cons.mp hk with rfl | hk
      · exact fun _ => hsilent
      · exact hlower k hk
  refine forall_congr' fun j => ?_
  rw [hfirst j]
  refine forall_congr' fun hj => and_congr_right fun _ => ?_
  rw [List.forall_mem_cons]
  exact and_iff_right fun hji => absurd (hhead j hj.1) hji.asymm

private theorem reportsOnce_cons_report (hhead : ∀ k ∈ is, i < k) (hcalled : (slots i).Called x)
    (hstamp : 0 < (slots i).timeStamp) :
    ReportsOnce fixed2 slots now x (i :: is) ↔ ReportFits fixed2 now x (slots i) ∧
      ∀ k ∈ is, (slots k).Called x ∨ (slots k).Called (reportText fixed2 now x (slots i)) →
        Unaffected now (slots k) := by
  have hfirst : FirstReport slots x (i :: is) i := by
    refine ⟨List.mem_cons_self, hcalled, hstamp, fun j hj hji => ?_⟩
    rcases List.mem_cons.mp hj with rfl | hj
    · exact absurd hji (lt_irrefl _)
    · exact absurd (hhead j hj) hji.asymm
  constructor
  · intro h
    exact ⟨(h i hfirst).1,
      fun k hk => (h i hfirst).2 k (List.mem_cons_of_mem i hk) (hhead k hk)⟩
  · rintro ⟨hfits, hunaffected⟩ j ⟨hj, -, hpos, hlower⟩
    have hji : j = i := by
      rcases List.mem_cons.mp hj with rfl | hj
      · rfl
      · exact absurd hstamp (not_lt.mpr (hlower i List.mem_cons_self (hhead j hj) hcalled))
    subst hji
    refine ⟨hfits, fun k hk hlt => ?_⟩
    rcases List.mem_cons.mp hk with rfl | hk
    · exact absurd hlt (lt_irrefl _)
    · exact hunaffected k hk

end Law

section Loop

variable {fixed2 : Int → Nat → List UInt8} {slots : Fin maxThreads → Threads} {now stray : Int}
  {s : State} {i : Fin maxThreads} {is : List (Fin maxThreads)} {tempx : Buffer 50}

private theorem setSlot_rest (hnodup : (i :: is).Nodup) (t : Threads)
    (hsame : ∀ k ∈ i :: is, s.pthreadsList k = slots k) :
    ∀ k ∈ is, (s.setSlot i t).pthreadsList k = slots k := by
  intro k hk
  have hki : k ≠ i := fun h => (List.nodup_cons.mp hnodup).1 (h ▸ hk)
  rw [setSlot_ne s t hki]
  exact hsame k (List.mem_cons_of_mem i hk)

private theorem updateStatus_notMem {t : State}
    (h : (updateStatus fixed2 now stray is s tempx).map Prod.fst = some t) {k : Fin maxThreads}
    (hk : k ∉ is) : t.pthreadsList k = s.pthreadsList k := by
  obtain ⟨r, hr, rfl⟩ := Option.map_eq_some_iff.mp h
  clear h
  induction is generalizing s tempx r with
  | nil =>
    cases hr
    rfl
  | cons i is ih =>
    rw [List.mem_cons] at hk
    rcases updateStatus_cons hr with ⟨-, hnext⟩ | ⟨-, text, sent, hnext, -⟩
    · exact ih (fun hmem => hk (.inr hmem)) r hnext
    · have hrec := ih (fun hmem => hk (.inr hmem)) (r.1, sent) hnext
      exact hrec.trans (setSlot_ne s _ fun hki => hk (.inl hki))

private theorem sameText_iff_called {c : List UInt8} (htext : tempx.cstr = some c) {t : Threads} :
    SameText t.clientName tempx ↔ t.Called c := by
  rw [sameText_iff, htext, Option.some_inj]
  exact eq_comm

section Turns

variable {c : List UInt8} (fixed2 now stray is)

private theorem updateStatus_other (htext : tempx.cstr = some c)
    (hother : ¬ (s.pthreadsList i).Called c) :
    updateStatus fixed2 now stray (i :: is) s tempx = updateStatus fixed2 now stray is s tempx ∧
    updateStatusReports fixed2 now (i :: is) s tempx =
      updateStatusReports fixed2 now is s tempx := by
  have hname := mt (sameText_iff_called htext).mp hother
  simp only [updateStatus, updateStatusReports, if_neg hname, and_self]

private theorem updateStatus_silent (htext : tempx.cstr = some c)
    (hcalled : (s.pthreadsList i).Called c) (hstamp : (s.pthreadsList i).timeStamp ≤ 0) :
    updateStatus fixed2 now stray (i :: is) s tempx =
      updateStatus fixed2 now stray is (s.setSlot i ((s.pthreadsList i).refreshed now)) tempx ∧
    updateStatusReports fixed2 now (i :: is) s tempx =
      updateStatusReports fixed2 now is (s.setSlot i ((s.pthreadsList i).refreshed now)) tempx := by
  have hname := (sameText_iff_called htext).mpr hcalled
  simp only [updateStatus, updateStatusReports, if_pos hname, if_neg (not_lt.mpr hstamp), and_self]

private theorem updateStatus_report (htext : tempx.cstr = some c)
    (hcalled : (s.pthreadsList i).Called c) (hstamp : 0 < (s.pthreadsList i).timeStamp) :
    (¬ ReportFits fixed2 now c (s.pthreadsList i) ∧
      updateStatus fixed2 now stray (i :: is) s tempx = none) ∨
    (ReportFits fixed2 now c (s.pthreadsList i) ∧ ∃ longer : Buffer 50,
      longer.cstr = some (reportText fixed2 now c (s.pthreadsList i)) ∧
      ((updateStatus fixed2 now stray (i :: is) s tempx).map Prod.fst =
        (updateStatus fixed2 now stray is
          (s.setSlot i ((s.pthreadsList i).refreshed now)) longer).map Prod.fst) ∧
      updateStatusReports fixed2 now (i :: is) s tempx =
        (i, longer) :: updateStatusReports fixed2 now is
          (s.setSlot i ((s.pthreadsList i).refreshed now)) longer) := by
  have hname := (sameText_iff_called htext).mpr hcalled
  simp only [updateStatus, updateStatusReports, if_pos hname, if_pos hstamp]
  by_cases hfits : ReportFits fixed2 now c (s.pthreadsList i)
  · obtain ⟨longer, hlonger, htext'⟩ := appendUptime_fits htext hfits
    refine .inr ⟨hfits, longer, htext', ?_, ?_⟩
    · rw [hlonger, Option.bind_some, htext', Option.bind_some, Option.map_map]
      rfl
    · rw [hlonger]
  · refine .inl ⟨hfits, ?_⟩
    rw [appendUptime_overruns htext hfits, Option.bind_none]

end Turns

private theorem finalSlot {t : State} {u : Threads} (hnodup : (i :: is).Nodup) {text : Buffer 50}
    (h : (updateStatus fixed2 now stray is (s.setSlot i u) text).map Prod.fst = some t) :
    t.pthreadsList i = u := by
  rw [updateStatus_notMem h (List.nodup_cons.mp hnodup).1, setSlot_same]

private theorem updateStatus_starts {c : List UInt8} {t : State} (hnodup : is.Nodup)
    (hsame : ∀ k ∈ is, s.pthreadsList k = slots k) (htext : tempx.cstr = some c)
    (h : (updateStatus fixed2 now stray is s tempx).map Prod.fst = some t) :
    (∀ k ∈ is, ¬ c <+: (slots k).clientName.chars → t.pthreadsList k = slots k) ∧
    ∀ k ∈ (updateStatusReports fixed2 now is s tempx).map Prod.fst,
      k ∈ is ∧ c <+: (slots k).clientName.chars := by
  induction is generalizing s tempx c with
  | nil => exact ⟨nofun, nofun⟩
  | cons i is ih =>
    have hi := hsame i List.mem_cons_self
    have hnext := (List.nodup_cons.mp hnodup).2
    have hrest := setSlot_rest hnodup ((s.pthreadsList i).refreshed now) hsame
    by_cases hcalled : (s.pthreadsList i).Called c
    · have hstarts : c <+: (slots i).clientName.chars := by
        rw [← hi]
        exact hcalled ▸ List.prefix_refl _
      by_cases hstamp : 0 < (s.pthreadsList i).timeStamp
      · rcases updateStatus_report fixed2 now stray is htext hcalled hstamp with
          ⟨-, hnone⟩ | ⟨-, longer, hlonger, hstep, hreports⟩
        · rw [hnone] at h
          cases h
        · rw [hstep] at h
          obtain ⟨hslots, hreported⟩ := ih hnext hrest hlonger h
          have hgrown : c <+: reportText fixed2 now c (s.pthreadsList i) := List.prefix_append _ _
          constructor
          · refine List.forall_mem_cons.mpr ⟨fun hno => absurd hstarts hno, fun k hk hno => ?_⟩
            exact hslots k hk fun hlong => hno (hgrown.trans hlong)
          · rw [hreports, List.map_cons, List.forall_mem_cons]
            refine ⟨⟨List.mem_cons_self, hstarts⟩, fun k hk => ?_⟩
            exact ⟨List.mem_cons_of_mem i (hreported k hk).1, hgrown.trans (hreported k hk).2⟩
      · obtain ⟨hstep, hreports⟩ := updateStatus_silent fixed2 now stray is htext hcalled
          (not_lt.mp hstamp)
        rw [hstep] at h
        rw [hreports]
        obtain ⟨hslots, hreported⟩ := ih hnext hrest htext h
        refine ⟨?_, fun k hk => ?_⟩
        · exact List.forall_mem_cons.mpr ⟨fun hno => absurd hstarts hno, hslots⟩
        · exact ⟨List.mem_cons_of_mem i (hreported k hk).1, (hreported k hk).2⟩
    · obtain ⟨hstep, hreports⟩ := updateStatus_other fixed2 now stray is htext hcalled
      rw [hstep] at h
      rw [hreports]
      obtain ⟨hslots, hreported⟩ :=
        ih hnext (fun k hk => hsame k (List.mem_cons_of_mem i hk)) htext h
      refine ⟨List.forall_mem_cons.mpr ⟨fun _ => ?_, hslots⟩, fun k hk => ?_⟩
      · rw [updateStatus_notMem h (List.nodup_cons.mp hnodup).1, hi]
      · exact ⟨List.mem_cons_of_mem i (hreported k hk).1, (hreported k hk).2⟩

variable (fixed2 now stray) in
private theorem updateStatus_idle_iff {c : List UInt8} (hnodup : is.Nodup)
    (hsame : ∀ k ∈ is, s.pthreadsList k = slots k) (htext : tempx.cstr = some c) :
    (∃ t, (updateStatus fixed2 now stray is s tempx).map Prod.fst = some t ∧
      (∀ k ∈ is, t.pthreadsList k = slots k) ∧
      updateStatusReports fixed2 now is s tempx = []) ↔
    ∀ k ∈ is, (slots k).Called c → Unaffected now (slots k) := by
  induction is generalizing s with
  | nil => exact ⟨fun _ => nofun, fun _ => ⟨s, rfl, nofun, rfl⟩⟩
  | cons i is ih =>
    have hi := hsame i List.mem_cons_self
    have hnext := (List.nodup_cons.mp hnodup).2
    have hrest := setSlot_rest hnodup ((s.pthreadsList i).refreshed now) hsame
    simp only [List.forall_mem_cons]
    by_cases hcalled : (s.pthreadsList i).Called c
    · have hcalled' : (slots i).Called c := hi ▸ hcalled
      by_cases hstamp : 0 < (s.pthreadsList i).timeStamp
      · have hno : ¬ ((slots i).Called c → Unaffected now (slots i)) := by
          intro h
          exact absurd (hi ▸ hstamp) (not_lt.mpr (h hcalled').2.2)
        refine iff_of_false ?_ fun h => hno h.1
        rintro ⟨t, ht, -, hquiet⟩
        rcases updateStatus_report fixed2 now stray is htext hcalled hstamp with
          ⟨-, hnone⟩ | ⟨-, longer, -, -, hreports⟩
        · rw [hnone] at ht
          cases ht
        · rw [hreports] at hquiet
          cases hquiet
      · obtain ⟨hstep, hreports⟩ := updateStatus_silent fixed2 now stray is htext hcalled
          (not_lt.mp hstamp)
        rw [hstep, hreports, ← ih hnext hrest]
        constructor
        · rintro ⟨t, ht, ⟨hslot, hslots⟩, hquiet⟩
          refine ⟨fun _ => ?_, t, ht, hslots, hquiet⟩
          rw [finalSlot hnodup ht, hi] at hslot
          obtain ⟨hflag, hsame⟩ := refreshed_eq_iff.mp hslot
          exact ⟨hflag, hsame, hi ▸ not_lt.mp hstamp⟩
        · rintro ⟨hunaffected, t, ht, hslots, hquiet⟩
          obtain ⟨hflag, hsame, -⟩ := hunaffected hcalled'
          refine ⟨t, ht, ⟨?_, hslots⟩, hquiet⟩
          rw [finalSlot hnodup ht, hi]
          exact refreshed_eq_iff.mpr ⟨hflag, hsame⟩
    · obtain ⟨hstep, hreports⟩ := updateStatus_other fixed2 now stray is htext hcalled
      have hother : ¬ (slots i).Called c := hi ▸ hcalled
      rw [hstep, hreports, ← ih hnext fun k hk => hsame k (List.mem_cons_of_mem i hk)]
      constructor
      · rintro ⟨t, ht, ⟨-, hslots⟩, hquiet⟩
        exact ⟨fun h => absurd h hother, t, ht, hslots, hquiet⟩
      · rintro ⟨-, t, ht, hslots, hquiet⟩
        refine ⟨t, ht, ⟨?_, hslots⟩, hquiet⟩
        rw [updateStatus_notMem ht (List.nodup_cons.mp hnodup).1, hi]

private theorem reportsAll_cons_report {x : List UInt8} {t : State} {longer : Buffer 50}
    {reports : List (Fin maxThreads × Buffer 50)} (hi : (slots i).Called x)
    (hstamp : 0 < (slots i).timeStamp) (hslot : t.pthreadsList i = (slots i).refreshed now)
    (hlonger : longer.cstr = some (reportText fixed2 now x (slots i)))
    (hslots : ∀ k ∈ is, ¬ reportText fixed2 now x (slots i) <+: (slots k).clientName.chars →
      t.pthreadsList k = slots k)
    (hreported : ∀ k ∈ reports.map Prod.fst,
      reportText fixed2 now x (slots i) <+: (slots k).clientName.chars) :
    ReportsAll slots now x (i :: is) t ((i, longer) :: reports) ↔
      ((∀ k ∈ is, t.pthreadsList k = slots k) ∧ reports = []) ∧
        ∀ k ∈ is, (slots k).Called x → Unaffected now (slots k) := by
  have hshort (k : Fin maxThreads) (hk : (slots k).Called x) :
      ¬ reportText fixed2 now x (slots i) <+: (slots k).clientName.chars := by
    intro hlong
    have hle := hlong.length_le
    rw [hk, reportText, List.length_append, List.length_cons] at hle
    omega
  have hfilter : (i :: is).filter (fun k => (slots k).Called x ∧ 0 < (slots k).timeStamp) =
      i :: is.filter fun k => (slots k).Called x ∧ 0 < (slots k).timeStamp :=
    List.filter_cons_of_pos (decide_eq_true ⟨hi, hstamp⟩)
  constructor
  · intro h
    have honce := h.once
    rw [hfilter, List.map_cons, List.cons.injEq] at honce
    have hnone : reports.map Prod.fst = [] := by
      refine List.eq_nil_iff_forall_not_mem.mpr fun k hk => ?_
      have hmem := hk
      rw [honce.2, List.mem_filter, decide_eq_true_iff] at hmem
      exact hshort k hmem.2.1 (hreported k hk)
    have hsame (k : Fin maxThreads) (hk : k ∈ is) : t.pthreadsList k = slots k := by
      by_cases hcalled : (slots k).Called x
      · exact hslots k hk (hshort k hcalled)
      · exact h.kept k (List.mem_cons_of_mem i hk) hcalled
    refine ⟨⟨hsame, List.map_eq_nil_iff.mp hnone⟩, fun k hk hcalled => ?_⟩
    obtain ⟨hflag, hnow⟩ := h.refreshed k (List.mem_cons_of_mem i hk) hcalled
    rw [hsame k hk] at hflag hnow
    refine ⟨hflag, hnow, ?_⟩
    have hsilent := List.filter_eq_nil_iff.mp (honce.2.symm.trans hnone) k hk
    rw [decide_eq_true_iff] at hsilent
    exact not_lt.mp fun hpos => hsilent ⟨hcalled, hpos⟩
  · rintro ⟨⟨hsame, rfl⟩, hunaffected⟩
    refine ⟨?_, ?_, ?_, ?_⟩
    · rw [List.forall_mem_cons]
      refine ⟨fun _ => ?_, fun k hk hcalled => ?_⟩
      · rw [hslot]
        exact ⟨rfl, rfl⟩
      · rw [hsame k hk]
        obtain ⟨hflag, hnow, -⟩ := hunaffected k hk hcalled
        exact ⟨hflag, hnow⟩
    · rw [List.forall_mem_cons]
      exact ⟨fun hother => absurd hi hother, fun k hk _ => hsame k hk⟩
    · rw [hfilter, List.map_cons, List.map_nil]
      refine congrArg (List.cons i) (List.filter_eq_nil_iff.mpr fun k hk => ?_).symm
      rw [decide_eq_true_iff]
      exact fun hreport => absurd hreport.2 (not_lt.mpr (hunaffected k hk hreport.1).2.2)
    · rw [List.forall_mem_singleton]
      exact ⟨_, hlonger, _, List.append_assoc x [32] _⟩

variable (fixed2 now stray) in
/-- The law of the loop over a sorted list of slots. -/
private theorem reportsAll_iff {x : List UInt8} (hsorted : is.Pairwise (· < ·))
    (hsame : ∀ k ∈ is, s.pthreadsList k = slots k) (htext : tempx.cstr = some x) :
    (∃ t, (updateStatus fixed2 now stray is s tempx).map Prod.fst = some t ∧
      ReportsAll slots now x is t (updateStatusReports fixed2 now is s tempx)) ↔
    ReportsOnce fixed2 slots now x is := by
  induction is generalizing s with
  | nil => exact ⟨fun _ => nofun, fun _ => ⟨s, rfl, nofun, nofun, rfl, nofun⟩⟩
  | cons i is ih =>
    have hi := hsame i List.mem_cons_self
    have hnodup : (i :: is).Nodup := hsorted.imp ne_of_lt
    obtain ⟨hhead, hnext⟩ := List.pairwise_cons.mp hsorted
    have hrest := setSlot_rest hnodup ((s.pthreadsList i).refreshed now) hsame
    by_cases hcalled : (s.pthreadsList i).Called x
    · have hcalled' : (slots i).Called x := hi ▸ hcalled
      by_cases hstamp : 0 < (s.pthreadsList i).timeStamp
      · -- From this report on the text is longer than `x`, and the rest of the loop has to idle.
        rw [reportsOnce_cons_report hhead hcalled' (hi ▸ hstamp)]
        rcases updateStatus_report fixed2 now stray is htext hcalled hstamp with
          ⟨hfits, hnone⟩ | ⟨hfits, longer, hlonger, hstep, hreports⟩
        · rw [hnone, ← hi]
          refine iff_of_false ?_ fun h => hfits h.1
          rintro ⟨t, ht, -⟩
          cases ht
        · rw [hstep, hreports]
          rw [hi] at hfits hlonger
          have hidle := updateStatus_idle_iff fixed2 now stray
            (List.nodup_cons.mp hnodup).2 hrest hlonger
          simp only [or_imp, forall_and]
          rw [← hidle, and_iff_right hfits]
          have hlaw {t : State} (ht : (updateStatus fixed2 now stray is
              (s.setSlot i ((s.pthreadsList i).refreshed now)) longer).map Prod.fst = some t) :=
            have hstarts := updateStatus_starts (List.nodup_cons.mp hnodup).2 hrest hlonger ht
            reportsAll_cons_report (t := t) hcalled' (hi ▸ hstamp) (hi ▸ finalSlot hnodup ht)
              hlonger hstarts.1 fun k hk => (hstarts.2 k hk).2
          constructor
          · rintro ⟨t, ht, hall⟩
            obtain ⟨hquiet, hunaffected⟩ := (hlaw ht).mp hall
            exact ⟨hunaffected, t, ht, hquiet⟩
          · rintro ⟨hunaffected, t, ht, hquiet⟩
            exact ⟨t, ht, (hlaw ht).mpr ⟨hquiet, hunaffected⟩⟩
      · have hsilent : (slots i).Called x → (slots i).timeStamp ≤ 0 :=
          fun _ => hi ▸ not_lt.mp hstamp
        obtain ⟨hstep, hreports⟩ := updateStatus_silent fixed2 now stray is htext hcalled
          (not_lt.mp hstamp)
        rw [hstep, hreports, reportsOnce_cons_silent hhead hsilent, ← ih hnext hrest]
        refine exists_congr fun t => and_congr_right fun ht => ?_
        have hslot := finalSlot hnodup ht
        refine reportsAll_cons_silent hsilent (fun _ => ?_) fun hother => absurd hcalled' hother
        rw [hslot]
        exact ⟨rfl, rfl⟩
    · have hother : ¬ (slots i).Called x := hi ▸ hcalled
      obtain ⟨hstep, hreports⟩ := updateStatus_other fixed2 now stray is htext hcalled
      have hsilent : (slots i).Called x → (slots i).timeStamp ≤ 0 := fun h => absurd h hother
      rw [hstep, hreports, reportsOnce_cons_silent hhead hsilent,
        ← ih hnext fun k hk => hsame k (List.mem_cons_of_mem i hk)]
      refine exists_congr fun t => and_congr_right fun ht => ?_
      refine reportsAll_cons_silent hsilent (fun h => absurd h hother) fun _ => ?_
      rw [updateStatus_notMem ht (List.nodup_cons.mp hnodup).1, hi]

private theorem winClientSock_congr {t : State} (hindex : t.winClIndex = s.winClIndex)
    (hsock : ∀ k, (t.pthreadsList k).sock = (s.pthreadsList k).sock) :
    winClientSock t stray = winClientSock s stray := by
  simp only [winClientSock, hindex, hsock]

/-- The frames of the loop are its reports. -/
theorem updateStatus_sent {r : State × List Effect}
    (h : updateStatus fixed2 now stray is s tempx = some r) :
    r.2 = (updateStatusReports fixed2 now is s tempx).map (reportFrame s stray) := by
  induction is generalizing s tempx r with
  | nil =>
    cases h
    rfl
  | cons i is ih =>
    have hsock : winClientSock (s.setSlot i ((s.pthreadsList i).refreshed now)) stray =
        winClientSock s stray := by
      refine winClientSock_congr rfl fun k => ?_
      by_cases hki : k = i
      · subst hki
        rw [setSlot_same]
        rfl
      · rw [setSlot_ne s _ hki]
    have hframe : reportFrame (s.setSlot i ((s.pthreadsList i).refreshed now)) stray =
        reportFrame s stray := by
      funext report
      rw [reportFrame, reportFrame, hsock]
    simp only [updateStatus] at h
    simp only [updateStatusReports]
    split at h
    · rename_i hname
      rw [if_pos hname]
      split at h
      · rename_i hstamp
        obtain ⟨longer, hlonger, h⟩ := Option.bind_eq_some_iff.mp h
        obtain ⟨text, htext, h⟩ := Option.bind_eq_some_iff.mp h
        obtain ⟨next, hnext, rfl⟩ := Option.map_eq_some_iff.mp h
        rw [if_pos hstamp, hlonger, List.map_cons, ← hframe, ← ih hnext, reportFrame, htext, hsock]
        rfl
      · rename_i hstamp
        rw [if_neg hstamp, ih h, hframe]
    · rename_i hname
      rw [if_neg hname, ih h]

end Loop

section Handler

variable (fixed2 : Int → Nat → List UInt8) (s : State) (sock msgLen : Int) (tempx : Buffer 50)
  (now stray : Int)

/-- The reports of a turn of the thread that was started with `sock`. -/
def turnReports : List (Fin maxThreads × Buffer 50) :=
  match unpack (s.pthreadsList (lookupIndex s sock)).winCl msgLen tempx with
  | some (_, _, text) => updateStatusReports fixed2 now (List.finRange maxThreads)
      (noteWinClient s (lookupIndex s sock)) text
  | none => []

/-- The turn sends its reports to the Windows client, and they and the new table are as asked. -/
def StatusLaw (x : List UInt8) : Prop :=
  ∃ r, react fixed2 s (.command sock msgLen tempx now stray) = some r ∧
    r.2 = (turnReports fixed2 s sock msgLen tempx now).map
      (reportFrame (noteWinClient s (lookupIndex s sock)) stray) ∧
    ReportsAll s.pthreadsList now x (List.finRange maxThreads) r.1
      (turnReports fixed2 s sock msgLen tempx now)

end Handler

theorem dispatch_updateStatus (fixed2 : Int → Nat → List UInt8) (s : State)
    (index : Fin maxThreads) (msgLen : Int) (text : Buffer 50) (dest : UInt8) (now stray : Int) :
    dispatch fixed2 s index msgLen text CmdTypes.updateStatus.code dest now stray =
      updateStatus fixed2 now stray (List.finRange maxThreads) s text := by
  rw [dispatch, if_neg (by decide), if_neg (fun h => absurd h.1 (by decide)), if_pos rfl]

/-- For every table, time and name: the command does what it is for if and only if the first report
fits and no slot behind it, unless it is unaffected, carries the name or the text of the report. -/
theorem statusLaw_iff (fixed2 : Int → Nat → List UInt8) (s : State) (sock msgLen : Int)
    (tempx : Buffer 50) (now stray : Int) (x : List UInt8)
    (hcmd : tempx.get 0 = CmdTypes.updateStatus.code)
    (hname : messageText s sock msgLen tempx = some x) :
    StatusLaw fixed2 s sock msgLen tempx now stray x ↔
      ReportsOnce fixed2 s.pthreadsList now x (List.finRange maxThreads) := by
  obtain ⟨⟨len, dest, text⟩, hunpack, htext⟩ := Option.bind_eq_some_iff.mp hname
  have hrange : CmdInRange CmdTypes.updateStatus.code := by decide
  have hreports : turnReports fixed2 s sock msgLen tempx now =
      updateStatusReports fixed2 now (List.finRange maxThreads)
        (noteWinClient s (lookupIndex s sock)) text := by
    rw [turnReports, hunpack]
  have hturn : react fixed2 s (.command sock msgLen tempx now stray) =
      updateStatus fixed2 now stray (List.finRange maxThreads)
        (noteWinClient s (lookupIndex s sock)) text := by
    rw [react_command fixed2 (hcmd ▸ hrange), hunpack, Option.bind_some, hcmd,
      dispatch_updateStatus]
  rw [← reportsAll_iff fixed2 now stray (List.pairwise_lt_finRange maxThreads)
    (fun k _ => congrFun (noteWinClient_pthreadsList s (lookupIndex s sock)) k) htext, StatusLaw,
    hturn, hreports]
  constructor
  · rintro ⟨r, hr, -, hall⟩
    exact ⟨r.1, by rw [hr, Option.map_some], hall⟩
  · rintro ⟨t, ht, hall⟩
    obtain ⟨r, hr, rfl⟩ := Option.map_eq_some_iff.mp ht
    exact ⟨r, hr, updateStatus_sent hr, hall⟩

/-- `A` has reported at 100 and reports again at 400. -/
theorem statusLaw_one_reporter :
    StatusLaw (fun _ _ => ascii "0.00") ((init (Buffer.zero 100)).setSlot 0
        { emptySlot with sock := 4, clientName := ⟨[65], by decide, by decide⟩, timeStamp := 100 })
      4 1 (.padded 50 [62, 1, 65]) 400 0 [65] :=
  (statusLaw_iff _ _ _ _ _ _ _ _ (by decide) (by decide)).mpr (by decide)

/-- `wifi client` has reported when the console logs it off beside 147; it reconnects and
registers again. -/
def reconnectedTwin : List Event :=
  [.accept 4 (ascii "192.168.88.154"), .accept 5 (ascii "192.168.88.147"),
    .command 4 11 (.padded 50 (72 :: 1 :: ascii "wifi client")) 0 0,
    .command 4 11 (.padded 50 (62 :: 1 :: ascii "wifi client")) 100 0,
    .logoffClient (ascii "wifi client"), .accept 6 (ascii "192.168.88.154"),
    .command 6 11 (.padded 50 (72 :: 1 :: ascii "wifi client")) 0 0]

/-- The dead slot is reported, and the live one keeps its time stamp. -/
theorem statusLaw_reconnected : ∃ s,
    exec (step fun _ _ => ascii "0.00") (init (Buffer.zero 100)) reconnectedTwin = some s ∧
    messageText s 6 11 (.padded 50 (62 :: 1 :: ascii "wifi client")) =
      some (ascii "wifi client") ∧
    ¬ StatusLaw (fun _ _ => ascii "0.00") s 6 11 (.padded 50 (62 :: 1 :: ascii "wifi client"))
      200 0 (ascii "wifi client") := by
  refine ⟨_, rfl, by decide, ?_⟩
  rintro ⟨r, hr, -, hall⟩
  have hlive := hall.refreshed 1 (List.mem_finRange 1) (by decide)
  cases hr
  exact absurd hlive.2 (by decide)

end TcpIot.Server
