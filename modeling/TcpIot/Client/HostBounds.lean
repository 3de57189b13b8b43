import TcpIot.Client.SetTime

/-!
# Bounds of a host message

`get_host_cmd_task` takes any message of the queue. Nothing limits the length it rebuilds from two
of its bytes, and in the `SET_TIME` branch nothing limits a field: a copy that is counted up to a
separator leaves `temp_time` when the separator comes late or not at all.
-/

namespace TcpIot.Client

open Framework

/-- The bytes of a message that its length covers. -/
def hostPayload (mtext : Buffer 300) : List UInt8 := (mtext.bytes.drop 3).take (hostLen mtext)

/-- The copy into `tempx` and the NUL behind it are in bounds, and for `SET_TIME` every scan, every
copy into `temp_time` and the byte behind the last scan. -/
def HostInBounds (mktime : Tm → Tm) (isdst : Int) (stray : List UInt8) (mtext : Buffer 300) :
    Prop :=
  (hostUnpack mtext).isSome ∧
    (mtext.get 0 = CmdTypes.setTime.code → (hostSetTime mktime isdst stray mtext).isSome)

instance (mktime : Tm → Tm) (isdst : Int) (stray : List UInt8) (mtext : Buffer 300) :
    Decidable (HostInBounds mktime isdst stray mtext) :=
  inferInstanceAs (Decidable (_ ∧ _))

/-- A field and its separator, with `P` of the text behind them. -/
def Field (sep : UInt8) (text : List UInt8) (P : List UInt8 → Prop) : Prop :=
  ∃ field rest, text = field ++ sep :: rest ∧ sep ∉ field ∧ P rest

/-- A field that fits `temp_time`. -/
def ShortField (sep : UInt8) (text : List UInt8) (P : List UInt8 → Prop) : Prop :=
  ∃ field rest, text = field ++ sep :: rest ∧ sep ∉ field ∧ field.length ≤ 5 ∧ P rest

/-- From the minutes on a separator may be missing: the scan for it goes on for `msgLen` bytes. -/
def TailFits (msgLen : Nat) (text : List UInt8) : Prop :=
  Field colon text (fun rest => blank ∈ rest ∨ msgLen - rest.length + msgLen < 254) ∨
    (colon ∉ text ∧ msgLen - text.length + 2 * msgLen < 253)

/-- A payload of at most five bytes, or month, day, year and hour with their separators. -/
def TimeFits (text : List UInt8) : Prop :=
  text.length ≤ 5 ∨
    ShortField slash text fun behindMonth =>
      ShortField slash behindMonth fun behindDay =>
        Field blank behindDay fun behindYear =>
          ShortField colon behindYear (TailFits text.length)

theorem Written.timeFits {t : ClockTime} (w : Written t) : TimeFits w.text := by
  have hmonth := w.month_eq.2
  have hday := w.day_eq.2
  have hhour := w.hour_eq.2
  refine Or.inr ⟨w.month, _, rfl, w.month_eq.1.sep_notMem rfl, by omega, ?_⟩
  refine ⟨w.day, _, rfl, w.day_eq.1.sep_notMem rfl, by omega, ?_⟩
  refine ⟨w.year, _, rfl, w.blank_notMem_year, ?_⟩
  refine ⟨w.hour, _, rfl, w.hour_eq.1.sep_notMem rfl, by omega, ?_⟩
  refine Or.inl ⟨w.minute, _, rfl, w.minute_eq.1.sep_notMem rfl, Or.inl ?_⟩
  exact List.mem_append_right _ List.mem_cons_self

section Scans

variable {stray : List UInt8} {tempx : Buffer 255} {msgLen pch i : Nat} {sep : UInt8}

theorem timeField_defined {start count : Int} (hstart : 0 ≤ start) (hcount : 0 ≤ count)
    (hfit : count ≤ 5) (hin : start + count ≤ 255) :
    ∃ value, timeField stray tempx start count = some value := by
  apply Option.isSome_iff_exists.mp
  rw [timeField, Option.isSome_map, Buffer.memmove_isSome]
  simp only [Access.inBounds_mk]
  omega

theorem scan_pch_lt (h : scanTo sep msgLen (tempx.bytes.drop pch) = some i) : pch + i < 255 := by
  have hlt := scanTo_lt h
  rw [List.length_drop, tempx.bytes_length] at hlt
  omega

theorem countedField_of_scan (h : scanTo sep msgLen (tempx.bytes.drop pch) = some i)
    (hi : i ≤ 5) : ∃ value, countedField stray tempx msgLen sep pch = some (value, pch + i + 1) := by
  have hlt := scan_pch_lt h
  obtain ⟨value, hvalue⟩ := @timeField_defined stray tempx ((pch + i + 1 : Nat) - i - 1) i
    (by omega) (by omega) (by omega) (by omega)
  use value
  rw [countedField, h, Option.bind_some]
  dsimp only
  rw [hvalue, Option.map_some]

theorem scan_room (hpch : pch + msgLen < 255) :
    ∃ i ≤ msgLen, scanTo sep msgLen (tempx.bytes.drop pch) = some i := by
  apply scanTo_isSome
  rw [List.length_drop, tempx.bytes_length]
  omega

theorem countedField_long (h : scanTo sep msgLen (tempx.bytes.drop pch) = some i) (hi : 5 < i) :
    countedField stray tempx msgLen sep pch = none := by
  rw [countedField, h, Option.bind_some]
  dsimp only
  rw [timeField_none (by omega), Option.map_none]

theorem fixedField_of_scan (h : scanTo sep msgLen (tempx.bytes.drop pch) = some i)
    (hpch : 2 ≤ pch) : ∃ value, fixedField stray tempx msgLen sep pch = some (value, pch + i + 1) := by
  have hlt := scan_pch_lt h
  obtain ⟨value, hvalue⟩ := @timeField_defined stray tempx ((pch + i + 1 : Nat) - 3) 2
    (by omega) (by omega) (by omega) (by omega)
  use value
  rw [fixedField, h, Option.bind_some]
  dsimp only
  rw [hvalue, Option.map_some]

theorem fixedField_outside (h : scanTo sep msgLen (tempx.bytes.drop pch) = none) :
    fixedField stray tempx msgLen sep pch = none := by
  rw [fixedField, h, Option.bind_none]

theorem scan_missing (hsep : sep ∉ tempx.bytes.drop pch) :
    scanTo sep msgLen (tempx.bytes.drop pch) =
      if pch + msgLen < 255 then some msgLen else none := by
  have hroom : msgLen < (tempx.bytes.drop pch).length ↔ pch + msgLen < 255 := by
    rw [List.length_drop, tempx.bytes_length]
    omega
  rw [scanTo_missing hsep]
  simp only [hroom]

theorem countedField_missing (hsep : sep ∉ tempx.bytes.drop pch) (hlong : 5 < msgLen) :
    countedField stray tempx msgLen sep pch = none := by
  have hscan := @scan_missing _ msgLen _ _ hsep
  split at hscan
  · exact countedField_long hscan hlong
  · rw [countedField, hscan, Option.bind_none]

end Scans

/-- From `pch` on `tempx` holds the rest of the payload and then zeros. -/
structure Ahead (tempx : Buffer 255) (msgLen pch : Nat) (text : List UInt8) : Prop where
  drop_eq : tempx.bytes.drop pch = text ++ List.replicate (255 - msgLen) 0
  length_eq : pch + text.length = msgLen

section Ahead

variable {tempx : Buffer 255} {msgLen pch : Nat} {text field rest : List UInt8} {sep : UInt8}

theorem Ahead.behind (h : Ahead tempx msgLen pch (field ++ sep :: rest)) :
    Ahead tempx msgLen (pch + field.length + 1) rest where
  drop_eq := by
    rw [Nat.add_assoc, ← List.drop_drop, h.drop_eq, List.append_assoc, ← List.drop_drop,
      List.drop_left, List.cons_append, List.drop_succ_cons, List.drop_zero]
  length_eq := by
    have hlen := h.length_eq
    rw [List.length_append, List.length_cons] at hlen
    omega

theorem Ahead.scan (h : Ahead tempx msgLen pch (field ++ sep :: rest)) (hsep : sep ∉ field) :
    scanTo sep msgLen (tempx.bytes.drop pch) = some field.length := by
  have hlen := h.length_eq
  rw [List.length_append, List.length_cons] at hlen
  rw [h.drop_eq, List.append_assoc]
  exact scanTo_found hsep (by omega) _

theorem Ahead.notMem (h : Ahead tempx msgLen pch text) (hzero : sep ≠ 0) (hsep : sep ∉ text) :
    sep ∉ tempx.bytes.drop pch := by
  rw [h.drop_eq, List.mem_append, List.mem_replicate]
  tauto

theorem Ahead.notMem_behind (h : Ahead tempx msgLen pch text) (hzero : sep ≠ 0) {pch' : Nat}
    (hpch : msgLen ≤ pch') : sep ∉ tempx.bytes.drop pch' := by
  have hlen := h.length_eq
  have hsplit : pch' = pch + (text.length + (pch' - msgLen)) := by omega
  rw [hsplit, ← List.drop_drop, h.drop_eq, ← List.drop_drop, List.drop_left, List.drop_replicate,
    List.mem_replicate]
  tauto

end Ahead

section Branch

variable {β : Type*} {stray : List UInt8} {tempx : Buffer 255} {msgLen pch : Nat}
  {text : List UInt8} {sep : UInt8} {k : Int × Nat → Option β} {P : List UInt8 → Prop}

theorem Ahead.countedField_iff (h : Ahead tempx msgLen pch text) (hzero : sep ≠ 0)
    (hlong : 5 < msgLen)
    (hk : ∀ value pch' rest, pch < pch' → Ahead tempx msgLen pch' rest →
      ((k (value, pch')).isSome ↔ P rest)) :
    ((countedField stray tempx msgLen sep pch).bind k).isSome ↔ ShortField sep text P := by
  constructor
  · intro hsome
    by_cases hmem : sep ∈ text
    · obtain ⟨field, rest, rfl, hsep⟩ := List.eq_append_cons_of_mem hmem
      have hscan := h.scan hsep
      by_cases hfit : field.length ≤ 5
      · obtain ⟨value, hvalue⟩ := @countedField_of_scan stray _ _ _ _ _ hscan hfit
        rw [hvalue, Option.bind_some, hk _ _ _ (by omega) h.behind] at hsome
        exact ⟨field, rest, rfl, hsep, hfit, hsome⟩
      · rw [countedField_long hscan (by omega)] at hsome
        cases hsome
    · rw [countedField_missing (h.notMem hzero hmem) hlong] at hsome
      cases hsome
  · rintro ⟨field, rest, rfl, hsep, hfit, hP⟩
    obtain ⟨value, hvalue⟩ := @countedField_of_scan stray _ _ _ _ _ (h.scan hsep) hfit
    rw [hvalue, Option.bind_some, hk _ _ _ (by omega) h.behind]
    exact hP

theorem Ahead.fixedField_iff (h : Ahead tempx msgLen pch text) (hzero : sep ≠ 0) (hpch : 2 ≤ pch)
    (hk : ∀ value pch' rest, pch < pch' → Ahead tempx msgLen pch' rest →
      ((k (value, pch')).isSome ↔ P rest))
    (hbehind : ∀ value pch', msgLen ≤ pch' → k (value, pch') = none) :
    ((fixedField stray tempx msgLen sep pch).bind k).isSome ↔ Field sep text P := by
  constructor
  · intro hsome
    by_cases hmem : sep ∈ text
    · obtain ⟨field, rest, rfl, hsep⟩ := List.eq_append_cons_of_mem hmem
      obtain ⟨value, hvalue⟩ := @fixedField_of_scan stray _ _ _ _ _ (h.scan hsep) hpch
      rw [hvalue, Option.bind_some, hk _ _ _ (by omega) h.behind] at hsome
      exact ⟨field, rest, rfl, hsep, hsome⟩
    · have hscan := @scan_missing _ msgLen _ _ (h.notMem hzero hmem)
      split at hscan
      · obtain ⟨value, hvalue⟩ := @fixedField_of_scan stray _ _ _ _ _ hscan hpch
        rw [hvalue, Option.bind_some, hbehind _ _ (by omega)] at hsome
        cases hsome
      · rw [fixedField_outside hscan] at hsome
        cases hsome
  · rintro ⟨field, rest, rfl, hsep, hP⟩
    obtain ⟨value, hvalue⟩ := @fixedField_of_scan stray _ _ _ _ _ (h.scan hsep) hpch
    rw [hvalue, Option.bind_some, hk _ _ _ (by omega) h.behind]
    exact hP

variable {g : Int × Nat → List UInt8 → β}

theorem seconds_of_scan {i : Nat} (hscan : scanTo blank msgLen (tempx.bytes.drop pch) = some i)
    (hpch : 2 ≤ pch) :
    ((fixedField stray tempx msgLen blank pch).bind fun sec =>
      (tempx.read sec.2 1).map (g sec)).isSome ↔ pch + i < 254 := by
  obtain ⟨value, hvalue⟩ := @fixedField_of_scan stray _ _ _ _ _ hscan hpch
  rw [hvalue, Option.bind_some, Option.isSome_map, Buffer.read_isSome, Access.inBounds_mk]
  dsimp only
  omega

theorem seconds_missing (hsep : blank ∉ tempx.bytes.drop pch) (hpch : 2 ≤ pch) :
    ((fixedField stray tempx msgLen blank pch).bind fun sec =>
      (tempx.read sec.2 1).map (g sec)).isSome ↔ pch + msgLen < 254 := by
  have hscan := @scan_missing _ msgLen _ _ hsep
  split at hscan
  · exact seconds_of_scan hscan hpch
  · rw [fixedField_outside hscan, Option.bind_none, Option.isSome_none]
    simp only [Bool.false_eq_true, false_iff]
    omega

theorem Ahead.seconds_iff (h : Ahead tempx msgLen pch text) (hpch : 2 ≤ pch)
    (hmsgLen : msgLen ≤ 253) :
    ((fixedField stray tempx msgLen blank pch).bind fun sec =>
      (tempx.read sec.2 1).map (g sec)).isSome ↔ blank ∈ text ∨ pch + msgLen < 254 := by
  have hlen := h.length_eq
  by_cases hmem : blank ∈ text
  · obtain ⟨field, rest, rfl, hsep⟩ := List.eq_append_cons_of_mem hmem
    rw [List.length_append, List.length_cons] at hlen
    rw [seconds_of_scan (h.scan hsep) hpch]
    simp only [hmem, true_or, iff_true]
    omega
  · rw [seconds_missing (h.notMem (by decide) hmem) hpch]
    simp only [hmem, false_or]

end Branch

section Minutes

variable {β : Type*} {stray : List UInt8} {tempx : Buffer 255} {msgLen pch : Nat}
  {text : List UInt8} {g : Int × Nat → Int × Nat → List UInt8 → β}

theorem Ahead.minutes_found {field rest : List UInt8}
    (h : Ahead tempx msgLen pch (field ++ colon :: rest)) (hsep : colon ∉ field)
    (hpch : 2 ≤ pch) (hmsgLen : msgLen ≤ 253) :
    ((fixedField stray tempx msgLen colon pch).bind fun min =>
      (fixedField stray tempx msgLen blank min.2).bind fun sec =>
        (tempx.read sec.2 1).map (g min sec)).isSome ↔
      blank ∈ rest ∨ msgLen - rest.length + msgLen < 254 := by
  have hrest := h.behind.length_eq
  have hstart : msgLen - rest.length = pch + field.length + 1 := by omega
  obtain ⟨value, hvalue⟩ := @fixedField_of_scan stray _ _ _ _ _ (h.scan hsep) hpch
  rw [hvalue, Option.bind_some, hstart]
  exact h.behind.seconds_iff (by omega) hmsgLen

theorem Ahead.minutes_missing (h : Ahead tempx msgLen pch text) (hsep : colon ∉ text)
    (hpch : 2 ≤ pch) :
    ((fixedField stray tempx msgLen colon pch).bind fun min =>
      (fixedField stray tempx msgLen blank min.2).bind fun sec =>
        (tempx.read sec.2 1).map (g min sec)).isSome ↔
      msgLen - text.length + 2 * msgLen < 253 := by
  have hlen := h.length_eq
  have hscan := @scan_missing _ msgLen _ _ (h.notMem (by decide) hsep)
  split at hscan
  · obtain ⟨value, hvalue⟩ := @fixedField_of_scan stray _ _ _ _ _ hscan hpch
    have hblank : blank ∉ tempx.bytes.drop (pch + msgLen + 1) :=
      h.notMem_behind (by decide) (by omega)
    rw [hvalue, Option.bind_some]
    dsimp only
    rw [seconds_missing hblank (by omega)]
    omega
  · rw [fixedField_outside hscan, Option.bind_none, Option.isSome_none]
    simp only [Bool.false_eq_true, false_iff]
    omega

theorem Ahead.minutes_iff (h : Ahead tempx msgLen pch text) (hpch : 2 ≤ pch)
    (hmsgLen : msgLen ≤ 253) :
    ((fixedField stray tempx msgLen colon pch).bind fun min =>
      (fixedField stray tempx msgLen blank min.2).bind fun sec =>
        (tempx.read sec.2 1).map (g min sec)).isSome ↔ TailFits msgLen text := by
  constructor
  · intro hsome
    by_cases hmem : colon ∈ text
    · obtain ⟨field, rest, rfl, hsep⟩ := List.eq_append_cons_of_mem hmem
      exact Or.inl ⟨field, rest, rfl, hsep, (h.minutes_found hsep hpch hmsgLen).mp hsome⟩
    · exact Or.inr ⟨hmem, (h.minutes_missing hmem hpch).mp hsome⟩
  · rintro (⟨field, rest, rfl, hsep, hfits⟩ | ⟨hmem, hfits⟩)
    · exact (h.minutes_found hsep hpch hmsgLen).mpr hfits
    · exact (h.minutes_missing hmem hpch).mpr hfits

end Minutes

section SetTime

variable {mktime : Tm → Tm} {isdst : Int} {stray : List UInt8} {tempx : Buffer 255} {msgLen : Nat}
  {text : List UInt8}

theorem Ahead.setTime_iff (h : Ahead tempx msgLen 0 text) (hlong : 5 < msgLen)
    (hmsgLen : msgLen ≤ 253) :
    (setTime mktime isdst stray tempx msgLen).isSome ↔
      ShortField slash text fun behindMonth =>
        ShortField slash behindMonth fun behindDay =>
          Field blank behindDay fun behindYear =>
            ShortField colon behindYear (TailFits msgLen) := by
  refine h.countedField_iff (by decide) hlong fun mon behindMon _ hmon hmonth => ?_
  refine hmonth.countedField_iff (by decide) hlong fun mday behindMday _ hmday hday => ?_
  refine hday.fixedField_iff (by decide) (by omega) (fun year behindYear _ hyear' hyear => ?_)
    fun year behindYear hbehind => ?_
  · refine hyear.countedField_iff (by decide) hlong fun hour behindHour _ hhour' hhour => ?_
    exact hhour.minutes_iff (by omega) hmsgLen
  · rw [countedField_missing (h.notMem_behind (by decide) hbehind) hlong, Option.bind_none]

theorem countedField_short {pch : Nat} (sep : UInt8) (hshort : msgLen ≤ 5)
    (hpch : pch + msgLen < 255) :
    ∃ value pch', countedField stray tempx msgLen sep pch = some (value, pch') ∧ pch < pch' ∧
      pch' ≤ pch + 6 := by
  obtain ⟨i, hi, hscan⟩ := @scan_room tempx _ _ sep hpch
  obtain ⟨value, hvalue⟩ := @countedField_of_scan stray _ _ _ _ _ hscan (by omega)
  exact ⟨value, pch + i + 1, hvalue, by omega, by omega⟩

theorem fixedField_short {pch : Nat} (sep : UInt8) (hshort : msgLen ≤ 5) (hstart : 2 ≤ pch)
    (hpch : pch + msgLen < 255) :
    ∃ value pch', fixedField stray tempx msgLen sep pch = some (value, pch') ∧ pch < pch' ∧
      pch' ≤ pch + 6 := by
  obtain ⟨i, hi, hscan⟩ := @scan_room tempx _ _ sep hpch
  obtain ⟨value, hvalue⟩ := @fixedField_of_scan stray _ _ _ _ _ hscan hstart
  exact ⟨value, pch + i + 1, hvalue, by omega, by omega⟩

theorem setTime_short (hshort : msgLen ≤ 5) : (setTime mktime isdst stray tempx msgLen).isSome := by
  obtain ⟨mon, p₁, h₁, hlt₁, hle₁⟩ := @countedField_short stray tempx _ 0 slash hshort (by omega)
  obtain ⟨mday, p₂, h₂, hlt₂, hle₂⟩ :=
    @countedField_short stray tempx _ p₁ slash hshort (by omega)
  obtain ⟨year, p₃, h₃, hlt₃, hle₃⟩ :=
    @fixedField_short stray tempx _ p₂ blank hshort (by omega) (by omega)
  obtain ⟨hour, p₄, h₄, hlt₄, hle₄⟩ :=
    @countedField_short stray tempx _ p₃ colon hshort (by omega)
  obtain ⟨min, p₅, h₅, hlt₅, hle₅⟩ :=
    @fixedField_short stray tempx _ p₄ colon hshort (by omega) (by omega)
  obtain ⟨sec, p₆, h₆, hlt₆, hle₆⟩ :=
    @fixedField_short stray tempx _ p₅ blank hshort (by omega) (by omega)
  have hread : (tempx.read p₆ 1).isSome := by
    rw [Buffer.read_isSome, Access.inBounds_mk]
    omega
  simp only [setTime, h₁, h₂, h₃, h₄, h₅, h₆, Option.bind_some, Option.isSome_map, hread]

end SetTime

section Message

variable {mtext : Buffer 300}

theorem hostPayload_length (hlen : hostLen mtext ≤ 253) :
    (hostPayload mtext).length = hostLen mtext := by
  rw [hostPayload, List.length_take, List.length_drop, mtext.bytes_length]
  omega

theorem hostUnpack_payload (hlen : hostLen mtext ≤ 253) :
    ∃ tempx, hostUnpack mtext = some (mtext.get 0, hostLen mtext, tempx) ∧
      Ahead tempx (hostLen mtext) 0 (hostPayload mtext) := by
  have hpayload := hostPayload_length hlen
  have hbytes : mtext.bytes = mtext.get 0 :: mtext.get 1 :: mtext.get 2 ::
      hostPayload mtext ++ (mtext.bytes.drop 3).drop (hostLen mtext) := by
    have hsize := mtext.bytes_length
    simp only [Buffer.get_eq_getD, hostPayload, List.cons_append, List.take_append_drop]
    match hmtext : mtext.bytes, hsize with
    | _ :: _ :: _ :: _, _ => rfl
  obtain ⟨tempx, hunpack, htempx⟩ := hostUnpack_eq hbytes hpayload.symm (by omega)
  rw [hpayload] at hunpack htempx
  refine ⟨tempx, hunpack, ?_, ?_⟩
  · rw [List.drop_zero, htempx]
  · rw [Nat.zero_add, hpayload]

theorem hostUnpack_isSome : (hostUnpack mtext).isSome ↔ hostLen mtext ≤ 253 := by
  constructor
  · intro hsome
    obtain ⟨r, hr⟩ := Option.isSome_iff_exists.mp hsome
    obtain ⟨tempx, -, hwritten⟩ := Option.bind_eq_some_iff.mp hr
    obtain ⟨_, hwrite, -⟩ := Option.map_eq_some_iff.mp hwritten
    have hin := Buffer.write_isSome.mp (Option.isSome_of_eq_some hwrite)
    rw [Access.inBounds_mk, List.length_singleton] at hin
    omega
  · intro hlen
    obtain ⟨tempx, hunpack, -⟩ := hostUnpack_payload hlen
    rw [hunpack, Option.isSome_some]

theorem hostSetTime_isSome (mktime : Tm → Tm) (isdst : Int) (stray : List UInt8)
    (hlen : hostLen mtext ≤ 253) :
    (hostSetTime mktime isdst stray mtext).isSome ↔ TimeFits (hostPayload mtext) := by
  obtain ⟨tempx, hunpack, hahead⟩ := hostUnpack_payload hlen
  rw [hostSetTime, hunpack, Option.bind_some, TimeFits, hostPayload_length hlen]
  by_cases hshort : hostLen mtext ≤ 5
  · simp only [hshort, true_or, iff_true]
    exact setTime_short hshort
  · rw [hahead.setTime_iff (by omega) hlen]
    simp only [hshort, false_or]

end Message

/-- For every message: the unpacking and the `SET_TIME` branch stay in bounds exactly when the
length is at most 253 and a `SET_TIME` payload is a text that fits. -/
theorem hostInBounds_iff (mktime : Tm → Tm) (isdst : Int) (stray : List UInt8)
    (mtext : Buffer 300) :
    HostInBounds mktime isdst stray mtext ↔
      hostLen mtext ≤ 253 ∧
        (mtext.get 0 = CmdTypes.setTime.code → TimeFits (hostPayload mtext)) := by
  rw [HostInBounds, hostUnpack_isSome]
  refine and_congr_right fun hlen => ?_
  rw [hostSetTime_isSome mktime isdst stray hlen]

/-- `1-2-2024 9:05:00 AM`, a date without a `'/'`. -/
def dashedTime : Buffer 300 :=
  .padded 300 [CmdTypes.setTime.code, 19, 1, 49, 45, 50, 45, 50, 48, 50, 52, 32, 57, 58, 48, 53,
    58, 48, 48, 32, 65, 77]

/-- A message of any command with a length of 254. -/
def longMessage : Buffer 300 := .padded 300 [0, 254, 0]

/-- The copy of the month takes 19 bytes; the NUL of the long message goes behind `tempx`. -/
theorem dashed_time_overruns :
    ((hostUnpack dashedTime).isSome ∧ ¬ HostInBounds id 0 [] dashedTime) ∧
      ¬ HostInBounds id 0 [] longMessage := by
  have hlong : ¬ hostLen longMessage ≤ 253 := by decide
  refine ⟨⟨?_, ?_⟩, fun h => hlong (hostUnpack_isSome.mp h.1)⟩
  · decide
  · decide

end TcpIot.Client
