import TcpIot.Config.OutputFile
import TcpIot.Framework.Delimited
import TcpIot.Framework.Printf
import TcpIot.Server.Text

/-!
# The XML export

Every field goes through `sprintf` into an array of 30 bytes, for the label, or of 5 bytes, for a
number. The label is the format of its `sprintf`. The reader takes the elements in order and the
text of a field up to the first closing tag.
-/

namespace TcpIot.Config

open Framework Queue
open Server (ascii decimal)

def firstLine : List UInt8 := ascii "<?xml version=\"1.0\" encoding=\"utf-8\" standalone=\"yes\"?>"

def nl : UInt8 := 0x0A

def tabx : UInt8 := 0x09

def table : List UInt8 := ascii "Table"

def labels : List String :=
  ["O_DATA", "label", "port", "onoff", "input_port", "input_type", "type", "time_delay",
    "time_left", "pulse_time", "reset"]

/-- `<name>`. -/
def openTag (name : List UInt8) : List UInt8 := 60 :: (name ++ [62])

/-- `</name>`. -/
def closeTag (name : List UInt8) : List UInt8 := 60 :: 47 :: (name ++ [62])

def tag (j : Nat) : List UInt8 := ascii (labels.getD j "")

/-- `sprintf` into an array of `size` bytes, and then `strlen` bytes of the array. -/
def printed (size : Nat) (text : List UInt8) : Option (List UInt8) :=
  if text.length < size then some (text.takeWhile (· ≠ 0)) else none

/-- The `switch` on the field. -/
def fieldText (pio : OData) : Nat → Option (List UInt8)
  | 1 => pio.label.cstr.bind fun label => (sprintf label label.length).bind (printed 30)
  | 2 => printed 5 (decimal pio.port.toInt)
  | 3 => printed 5 (decimal pio.onoff.toInt)
  | 4 => printed 5 (decimal pio.inputPort.toInt)
  | 5 => printed 5 (decimal pio.inputType.toInt)
  | 6 => printed 5 (decimal pio.type.toInt)
  | 7 => printed 5 (decimal pio.timeDelay.toInt)
  | 8 => printed 5 (decimal pio.timeLeft.toInt)
  | 9 => printed 5 (decimal pio.pulseTime.toInt)
  | 10 => printed 5 (decimal pio.reset.toInt)
  | _ => some []

/-- The body of the field loop. -/
def field (pio : OData) (j : Nat) : Option (List UInt8) :=
  (fieldText pio j).map fun text =>
    tabx :: tabx :: openTag (tag j) ++ (text ++ (closeTag (tag j) ++ [nl]))

/-- The field loop. -/
def fieldLoop (pio : OData) : List Nat → Option (List UInt8)
  | [] => some []
  | j :: js => (field pio j).bind fun out => (fieldLoop pio js).map (out ++ ·)

/-- The values of `j` in the field loop. -/
def fieldRange : List Nat := List.range' 1 10

/-- The body of the record loop. -/
def element (pio : OData) : Option (List UInt8) :=
  (fieldLoop pio fieldRange).map fun body =>
    tabx :: openTag (tag 0) ++ [nl] ++ (body ++ (tabx :: closeTag (tag 0) ++ [nl]))

/-- The record loop. -/
def recordLoop : List OData → Option (List UInt8)
  | [] => some []
  | pio :: rest => (element pio).bind fun out => (recordLoop rest).map (out ++ ·)

def header : List UInt8 := firstLine ++ nl :: openTag table ++ [nl]

def footer : List UInt8 := closeTag table ++ [nl]

/-- The status, `errmsg` and the file. The array holds `size / sizeof(O_DATA)` records; `creat` is
the text of `strerror` when `open` fails. -/
def oWriteConfigXML (creat : Option String) (currOArray : List OData) :
    Option (Int × String × Option (List UInt8)) :=
  match creat with
  | some err => some (-2, err, none)
  | none =>
    (recordLoop currOArray).map fun body => (0, "Success", some (header ++ (body ++ footer)))

/-- The text of a field and what is behind the field. -/
def readField (j : Nat) (s : List UInt8) : Option (List UInt8 × List UInt8) :=
  (expect (tabx :: tabx :: openTag (tag j)) s).bind fun s =>
  (upTo (closeTag (tag j)) s).bind fun r =>
    (expect [nl] r.2).map fun rest => (r.1, rest)

def readFields : List Nat → List UInt8 → Option (List (List UInt8) × List UInt8)
  | [], s => some ([], s)
  | j :: js, s =>
    (readField j s).bind fun r => (readFields js r.2).map fun q => (r.1 :: q.1, q.2)

def readElement (s : List UInt8) : Option (List (List UInt8) × List UInt8) :=
  (expect (tabx :: openTag (tag 0) ++ [nl]) s).bind fun s =>
  (readFields fieldRange s).bind fun r =>
    (expect (tabx :: closeTag (tag 0) ++ [nl]) r.2).map fun rest => (r.1, rest)

/-- The texts of the fields of every record. -/
def readDocument (doc : List UInt8) : Option (List (List (List UInt8))) :=
  (expect header doc).bind fun s =>
    let r := decodeStream readElement s
    if r.2 = footer then some r.1 else none

/-- The text of the label. -/
def labelText (d : OData) : List UInt8 := d.label.bytes.takeWhile (· ≠ 0)

/-- The number of field `j`. -/
def number (d : OData) (j : Nat) : Int := ((numbers d).getD (j - 2) 0).toInt

/-- What field `j` of the record should read. -/
def content (d : OData) (j : Nat) : List UInt8 :=
  if j = 1 then labelText d else decimal (number d j)

/-- The condition on field `j`. -/
def FieldOk (d : OData) (j : Nat) : Prop :=
  if j = 1 then percent ∉ labelText d ∧ ¬ closeTag (tag 1) <:+: labelText d
  else -999 ≤ number d j ∧ number d j ≤ 9999

theorem tag_unbordered {j : Nat} (hj : j ∈ fieldRange) : Unbordered (closeTag (tag j)) := by
  refine ⟨60, 47 :: (tag j ++ [62]), rfl, ?_⟩
  have hall : ∀ j ∈ fieldRange, (60 : UInt8) ∉ 47 :: (tag j ++ [62]) := by decide
  exact hall j hj

private theorem printed_decimal {n : Int} :
    printed 5 (decimal n) = if -999 ≤ n ∧ n ≤ 9999 then some (decimal n) else none := by
  have hnul : (0 : UInt8) ∉ decimal n := by
    intro h
    rcases Server.mem_decimal h with h | h
    · cases h
    · exact absurd h.1 (by decide)
  have hfits : (decimal n).length < 5 ↔ -999 ≤ n ∧ n ≤ 9999 := by
    have hbound := @Server.decimal_length_le 3 (by decide) n
    omega
  rw [printed, Buffer.takeWhile_noNul hnul]
  exact if_congr hfits rfl rfl

private theorem fieldText_number (d : OData) {j : Nat} (hj : j ∈ fieldRange) (hne : j ≠ 1) :
    fieldText d j =
      if -999 ≤ number d j ∧ number d j ≤ 9999 then some (decimal (number d j)) else none := by
  rw [← printed_decimal]
  have hcases : j = 1 ∨ j = 2 ∨ j = 3 ∨ j = 4 ∨ j = 5 ∨ j = 6 ∨ j = 7 ∨ j = 8 ∨ j = 9 ∨ j = 10 := by
    rw [fieldRange, List.mem_range'_1] at hj
    omega
  rcases hcases with rfl | rfl | rfl | rfl | rfl | rfl | rfl | rfl | rfl | rfl
  · exact absurd rfl hne
  all_goals rfl

theorem fieldText_ok {d : OData} (hlabel : 0 ∈ d.label.bytes) {j : Nat} (hj : j ∈ fieldRange)
    (hok : FieldOk d j) :
    fieldText d j = some (content d j) ∧ ¬ closeTag (tag j) <:+: content d j := by
  by_cases hone : j = 1
  · subst hone
    rw [FieldOk, if_pos rfl] at hok
    rw [content, if_pos rfl]
    refine ⟨?_, hok.2⟩
    have hcstr : d.label.cstr = some (labelText d) := by
      rw [Buffer.cstr, if_pos hlabel]
      rfl
    have hfits : (labelText d).length < 30 := Buffer.nul_mem_iff.mp hlabel
    have hnul : (0 : UInt8) ∉ labelText d := fun h => by
      simpa using List.mem_takeWhile_imp h
    rw [fieldText, hcstr, Option.bind_some, sprintf_literal _ hok.1, Option.bind_some, printed,
      if_pos hfits, Buffer.takeWhile_noNul hnul]
  · rw [FieldOk, if_neg hone] at hok
    rw [content, if_neg hone, fieldText_number d hj hone, if_pos hok]
    refine ⟨rfl, fun hin => ?_⟩
    have hopen : (60 : UInt8) ∈ decimal (number d j) := hin.subset List.mem_cons_self
    rcases Server.mem_decimal hopen with h | h
    · cases h
    · exact absurd h.2 (by decide)

theorem readField_ok {d : OData} (hlabel : 0 ∈ d.label.bytes) {j : Nat} (hj : j ∈ fieldRange)
    (hok : FieldOk d j) :
    ∃ out, field d j = some out ∧ ∀ tail, readField j (out ++ tail) = some (content d j, tail) := by
  obtain ⟨htext, hclose⟩ := fieldText_ok hlabel hj hok
  refine ⟨_, by rw [field, htext, Option.map_some], fun tail => ?_⟩
  rw [readField, List.append_assoc, List.append_assoc, List.append_assoc, expect_append,
    Option.bind_some, upTo_append (tag_unbordered hj) hclose, Option.bind_some, expect_append,
    Option.map_some]

/-- What is read of a label that was printed from another text is not that text: the percent
signs that `sprintf` took out are missing. -/
private theorem fieldText_label {d : OData} {text read left tail : List UInt8}
    (htext : fieldText d 1 = some text)
    (hread : upTo (closeTag (tag 1)) (text ++ (closeTag (tag 1) ++ tail)) = some (read, left))
    (hsame : read = labelText d) : FieldOk d 1 := by
  obtain ⟨label, hlabel, hprint⟩ := Option.bind_eq_some_iff.mp htext
  obtain ⟨out, hout, hstore⟩ := Option.bind_eq_some_iff.mp hprint
  have hnul : 0 ∈ d.label.bytes := Buffer.cstr_isSome.mp (by rw [hlabel]; rfl)
  have hlabelText : label = labelText d := by
    rw [Buffer.cstr, if_pos hnul] at hlabel
    exact (Option.some.inj hlabel).symm
  have hshort : label.length < 30 := by
    rw [hlabelText]
    exact Buffer.nul_mem_iff.mp hnul
  have hstored : text <+: out := by
    rw [printed] at hstore
    split at hstore
    · cases hstore
      exact List.takeWhile_prefix _
    · cases hstore
  obtain ⟨hinit, hwhole⟩ := upTo_prefix (tag_unbordered (by decide)) hread
  rw [hsame, ← hlabelText] at hinit hwhole
  have hpercent : percent ∉ label := by
    intro hmem
    have harg : UInt8.ofNat label.length ≠ percent := by
      intro h
      have hvalue := congrArg UInt8.toNat h
      rw [UInt8.toNat_ofNat', show percent.toNat = 37 from rfl] at hvalue
      omega
    have hlost := sprintf_percents harg hout hmem
    have hkept := (hinit.trans hstored).sublist.count_le percent
    exact absurd hlost hkept.not_gt
  rw [sprintf_literal _ hpercent] at hout
  cases hout
  have hall : label = text := hinit.eq_of_length_le hstored.length_le
  rw [FieldOk, if_pos rfl, ← hlabelText]
  exact ⟨hpercent, hall ▸ hwhole hall⟩

theorem readField_only {d : OData} {j : Nat} (hj : j ∈ fieldRange) {out tail left : List UInt8}
    (hout : field d j = some out) (hread : readField j (out ++ tail) = some (content d j, left)) :
    FieldOk d j := by
  obtain ⟨text, htext, rfl⟩ := Option.map_eq_some_iff.mp hout
  by_cases hone : j = 1
  · subst hone
    rw [readField, List.append_assoc, List.append_assoc, List.append_assoc, expect_append,
      Option.bind_some] at hread
    obtain ⟨⟨read, rest⟩, hupTo, hnl⟩ := Option.bind_eq_some_iff.mp hread
    obtain ⟨rest', -, heq⟩ := Option.map_eq_some_iff.mp hnl
    exact fieldText_label htext hupTo (congrArg Prod.fst heq)
  · rw [fieldText_number d hj hone] at htext
    rw [FieldOk, if_neg hone]
    split at htext
    · rename_i hok
      exact hok
    · cases htext

/-- The texts that the element of a record should hold. -/
def contents (d : OData) : List (List UInt8) :=
  labelText d :: (numbers d).map fun n => decimal n.toInt

theorem contents_eq (d : OData) : fieldRange.map (content d) = contents d := rfl

section Records

variable {d : OData}

private theorem readFields_ok (hlabel : 0 ∈ d.label.bytes) {js : List Nat}
    (hjs : ∀ j ∈ js, j ∈ fieldRange) (hok : ∀ j ∈ js, FieldOk d j) :
    ∃ body, fieldLoop d js = some body ∧
      ∀ tail, readFields js (body ++ tail) = some (js.map (content d), tail) := by
  induction js with
  | nil => exact ⟨[], rfl, fun _ => rfl⟩
  | cons j js ih =>
    obtain ⟨hj, hjs⟩ := List.forall_mem_cons.mp hjs
    obtain ⟨hfirst, hrest⟩ := List.forall_mem_cons.mp hok
    obtain ⟨out, hout, hread⟩ := readField_ok hlabel hj hfirst
    obtain ⟨body, hbody, hreads⟩ := ih hjs hrest
    refine ⟨out ++ body, by rw [fieldLoop, hout, Option.bind_some, hbody, Option.map_some],
      fun tail => ?_⟩
    rw [List.append_assoc, readFields, hread, Option.bind_some, hreads, Option.map_some,
      List.map_cons]

private theorem readFields_only (hlabel : 0 ∈ d.label.bytes) {js : List Nat}
    (hjs : ∀ j ∈ js, j ∈ fieldRange) {body tail left : List UInt8}
    (hbody : fieldLoop d js = some body)
    (hread : readFields js (body ++ tail) = some (js.map (content d), left)) :
    ∀ j ∈ js, FieldOk d j := by
  induction js generalizing body with
  | nil => exact fun j hj => by cases hj
  | cons j js ih =>
    obtain ⟨hj, hjs⟩ := List.forall_mem_cons.mp hjs
    obtain ⟨out, hout, hmap⟩ := Option.bind_eq_some_iff.mp hbody
    obtain ⟨rest, hrest, rfl⟩ := Option.map_eq_some_iff.mp hmap
    rw [List.append_assoc, readFields] at hread
    obtain ⟨⟨text, s⟩, hfield, hothers⟩ := Option.bind_eq_some_iff.mp hread
    obtain ⟨q, hq, heq⟩ := Option.map_eq_some_iff.mp hothers
    obtain ⟨htext, htexts⟩ := List.cons.inj (congrArg Prod.fst heq)
    have hleft : q.2 = left := congrArg Prod.snd heq
    obtain rfl : text = content d j := htext
    have hfirst : FieldOk d j := readField_only hj hout hfield
    obtain ⟨out', hout', hback⟩ := readField_ok hlabel hj hfirst
    cases hout.symm.trans hout'
    rw [hback] at hfield
    cases hfield
    have hq' : readFields js (rest ++ tail) = some (js.map (content d), left) := by
      rw [hq]
      exact congrArg some (Prod.ext htexts hleft)
    exact List.forall_mem_cons.mpr ⟨hfirst, ih hjs hrest hq'⟩

/-- The label holds neither a percent sign nor its closing tag, and no number needs more than four
characters. -/
def Printable (d : OData) : Prop := ∀ j ∈ fieldRange, FieldOk d j

theorem readElement_ok (hlabel : 0 ∈ d.label.bytes) (hok : Printable d) :
    ∃ out, element d = some out ∧ ∀ tail, readElement (out ++ tail) = some (contents d, tail) := by
  obtain ⟨body, hbody, hread⟩ := readFields_ok hlabel (fun _ => id) hok
  refine ⟨_, by rw [element, hbody, Option.map_some], fun tail => ?_⟩
  rw [readElement, List.append_assoc, expect_append, Option.bind_some, List.append_assoc, hread,
    Option.bind_some, expect_append, Option.map_some, contents_eq]

theorem readElement_only (hlabel : 0 ∈ d.label.bytes) {out tail left : List UInt8}
    (hout : element d = some out) (hread : readElement (out ++ tail) = some (contents d, left)) :
    Printable d := by
  obtain ⟨body, hbody, rfl⟩ := Option.map_eq_some_iff.mp hout
  rw [readElement, List.append_assoc, expect_append, Option.bind_some, List.append_assoc] at hread
  obtain ⟨⟨texts, rest⟩, hfields, hclose⟩ := Option.bind_eq_some_iff.mp hread
  obtain ⟨rest', -, heq⟩ := Option.map_eq_some_iff.mp hclose
  have htexts : texts = fieldRange.map (content d) := congrArg Prod.fst heq
  exact readFields_only hlabel (fun _ => id) hbody (htexts ▸ hfields)

end Records

private theorem readField_length {j : Nat} {s text rest : List UInt8}
    (h : readField j s = some (text, rest)) : rest.length ≤ s.length := by
  obtain ⟨s', hs', h⟩ := Option.bind_eq_some_iff.mp h
  obtain ⟨r, hr, h⟩ := Option.bind_eq_some_iff.mp h
  obtain ⟨rest', hrest', heq⟩ := Option.map_eq_some_iff.mp h
  cases heq
  rw [expect_eq_some hs', upTo_eq_some hr, expect_eq_some hrest']
  simp only [List.length_append]
  omega

private theorem readFields_length {js : List Nat} {s rest : List UInt8}
    {texts : List (List UInt8)} (h : readFields js s = some (texts, rest)) :
    rest.length ≤ s.length := by
  induction js generalizing s texts with
  | nil =>
    cases h
    exact le_rfl
  | cons j js ih =>
    obtain ⟨r, hr, h⟩ := Option.bind_eq_some_iff.mp h
    obtain ⟨q, hq, heq⟩ := Option.map_eq_some_iff.mp h
    cases heq
    exact (ih hq).trans (readField_length hr)

theorem readElement_shrinking : Shrinking readElement := by
  intro s texts rest h
  obtain ⟨s', hs', h⟩ := Option.bind_eq_some_iff.mp h
  obtain ⟨r, hr, h⟩ := Option.bind_eq_some_iff.mp h
  obtain ⟨rest', hrest', heq⟩ := Option.map_eq_some_iff.mp h
  cases heq
  have hfields := readFields_length hr
  rw [expect_eq_some hrest', List.length_append] at hfields
  rw [expect_eq_some hs', List.length_append]
  have hopen : 0 < (tabx :: openTag (tag 0) ++ [nl]).length := Nat.succ_pos _
  omega

/-- The bytes of an element that is written. -/
private def elementBytes (d : OData) : List UInt8 := (element d).getD []

private theorem recordLoop_eq_some {ds : List OData} {body : List UInt8} :
    recordLoop ds = some body ↔
      (∀ d ∈ ds, (element d).isSome) ∧ body = ds.flatMap elementBytes := by
  induction ds generalizing body with
  | nil =>
    rw [recordLoop, Option.some_inj]
    exact ⟨fun h => ⟨List.forall_mem_nil _, h.symm⟩, fun h => h.2.symm⟩
  | cons d ds ih =>
    rw [recordLoop, List.forall_mem_cons, List.flatMap_cons, elementBytes]
    cases element d with
    | none => simp
    | some out =>
      rw [Option.bind_some, Option.map_eq_some_iff, Option.getD_some]
      constructor
      · rintro ⟨rest, hrest, rfl⟩
        obtain ⟨hall, rfl⟩ := ih.mp hrest
        exact ⟨⟨rfl, hall⟩, rfl⟩
      · rintro ⟨⟨-, hall⟩, rfl⟩
        exact ⟨_, ih.mpr ⟨hall, rfl⟩, rfl⟩

private theorem decode_records_iff {ds : List OData} (hlabels : ∀ d ∈ ds, 0 ∈ d.label.bytes)
    (hwritten : ∀ d ∈ ds, (element d).isSome) :
    decodeStream readElement (ds.flatMap elementBytes ++ footer) = (ds.map contents, footer) ↔
      ∀ d ∈ ds, Printable d := by
  refine decodeStream_flatMap_iff readElement_shrinking rfl (fun d hd hok tail => ?_)
    fun d hd tail left hread => ?_
  · obtain ⟨out, hout, hback⟩ := readElement_ok (hlabels d hd) hok
    rw [elementBytes, hout, Option.getD_some, hback]
  · obtain ⟨out, hout⟩ := Option.isSome_iff_exists.mp (hwritten d hd)
    rw [elementBytes, hout, Option.getD_some] at hread
    exact readElement_only (hlabels d hd) hout hread

private theorem readDocument_iff {body : List UInt8} {texts : List (List (List UInt8))} :
    readDocument (header ++ (body ++ footer)) = some texts ↔
      decodeStream readElement (body ++ footer) = (texts, footer) := by
  rw [readDocument, expect_append, Option.bind_some]
  change (if (decodeStream readElement (body ++ footer)).2 = footer then
    some (decodeStream readElement (body ++ footer)).1 else none) = some texts ↔ _
  constructor
  · intro h
    split at h
    · rename_i hfooter
      exact Prod.ext (Option.some.inj h) hfooter
    · cases h
  · intro h
    rw [h, if_pos rfl]

/-- The document is written, and what is read of it are the contents of the records. -/
def ExportLaw (records : List OData) : Prop :=
  ∃ doc, oWriteConfigXML none records = some (0, "Success", some doc) ∧
    readDocument doc = some (records.map contents)

/-- For every array of records with terminated labels. -/
theorem export_faithful_iff (records : List OData)
    (hlabels : ∀ d ∈ records, 0 ∈ d.label.bytes) :
    ExportLaw records ↔ ∀ d ∈ records, Printable d := by
  constructor
  · rintro ⟨doc, hwrite, hdoc⟩
    obtain ⟨body, hbody, heq⟩ := Option.map_eq_some_iff.mp hwrite
    cases heq
    obtain ⟨hwritten, rfl⟩ := recordLoop_eq_some.mp hbody
    exact (decode_records_iff hlabels hwritten).mp (readDocument_iff.mp hdoc)
  · intro hok
    have hwritten (d : OData) (hd : d ∈ records) : (element d).isSome := by
      obtain ⟨out, hout, -⟩ := readElement_ok (hlabels d hd) (hok d hd)
      rw [hout]
      rfl
    have hbody := recordLoop_eq_some.mpr ⟨hwritten, rfl⟩
    refine ⟨_, by rw [oWriteConfigXML, hbody, Option.map_some], ?_⟩
    exact readDocument_iff.mpr ((decode_records_iff hlabels hwritten).mpr hok)

theorem export_faithful_iff_lamp :
    ExportLaw [lampOutput, offOutput] ↔ ∀ d ∈ [lampOutput, offOutput], Printable d :=
  export_faithful_iff [lampOutput, offOutput] (by decide)

/-- An output with a delay of five digits. -/
def slowOutput : OData := { offOutput with timeDelay := 10000 }

/-- An output labelled `50%%`. -/
def percentOutput : OData := { offOutput with label := .padded 30 (ascii "50%%") }

/-- Five digits and the NUL are stored into five bytes. Of two percent signs one is read back. -/
theorem export_not_faithful :
    oWriteConfigXML none [slowOutput] = none ∧ ¬ ExportLaw [slowOutput] ∧
    (((oWriteConfigXML none [percentOutput]).bind (·.2.2)).bind readDocument).map
      (·.map List.head?) = some [some (ascii "50%")] ∧ ¬ ExportLaw [percentOutput] := by
  have hslow : oWriteConfigXML none [slowOutput] = none := by decide +kernel
  have hpercent : (((oWriteConfigXML none [percentOutput]).bind (·.2.2)).bind readDocument).map
      (·.map List.head?) = some [some (ascii "50%")] := by
    decide +kernel
  refine ⟨hslow, ?_, hpercent, ?_⟩
  · rintro ⟨doc, hwrite, -⟩
    cases hslow.symm.trans hwrite
  · rintro ⟨doc, hwrite, hdoc⟩
    rw [hwrite, Option.bind_some, Option.bind_some, hdoc] at hpercent
    exact absurd hpercent (by decide +kernel)

end TcpIot.Config
