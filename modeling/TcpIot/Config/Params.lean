import TcpIot.Framework.Layout

/-!
# The parameter file

`LoadParams` reads the parameters into the caller's struct before it has seen the end marker, and
returns the address of a local. A missing file is created from the address of the pointer to the
struct, not from the struct.
-/

namespace TcpIot.Config

open Framework

/-- `sizeof(PARAM_STRUCT)`: fourteen `int`s without padding. -/
def paramSize : Nat := 56

/-- `PASSWORD_SIZE`. -/
def passwordSize : Nat := 10

/-- A `PARAM_STRUCT` as it lies in memory; both calls copy it byte by byte. -/
abbrev ParamStruct := Buffer paramSize

def beginMarker : UInt8 := 0xAA

def endMarker : UInt8 := 0x55

/-- The bytes of the stack from `&ps` on. They start with the pointer `ps`, which is not `NULL`. -/
structure Frame where
  bytes : Buffer paramSize
  ne_zero : bytes ≠ .zero paramSize

/-- What the two calls write into a file. -/
def paramsFile (ps : ParamStruct) (password : Buffer passwordSize) : List UInt8 :=
  beginMarker :: (ps.bytes ++ (password.bytes ++ [endMarker]))

/-- The status, `errmsg` and the file; `creat` is the text of `strerror` when `open` fails. -/
def writeParams (creat : Option String) (ps : ParamStruct) (password : Buffer passwordSize)
    (file : Option (List UInt8)) : Int × String × Option (List UInt8) :=
  match creat with
  | some err => (-2, err, file)
  | none => (0, "Success", some (paramsFile ps password))

/-- What `LoadParams` leaves: whether the pointer it returns is other than `NULL`, `*ps`, `errmsg`
and the file. -/
structure Loaded where
  returned : Bool
  ps : ParamStruct
  errmsg : String
  file : Option (List UInt8)

/-- `id` after a `read` of one byte. -/
def readId (id : UInt8) (src : List UInt8) : UInt8 := src.headD id

/-- `file` is the content, when there is a file; `id` is what the local of that name holds at the
start; `frame` is what `&ps` points to. The password is read into the local `tpassword`, whose
address is returned: `dangling` says whether the compiler lets such a pointer differ from `NULL`
behind the return. gcc puts `NULL` in its place. -/
def loadParams (dangling : Bool) (file : Option (List UInt8)) (creat : Option String) (id : UInt8)
    (frame : Frame) (ps : ParamStruct) (password : Buffer passwordSize) : Loaded :=
  match file with
  | none =>
    ⟨false, .zero paramSize, "created new config file",
      (writeParams creat frame.bytes password none).2.2⟩
  | some content =>
    let id := readId id content
    if id ≠ beginMarker then ⟨false, ps, "bad file marker at begin", some content⟩
    else
      let rest := content.tail
      let ps := ps.overwrite rest
      let rest := rest.drop paramSize
      let rest := rest.drop passwordSize
      if readId id rest ≠ endMarker then ⟨false, ps, "bad file marker at end", some content⟩
      else ⟨dangling, ps, "Success (loaded config file)", some content⟩

/-- `LoadParams` reports success: a pointer, and the message. -/
def Loaded.Succeeded (r : Loaded) : Prop :=
  r.returned = true ∧ r.errmsg = "Success (loaded config file)"

/-- `LoadParams` reports a bad marker. -/
def Loaded.BadMarker (r : Loaded) : Prop :=
  r.errmsg = "bad file marker at begin" ∨ r.errmsg = "bad file marker at end"

/-- The markers with parameters and a password between them, followed by anything. -/
def WellFormed (content : List UInt8) : Prop :=
  ∃ (ps : ParamStruct) (password : Buffer passwordSize) (rest : List UInt8),
    content = paramsFile ps password ++ rest

theorem wellFormed_cons_iff {id : UInt8} {rest : List UInt8} :
    WellFormed (id :: rest) ↔
      id = beginMarker ∧ (rest.drop (paramSize + passwordSize)).head? = some endMarker := by
  constructor
  · rintro ⟨ps, password, tail, hcontent⟩
    rw [paramsFile, List.cons_append, List.append_assoc, List.append_assoc] at hcontent
    obtain ⟨rfl, rfl⟩ := List.cons.inj hcontent
    refine ⟨rfl, ?_⟩
    rw [← List.drop_drop, List.drop_left' ps.bytes_length,
      List.drop_left' password.bytes_length]
    rfl
  · rintro ⟨rfl, hend⟩
    have hlong : paramSize + passwordSize < rest.length := by
      by_contra hshort
      rw [List.drop_eq_nil_of_le (not_lt.mp hshort)] at hend
      cases hend
    obtain ⟨tail, htail⟩ : ∃ tail, rest.drop (paramSize + passwordSize) = endMarker :: tail := by
      cases hdrop : rest.drop (paramSize + passwordSize) with
      | nil =>
        rw [hdrop] at hend
        cases hend
      | cons c tail =>
        rw [hdrop] at hend
        exact ⟨tail, by rw [Option.some.inj hend]⟩
    refine ⟨⟨rest.take paramSize, ?_⟩, ⟨(rest.drop paramSize).take passwordSize, ?_⟩, tail, ?_⟩
    · rw [List.length_take]
      omega
    · rw [List.length_take, List.length_drop]
      omega
    · rw [paramsFile, List.cons_append, List.append_assoc, List.append_assoc]
      rw [← List.drop_drop] at htail
      rw [List.singleton_append, ← htail, List.take_append_drop, List.take_append_drop]

section Calls

variable {dangling : Bool} {creat : Option String} {id : UInt8} {frame : Frame}
  {ps : ParamStruct} {password : Buffer passwordSize}

theorem loadParams_begin {content : List UInt8} (h : readId id content ≠ beginMarker) :
    loadParams dangling (some content) creat id frame ps password =
      ⟨false, ps, "bad file marker at begin", some content⟩ := by
  simp only [loadParams, if_pos h]

private theorem readId_end {rest : List UInt8} :
    readId beginMarker rest = endMarker ↔ rest.head? = some endMarker := by
  cases rest with
  | nil => decide
  | cons c rest => simp [readId]

theorem loadParams_behind {content : List UInt8} (h : readId id content = beginMarker) :
    loadParams dangling (some content) creat id frame ps password =
      if (content.tail.drop (paramSize + passwordSize)).head? = some endMarker then
        ⟨dangling, ps.overwrite content.tail, "Success (loaded config file)", some content⟩
      else ⟨false, ps.overwrite content.tail, "bad file marker at end", some content⟩ := by
  simp only [loadParams, h, ne_eq, not_true_eq_false, if_false, List.drop_drop, readId_end]
  exact ite_not _ _ _

private theorem wellFormed_iff {content : List UInt8} (h : readId id content = beginMarker) :
    WellFormed content ↔
      (content.tail.drop (paramSize + passwordSize)).head? = some endMarker := by
  cases content with
  | nil =>
    refine iff_of_false ?_ (by simp)
    rintro ⟨_, _, _, hcontent⟩
    cases hcontent
  | cons id rest =>
    rw [wellFormed_cons_iff]
    exact and_iff_right h

private theorem WellFormed.readId {content : List UInt8} (h : WellFormed content) (id : UInt8) :
    readId id content = beginMarker := by
  obtain ⟨_, _, _, rfl⟩ := h
  rfl

theorem succeeded_iff (content : List UInt8) :
    (loadParams dangling (some content) creat id frame ps password).Succeeded ↔
      dangling = true ∧ WellFormed content := by
  by_cases hid : readId id content = beginMarker
  · rw [loadParams_behind hid, wellFormed_iff hid]
    split
    · rename_i hmark
      exact ⟨fun h => ⟨h.1, hmark⟩, fun h => ⟨h.1, rfl⟩⟩
    · rename_i hmark
      exact iff_of_false (fun h => Bool.noConfusion h.1) fun h => hmark h.2
  · rw [loadParams_begin hid]
    exact iff_of_false (fun h => Bool.noConfusion h.1) fun h => hid (h.2.readId _)

theorem badMarker_iff (content : List UInt8) :
    (loadParams dangling (some content) creat id frame ps password).BadMarker ↔
      ¬ WellFormed content := by
  by_cases hid : readId id content = beginMarker
  · rw [loadParams_behind hid, wellFormed_iff hid]
    split
    · rename_i hmark
      exact iff_of_false (by simp [Loaded.BadMarker]) (not_not.mpr hmark)
    · rename_i hmark
      exact iff_of_true (.inr rfl) hmark
  · rw [loadParams_begin hid]
    exact iff_of_true (.inl rfl) fun h => hid (h.readId _)

theorem loadParams_paramsFile (ps' : ParamStruct) (password' : Buffer passwordSize)
    (rest : List UInt8) :
    loadParams dangling (some (paramsFile ps' password' ++ rest)) creat id frame ps password =
      ⟨dangling, ps', "Success (loaded config file)",
        some (paramsFile ps' password' ++ rest)⟩ := by
  have hformed : WellFormed (paramsFile ps' password' ++ rest) := ⟨ps', password', rest, rfl⟩
  have htail : (paramsFile ps' password' ++ rest).tail =
      ps'.bytes ++ (password'.bytes ++ (endMarker :: rest)) := by
    simp [paramsFile]
  have hps : ps.overwrite (ps'.bytes ++ (password'.bytes ++ (endMarker :: rest))) = ps' := by
    ext1
    rw [Buffer.overwrite_full _ (by simp), List.take_left' ps'.bytes_length]
  have hid : readId id (paramsFile ps' password' ++ rest) = beginMarker := hformed.readId _
  rw [loadParams_behind hid, if_pos ((wellFormed_iff hid).mp hformed), htail, hps]

end Calls

section Laws

/-- `WriteParams` and `LoadParams` at one input: what is written is read back, exactly the
well-formed files are accepted, a bad marker leaves the parameters, and a file that was created
gives back the cleared parameters. -/
structure ParamsLaw (dangling : Bool) (file : Option (List UInt8)) (creat : Option String)
    (id : UInt8) (frame : Frame) (ps : ParamStruct) (password : Buffer passwordSize) : Prop where
  roundTrip : ∀ ps' password', ∃ content,
    writeParams none ps' password' file = (0, "Success", some content) ∧
      (loadParams dangling (some content) creat id frame ps password).Succeeded ∧
      (loadParams dangling (some content) creat id frame ps password).ps = ps'
  accepts : ∀ content, file = some content →
    ((loadParams dangling file creat id frame ps password).Succeeded ↔ WellFormed content)
  keeps : (loadParams dangling file creat id frame ps password).BadMarker →
    (loadParams dangling file creat id frame ps password).ps = ps
  creates : file = none →
    (loadParams dangling none creat id frame ps password).ps = .zero paramSize ∧
    ∀ content, (loadParams dangling none creat id frame ps password).file = some content →
      ∀ creat' id' frame' ps' password',
        (loadParams dangling (some content) creat' id' frame' ps' password').Succeeded ∧
        (loadParams dangling (some content) creat' id' frame' ps' password').ps = .zero paramSize

/-- The condition on the file: one that is there is well formed, or fails at the first marker, or
holds nothing that differs from the parameters; one that is not there cannot be created. -/
def ParamsSafe (creat : Option String) (id : UInt8) (ps : ParamStruct) :
    Option (List UInt8) → Prop
  | some content => WellFormed content ∨ readId id content ≠ beginMarker ∨
      content.tail.take paramSize <+: ps.bytes
  | none => creat.isSome

variable {dangling : Bool} {creat : Option String} {id : UInt8} {frame : Frame}
  {ps : ParamStruct} {password : Buffer passwordSize}

private theorem keeps_iff (content : List UInt8) :
    ((loadParams dangling (some content) creat id frame ps password).BadMarker →
      (loadParams dangling (some content) creat id frame ps password).ps = ps) ↔
      ParamsSafe creat id ps (some content) := by
  rw [badMarker_iff, ParamsSafe, ← or_iff_not_imp_left]
  refine or_congr Iff.rfl ?_
  by_cases hid : readId id content = beginMarker
  · rw [loadParams_behind hid, apply_ite Loaded.ps, ite_self, Buffer.overwrite_eq_self]
    exact ⟨.inr, fun h => h.resolve_left (not_not.mpr hid)⟩
  · rw [loadParams_begin hid]
    exact iff_of_true rfl (.inl hid)

/-- Only a pointer that outlives its local tells success from failure. -/
private theorem roundTrip_iff (file : Option (List UInt8)) :
    (∀ ps' password', ∃ content,
      writeParams none ps' password' file = (0, "Success", some content) ∧
        (loadParams dangling (some content) creat id frame ps password).Succeeded ∧
        (loadParams dangling (some content) creat id frame ps password).ps = ps') ↔
      dangling = true := by
  have hload (ps' : ParamStruct) (password' : Buffer passwordSize) :
      loadParams dangling (some (paramsFile ps' password')) creat id frame ps password =
        ⟨dangling, ps', "Success (loaded config file)", some (paramsFile ps' password')⟩ := by
    have hfile := @loadParams_paramsFile dangling creat id frame ps password ps' password' []
    rwa [List.append_nil] at hfile
  constructor
  · intro hround
    obtain ⟨content, hwrite, hsucceeded, -⟩ := hround ps password
    cases hwrite
    rw [hload] at hsucceeded
    exact hsucceeded.1
  · intro hdangling ps' password'
    refine ⟨paramsFile ps' password', rfl, ?_⟩
    rw [hload]
    exact ⟨⟨hdangling, rfl⟩, rfl⟩

/-- For every compiler, for every file or none, whether or not it can be created, and whatever
the locals and the stack of the call hold. -/
theorem params_law_iff (dangling : Bool) (file : Option (List UInt8)) (creat : Option String)
    (id : UInt8) (frame : Frame) (ps : ParamStruct) (password : Buffer passwordSize) :
    ParamsLaw dangling file creat id frame ps password ↔
      dangling = true ∧ ParamsSafe creat id ps file := by
  rw [← @roundTrip_iff dangling creat id frame ps password file]
  cases file with
  | some content =>
    rw [← @keeps_iff dangling creat id frame ps password]
    constructor
    · exact fun hlaw => ⟨hlaw.roundTrip, hlaw.keeps⟩
    · rintro ⟨hround, hkeeps⟩
      refine ⟨hround, ?_, hkeeps, fun h => by cases h⟩
      rintro _ ⟨⟩
      rw [succeeded_iff]
      exact and_iff_right ((roundTrip_iff _).mp hround)
  | none =>
    have hcreated (creat : Option String) :
        (loadParams dangling none creat id frame ps password).file =
          if creat.isSome then none else some (paramsFile frame.bytes password) := by
      cases creat <;> rfl
    constructor
    · intro hlaw
      refine ⟨hlaw.roundTrip, ?_⟩
      by_contra hok
      have hload :=
        @loadParams_paramsFile dangling none id frame ps password frame.bytes password []
      rw [List.append_nil] at hload
      have hzero := ((hlaw.creates rfl).2 (paramsFile frame.bytes password)
        ((hcreated creat).trans (if_neg hok)) none id frame ps password).2
      rw [hload] at hzero
      exact frame.ne_zero hzero
    · rintro ⟨hround, hok⟩
      have hnone : (loadParams dangling none creat id frame ps password).file = none :=
        (hcreated creat).trans (if_pos hok)
      refine ⟨hround, nofun, ?_, fun _ => ⟨rfl, fun content h => ?_⟩⟩
      · rintro (h | h) <;> exact absurd h (by simp [loadParams])
      · cases hnone.symm.trans h

end Laws

/-- A caller that holds ones, and a stack that starts with a pointer. -/
def onesParams : ParamStruct := ⟨List.replicate 56 1, rfl⟩

def stackFrame : Frame := ⟨⟨0x10 :: List.replicate 55 0, rfl⟩, by decide⟩

def emptyPassword : Buffer passwordSize := .zero passwordSize

/-- With gcc a file that was just written loads with the message of success and the pointer of a
failure. With a compiler that keeps the pointer, too, a file that ends behind the first parameter
is reported as a bad marker after the parameter was replaced, and a file that is created hands
the stack on as parameters. -/
theorem parameters_replaced :
    ((loadParams false (some (paramsFile onesParams emptyPassword)) none 0 stackFrame onesParams
        emptyPassword).errmsg = "Success (loaded config file)" ∧
      (loadParams false (some (paramsFile onesParams emptyPassword)) none 0 stackFrame onesParams
        emptyPassword).returned = false ∧
      ¬ ParamsLaw false (some (paramsFile onesParams emptyPassword)) none 0 stackFrame onesParams
        emptyPassword) ∧
    ((loadParams true (some [beginMarker, 7, 0, 0, 0]) none 0 stackFrame onesParams
        emptyPassword).errmsg = "bad file marker at end" ∧
      (loadParams true (some [beginMarker, 7, 0, 0, 0]) none 0 stackFrame onesParams
        emptyPassword).ps.bytes = [7, 0, 0, 0] ++ List.replicate 52 1 ∧
      ¬ ParamsLaw true (some [beginMarker, 7, 0, 0, 0]) none 0 stackFrame onesParams
        emptyPassword) ∧
    (loadParams true none none 0 stackFrame onesParams emptyPassword).ps = .zero paramSize ∧
      (loadParams true (loadParams true none none 0 stackFrame onesParams emptyPassword).file
        none 0 stackFrame onesParams emptyPassword).ps = stackFrame.bytes ∧
      ¬ ParamsLaw true none none 0 stackFrame onesParams emptyPassword := by
  refine ⟨⟨by decide, by decide, fun hlaw => ?_⟩, ⟨by decide, by decide, fun hlaw => ?_⟩, rfl,
    by decide, fun hlaw => ?_⟩
  · exact Bool.false_ne_true ((roundTrip_iff _).mp hlaw.roundTrip)
  · exact absurd (hlaw.keeps (.inr (by decide))) (by decide)
  · have hzero := ((hlaw.creates rfl).2 _ rfl none 0 stackFrame onesParams emptyPassword).2
    exact absurd hzero (by decide)

end TcpIot.Config
