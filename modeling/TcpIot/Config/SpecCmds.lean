import TcpIot.Framework.Buffer
import TcpIot.Framework.Loop
import TcpIot.Framework.Scanf

/-!
# Special input functions

`LoadSpecialInputFunctions` reads pairs of integers from `spec_cmds.txt` until `fscanf` reports
the end of the file. It stores a pair whatever the number of conversions, and a text that is no
integer is never consumed.
-/

namespace TcpIot.Config

open Framework Scanf

structure IP where
  port : Int32
  input : Int32
  function : Int32
  label : Buffer 30

/-- `fscanf(fp, "%d %d", &input_port, &input_type)` over the old values of the two variables: the
value returned (`EOF` is -1), the variables, and what is left unread. -/
def fscanfPair (value : List UInt8 → Int32) (inputPort inputType : Int32) (input : List UInt8) :
    Int × Int32 × Int32 × List UInt8 :=
  match convert input with
  | .eof => (-1, inputPort, inputType, [])
  | .mismatch rest => (0, inputPort, inputType, rest)
  | .int text rest =>
    match convert rest with
    | .eof => (1, value text, inputType, [])
    | .mismatch rest' => (1, value text, inputType, rest')
    | .int text' rest' => (2, value text, value text', rest')

/-- The variables of the loop, the array, and what the file still holds. -/
structure Loading where
  inputPort : Int32
  inputType : Int32
  i : Nat
  ip : Int → IP
  input : List UInt8

/-- What the loop stores into an element. -/
def IP.assigned (old : IP) (inputPort inputType : Int32) : IP :=
  { old with port := 0, input := inputPort, function := inputType }

/-- A turn of the loop of `LoadSpecialInputFunctions`. -/
def loadBody (value : List UInt8 → Int32) (noCurrentIps : Int) (l : Loading) :
    Loading ⊕ Nat × (Int → IP) :=
  let r := fscanfPair value l.inputPort l.inputType l.input
  if r.1 ≠ -1 then
    let k := noCurrentIps + l.i
    .inl ⟨r.2.1, r.2.2.1, l.i + 1,
      Function.update l.ip k ((l.ip k).assigned r.2.1 r.2.2.1), r.2.2.2⟩
  else .inr (l.i, l.ip)

/-- The call returns `count` and leaves the array `ip'`; the two variables start with whatever the
stack held. -/
def LoadSpecialInputFunctions (value : List UInt8 → Int32) (inputPort inputType : Int32)
    (file : List UInt8) (ip : Int → IP) (noCurrentIps : Int) (count : Nat) (ip' : Int → IP) :
    Prop :=
  Ends (loadBody value noCurrentIps) ⟨inputPort, inputType, 0, ip, file⟩ (count, ip')

def pairs : List Int32 → List (Int32 × Int32)
  | a :: b :: rest => (a, b) :: pairs rest
  | _ => []

/-- The leading pairs of integers of a file. -/
def leadingPairs (value : List UInt8 → Int32) (file : List UInt8) : List (Int32 × Int32) :=
  pairs (integers value file).1

/-- The listed pairs stand at `k`, `k + 1`, and so on, and the rest of the array is as before. -/
structure Stored (ip ip' : Int → IP) (k : Int) (ps : List (Int32 × Int32)) : Prop where
  inside : ∀ m : Nat, ∀ p, ps[m]? = some p → ip' (k + m) = (ip (k + m)).assigned p.1 p.2
  outside : ∀ m, m < k ∨ k + ps.length ≤ m → ip' m = ip m

/-- What loading should do: end, return the number of leading pairs, and store these. -/
def LoadsPairs (value : List UInt8 → Int32) (inputPort inputType : Int32) (file : List UInt8)
    (ip : Int → IP) (noCurrentIps : Int) : Prop :=
  ∃ ip', LoadSpecialInputFunctions value inputPort inputType file ip noCurrentIps
      (leadingPairs value file).length ip' ∧
    Stored ip ip' noCurrentIps (leadingPairs value file)

/-- The file holds integers only, and an even number of them. -/
def WholePairs (value : List UInt8 → Int32) (file : List UInt8) : Prop :=
  (integers value file).2 = true ∧ (integers value file).1.length % 2 = 0

theorem pairs_length (xs : List Int32) : (pairs xs).length = xs.length / 2 := by
  match xs with
  | [] => simp [pairs]
  | [_] => simp [pairs]
  | _ :: _ :: rest =>
    rw [pairs, List.length_cons, pairs_length rest, List.length_cons, List.length_cons]
    omega

theorem Stored.nil (ip : Int → IP) (k : Int) : Stored ip ip k [] where
  inside _ _ hm := by simp at hm
  outside _ _ := rfl

theorem Stored.cons {ip ip' : Int → IP} {k : Int} {a b : Int32} {ps : List (Int32 × Int32)}
    (h : Stored (Function.update ip k ((ip k).assigned a b)) ip' (k + 1) ps) :
    Stored ip ip' k ((a, b) :: ps) := by
  constructor
  · intro m p hm
    cases m with
    | zero =>
      cases hm
      have hfirst := h.outside k (.inl (by omega))
      simpa using hfirst
    | succ m =>
      have hlater := h.inside m p hm
      rw [Function.update_of_ne (by omega)] at hlater
      rw [Int.natCast_succ, Int.add_comm m, ← Int.add_assoc, hlater]
  · intro m hm
    rw [List.length_cons] at hm
    have hkeep := h.outside m (by omega)
    rwa [Function.update_of_ne (by omega)] at hkeep

section Load

variable {value : List UInt8 → Int32} {noCurrentIps : Int} {l : Loading}

/-- The state after a turn that stored the two values. -/
def Loading.stored (l : Loading) (noCurrentIps : Int) (inputPort inputType : Int32)
    (rest : List UInt8) : Loading where
  inputPort := inputPort
  inputType := inputType
  i := l.i + 1
  ip := Function.update l.ip (noCurrentIps + l.i)
    ((l.ip (noCurrentIps + l.i)).assigned inputPort inputType)
  input := rest

theorem loadBody_eof (h : convert l.input = .eof) :
    loadBody value noCurrentIps l = .inr (l.i, l.ip) := by
  simp only [loadBody, fscanfPair, h]
  rfl

theorem loadBody_mismatch {rest : List UInt8} (h : convert l.input = .mismatch rest) :
    loadBody value noCurrentIps l =
      .inl (l.stored noCurrentIps l.inputPort l.inputType rest) := by
  simp only [loadBody, fscanfPair, h]
  rfl

theorem loadBody_int {text rest : List UInt8} (h : convert l.input = .int text rest) :
    loadBody value noCurrentIps l =
      .inl (match convert rest with
        | .eof => l.stored noCurrentIps (value text) l.inputType []
        | .mismatch rest' => l.stored noCurrentIps (value text) l.inputType rest'
        | .int text' rest' => l.stored noCurrentIps (value text) (value text') rest') := by
  simp only [loadBody, fscanfPair, h]
  cases convert rest <;> rfl

/-- A file with something else in it is never read to its end. -/
theorem load_diverges (h : (integers value l.input).2 = false) (r : Nat × (Int → IP)) :
    ¬ Ends (loadBody value noCurrentIps) l r := by
  have hstuck {rest : List UInt8} (hrest : convert rest = .mismatch rest) :
      (integers value rest).2 = false := by rw [integers_mismatch hrest]
  refine @not_ends_of_inv _ _ _ _ (fun l => (integers value l.input).2 = false) ?_ h r
  intro l hl
  cases hfirst : convert l.input with
  | eof =>
    rw [integers_eof hfirst] at hl
    cases hl
  | mismatch rest => exact ⟨_, loadBody_mismatch hfirst, hstuck (convert_mismatch hfirst)⟩
  | int text rest =>
    refine ⟨_, loadBody_int hfirst, ?_⟩
    rw [integers_int hfirst] at hl
    cases hsecond : convert rest with
    | eof =>
      rw [integers_eof hsecond] at hl
      cases hl
    | mismatch rest' => exact hstuck (convert_mismatch hsecond)
    | int text' rest' =>
      rw [integers_int hsecond] at hl
      exact hl

/-- A file of integers is read to its end; an odd one out takes a turn of its own. -/
theorem load_ends (h : (integers value l.input).2 = true) :
    ∃ ip', Ends (loadBody value noCurrentIps) l
        (l.i + ((integers value l.input).1.length + 1) / 2, ip') ∧
      ((integers value l.input).1.length % 2 = 0 →
        Stored l.ip ip' (noCurrentIps + l.i) (leadingPairs value l.input)) := by
  induction hsize : l.input.length using Nat.strong_induction_on generalizing l with
  | _ size ih =>
    cases hfirst : convert l.input with
    | eof =>
      rw [leadingPairs, integers_eof hfirst]
      exact ⟨l.ip, ends_of_result (loadBody_eof hfirst), fun _ => Stored.nil _ _⟩
    | mismatch rest =>
      rw [integers_mismatch hfirst] at h
      cases h
    | int text rest =>
      rw [leadingPairs, integers_int hfirst]
      rw [integers_int hfirst] at h
      cases hsecond : convert rest with
      | eof =>
        have hgo : loadBody value noCurrentIps l =
            .inl (l.stored noCurrentIps (value text) l.inputType []) := by
          rw [loadBody_int hfirst, hsecond]
        have hlast : loadBody value noCurrentIps
            (l.stored noCurrentIps (value text) l.inputType []) = .inr (l.i + 1, _) :=
          loadBody_eof convert_nil
        rw [integers_eof hsecond]
        refine ⟨_, (ends_goes_on hgo).mpr (by simpa using ends_of_result hlast), ?_⟩
        intro heven
        cases heven
      | mismatch rest' =>
        rw [integers_mismatch hsecond] at h
        cases h
      | int text' rest' =>
        have hgo : loadBody value noCurrentIps l =
            .inl (l.stored noCurrentIps (value text) (value text') rest') := by
          rw [loadBody_int hfirst, hsecond]
        rw [integers_int hsecond] at h ⊢
        have hshort : rest'.length < size :=
          hsize ▸ (convert_int_length hsecond).trans (convert_int_length hfirst)
        obtain ⟨ip', hends, hstored⟩ :=
          @ih _ hshort (l.stored noCurrentIps (value text) (value text') rest') h rfl
        refine ⟨ip', ?_, fun heven => ?_⟩
        · rw [ends_goes_on hgo]
          have hcount : l.i + 1 + ((integers value rest').1.length + 1) / 2 =
              l.i + ((integers value rest').1.length + 1 + 1 + 1) / 2 := by omega
          rwa [Loading.stored, hcount] at hends
        · apply Stored.cons
          have hrest : (integers value rest').1.length % 2 = 0 := by
            simp only [List.length_cons] at heven
            omega
          have hlater := hstored hrest
          rwa [Loading.stored, Int.natCast_succ, ← Int.add_assoc] at hlater

end Load

/-- For every file, array and contents of the stack: loading ends with exactly the leading pairs
counted and stored iff the file holds integers only, an even number of them. -/
theorem loadSpecialInputFunctions_iff (value : List UInt8 → Int32) (inputPort inputType : Int32)
    (file : List UInt8) (ip : Int → IP) (noCurrentIps : Int) :
    LoadsPairs value inputPort inputType file ip noCurrentIps ↔ WholePairs value file := by
  rw [WholePairs]
  cases hend : (integers value file).2 with
  | false =>
    refine iff_of_false ?_ (fun h => Bool.false_ne_true h.1)
    rintro ⟨ip', hends, -⟩
    exact load_diverges (l := ⟨inputPort, inputType, 0, ip, file⟩) hend _ hends
  | true =>
    obtain ⟨ip', hends, hstored⟩ := @load_ends value noCurrentIps
      ⟨inputPort, inputType, 0, ip, file⟩ hend
    rw [Nat.zero_add] at hends
    have hlength : (leadingPairs value file).length = (integers value file).1.length / 2 :=
      pairs_length _
    constructor
    · rintro ⟨ip'', hends', -⟩
      have hcount := congrArg Prod.fst (hends'.unique hends)
      dsimp only at hcount
      exact ⟨rfl, by omega⟩
    · rintro ⟨-, heven⟩
      refine ⟨ip', ?_, ?_⟩
      · have hcount : ((integers value file).1.length + 1) / 2 =
            (leadingPairs value file).length := by omega
        rwa [hcount] at hends
      · simpa using hstored heven

/-- An array of zeros. -/
def zeroIps (_ : Int) : IP := ⟨0, 0, 0, Buffer.zero 30⟩

/-- The file `x` is read forever, and the file `1` stores a pair. -/
theorem spec_cmds_misread :
    ¬ LoadsPairs (fun text => .ofInt (intValue text)) 0 0 [120] zeroIps 0 ∧
    ¬ LoadsPairs (fun text => .ofInt (intValue text)) 0 0 [49] zeroIps 0 := by
  constructor
  · have hletter : convert [120] = .mismatch [120] := by decide
    rintro ⟨ip', hends, -⟩
    refine load_diverges ?_ _ hends
    rw [integers_mismatch hletter]
  · have hfirst : convert [49] = .int [49] [] := by decide
    have hnone : leadingPairs (fun text => Int32.ofInt (intValue text)) [49] = [] := by
      rw [leadingPairs, integers_int hfirst, integers_eof convert_nil]
      rfl
    rintro ⟨ip', hends, -⟩
    rw [hnone] at hends
    have hone := (ends_goes_on (loadBody_int hfirst)).mp hends
    rw [convert_nil] at hone
    cases hone.unique (ends_of_result (loadBody_eof convert_nil))

end TcpIot.Config
