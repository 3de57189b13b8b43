import Mathlib.Data.List.GetD
import TcpIot.Server.Dispatch
import TcpIot.Wire.WideFrames

/-!
# The two ways to receive a message

The Windows branch of `listen_thread` collects every second byte of the body and moves the text
to the front of `tempx`, without terminating it. Whether the text ends where it should is decided
by the byte of the raw frame that is left behind it.
-/

namespace TcpIot.Server

open Framework

/-- The body of a frame from the Windows client: command, destination, payload and a zero. -/
def windowsBody (cmd dest : UInt8) (p : List UInt8) : List UInt8 := spread (cmd :: dest :: p ++ [0])

theorem windowsBody_length (cmd dest : UInt8) (p : List UInt8) :
    (windowsBody cmd dest p).length = 6 + 2 * p.length := by
  rw [windowsBody, spread_length, List.length_append, List.length_cons, List.length_cons,
    List.length_singleton]
  omega

/-- What a turn works with after unpacking, the text being the C string in `tempx`. -/
structure Unpacked where
  cmd : UInt8
  dest : UInt8
  msgLen : Int
  text : List UInt8
deriving DecidableEq

def unpacked (winCl : Int) (r : Received) : Option Unpacked :=
  (unpack winCl r.msgLen r.tempx).bind fun (len, dest, tempx) =>
    tempx.cstr.map fun text => ⟨r.tempx.get 0, dest, len, text⟩

/-- A turn of the Windows client's thread up to the dispatch. -/
def wideTurn (sock : Int) (stale : Stale 20) (streams : Int → List UInt8) : Option Unpacked :=
  (receiveWide sock sock stale streams).bind fun r => unpacked 1 r.1

/-- A turn of another client's thread up to the dispatch. -/
def narrowTurn (sock : Int) (stale : Stale 10) (stream : List UInt8) : Option Unpacked :=
  (receiveNarrow sock stale stream).bind (unpacked 0)

theorem narrowTurn_frame (sock : Nat) (stale : Stale 10) (cmd dest : UInt8) {p : List UInt8}
    (rest : List UInt8) (hfit : p.length ≤ 48) :
    narrowTurn sock stale (Client.frame (cmd, dest, p) ++ rest) =
      some ⟨cmd, dest, p.length, p.takeWhile (· ≠ 0)⟩ := by
  obtain ⟨r, hr, hlen, -, -, hbytes⟩ := receiveNarrow_frame sock stale cmd dest p rest hfit
  obtain ⟨text, after, htext, htextBytes⟩ := unpackNarrow_eq hbytes
  have hcmd : r.tempx.get 0 = cmd := by
    rw [Buffer.get_eq_getD, hbytes]
    rfl
  have hdest : r.tempx.get 1 = dest := by
    rw [Buffer.get_eq_getD, hbytes]
    rfl
  have hunpack : unpack 0 r.msgLen r.tempx = some ((p.length : Int), dest, text) := by
    rw [unpack, if_neg (by decide), hlen, htext, Option.map_some, hdest]
  rw [narrowTurn, hr, Option.bind_some, unpacked, hunpack, Option.bind_some]
  dsimp only
  rw [Buffer.cstr_append_zero htextBytes, hcmd]
  rfl

private theorem read_one (tempx : Buffer 50) {i : Nat} (hi : i < 50) :
    tempx.read i 1 = some [tempx.bytes.getD i 0] := by
  rw [Buffer.read_eq_some]
  refine ⟨by rw [Access.inBounds_mk]; omega, ?_⟩
  have hlen : i < tempx.bytes.length := by rw [tempx.bytes_length]; exact hi
  rw [Int.toNat_natCast, List.drop_eq_getElem_cons hlen, List.getD_eq_getElem _ _ hlen]
  rfl

private theorem takeChar_eq {tempx tempx2 : Buffer 50} {k : Nat} {chars : List UInt8}
    (hk : 4 + 2 * k < 50) (hlen : chars.length = k)
    (hbytes : tempx2.bytes = chars ++ List.replicate (50 - k) 0) :
    ∃ next, takeChar tempx tempx2 k = some next ∧
      next.bytes = (chars ++ [tempx.bytes.getD (4 + 2 * k) 0]) ++
        List.replicate (50 - (k + 1)) 0 := by
  have hread : tempx.read (4 + 2 * (k : Int)) 1 = some [tempx.bytes.getD (4 + 2 * k) 0] := by
    exact_mod_cast read_one tempx hk
  have hfit : k + [tempx.bytes.getD (4 + 2 * k) 0].length ≤ 50 := by
    rw [List.length_singleton]
    omega
  refine ⟨_, by rw [takeChar, hread, Option.bind_some, Buffer.write_eq_some hfit], ?_⟩
  dsimp only
  rw [hbytes, List.take_left' hlen, List.length_singleton, ← List.drop_drop,
    List.drop_left' hlen, List.drop_replicate, Nat.sub_sub]

theorem takeChars_bytes (tempx : Buffer 50) {m : Nat} (hm : 2 * m + 2 < 50) :
    ∃ tempx2, (List.range m).foldlM (takeChar tempx) (Buffer.zero 50) = some tempx2 ∧
      tempx2.bytes = (List.range m).map (fun k => tempx.bytes.getD (4 + 2 * k) 0) ++
        List.replicate (50 - m) 0 := by
  induction m with
  | zero => exact ⟨Buffer.zero 50, rfl, rfl⟩
  | succ m ih =>
    obtain ⟨tempx2, hfold, hbytes⟩ := ih (by omega)
    obtain ⟨next, hnext, hnextBytes⟩ := @takeChar_eq tempx tempx2 m _ (by omega)
      (by rw [List.length_map, List.length_range]) hbytes
    refine ⟨next, ?_, ?_⟩
    · rw [List.range_succ, List.foldlM_append, hfold]
      simpa using hnext
    · rw [hnextBytes, List.range_succ, List.map_append]
      rfl

/-- What `tempx` holds after a frame of the Windows client: its characters and zeros, spread. -/
def frameChars (cmd dest : UInt8) (p : List UInt8) : List UInt8 :=
  cmd :: dest :: p ++ List.replicate (23 - p.length) 0

private theorem spread_zeros (n : Nat) :
    spread (List.replicate n 0) = List.replicate (2 * n) 0 := by
  induction n with
  | zero => rfl
  | succ n ih => rw [List.replicate_succ, spread_cons, ih, Nat.mul_succ]; rfl

theorem receiveWide_frame (sock : Int) (stale : Stale 20) (streams : Int → List UInt8)
    (cmd dest : UInt8) {p rest : List UInt8} (hfit : 6 + 2 * p.length ≤ 50)
    (hstream : streams sock = wideHeader (6 + 2 * p.length) ++ (windowsBody cmd dest p ++ rest)) :
    ∃ r, receiveWide sock sock stale streams = some r ∧
      r.1.msgLen = ((6 + 2 * p.length : Nat) : Int) ∧
      r.1.tempx.bytes = spread (frameChars cmd dest p) := by
  have hheader : getMsgb stale (streams sock) =
      (((6 + 2 * p.length : Nat) : Int), windowsBody cmd dest p ++ rest) := by
    rw [hstream]
    exact getMsgb_wideHeader stale (by omega) _
  have htake : (windowsBody cmd dest p ++ rest).take (6 + 2 * p.length) =
      windowsBody cmd dest p := List.take_left' (windowsBody_length cmd dest p)
  obtain ⟨tempx, -, hbytes⟩ := @Buffer.write_zero _ (Buffer.zero 50) (windowsBody cmd dest p)
    (by rw [windowsBody_length]; exact hfit)
  rw [Buffer.zero_bytes, List.drop_replicate, windowsBody_length] at hbytes
  set r : Received := ⟨(6 + 2 * p.length : Nat), tempx, 6 + 2 * p.length,
    (windowsBody cmd dest p ++ rest).drop (6 + 2 * p.length)⟩
  have hbody : recvBody (6 + 2 * p.length : Nat) (6 + 2 * p.length : Nat)
      (windowsBody cmd dest p ++ rest) = some r := by
    rw [recvBody_eq_some (Int.natCast_nonneg _), Int.toNat_natCast, htake, windowsBody_length]
    exact ⟨hfit, rfl, hbytes, rfl, rfl⟩
  have hread : receiveWide sock sock stale streams = some (r, Function.update
      (Function.update streams sock (windowsBody cmd dest p ++ rest)) sock r.rest) := by
    rw [receiveWide, hheader]
    dsimp only
    rw [Function.update_self, hbody, Option.map_some]
  have hchars : tempx.bytes = spread (frameChars cmd dest p) := by
    have hzeros : 50 - (6 + 2 * p.length) = 2 * (22 - p.length) := by omega
    have hone : 23 - p.length = 22 - p.length + 1 := by omega
    rw [hbytes, windowsBody, hzeros, ← spread_zeros, ← spread_append, frameChars, hone,
      List.replicate_succ, List.append_assoc]
    rfl
  exact ⟨_, hread, rfl, hchars⟩

theorem frameChars_length (cmd dest : UInt8) {p : List UInt8} (hfit : p.length ≤ 23) :
    (frameChars cmd dest p).length = 25 := by
  rw [frameChars, List.length_append, List.length_replicate, List.length_cons, List.length_cons]
  omega

theorem frameChars_getD (cmd dest : UInt8) (p : List UInt8) (k : Nat) :
    (frameChars cmd dest p).getD (k + 2) 0 = p.getD k 0 := by
  rw [frameChars, List.cons_append, List.cons_append, List.getD_cons_succ, List.getD_cons_succ]
  by_cases hk : k < p.length
  · rw [List.getD_append _ _ _ _ hk]
  · rw [List.getD_append_right _ _ _ _ (not_lt.mp hk), List.getD_eq_getElem?_getD,
      List.getElem?_getD_replicate_default_eq, List.getD_eq_default _ _ (not_lt.mp hk)]

private theorem wideCount_frame (n : Nat) : wideCount ((6 + 2 * n : Nat) : Int) = n + 3 := by
  rw [wideCount]
  omega

private theorem wideLen_frame (n : Nat) : wideLen ((6 + 2 * n : Nat) : Int) = n := by
  have hdiv : ((6 + 2 * n : Nat) : Int).tdiv 2 = ((n + 3 : Nat) : Int) := by
    rw [Int.tdiv_eq_ediv_of_nonneg (Int.natCast_nonneg _)]
    omega
  rw [wideLen, hdiv]
  omega

/-- The payload is moved in front of what the raw frame holds from there on. -/
theorem unpackWide_frame {cmd dest : UInt8} {p : List UInt8} {tempx : Buffer 50}
    (hp : p.length ≤ 20) (hbytes : tempx.bytes = spread (frameChars cmd dest p)) :
    ∃ text, unpackWide ((6 + 2 * p.length : Nat) : Int) tempx = some text ∧
      text.bytes = p ++ (spread (frameChars cmd dest p)).drop p.length := by
  obtain ⟨tempx2, hfold, hchars⟩ := @takeChars_bytes tempx (p.length + 3) (by omega)
  obtain ⟨text, htext, htextBytes⟩ := @Buffer.memmove_eq_some _ _ tempx tempx2 0 0 p.length
    (by rw [Access.inBounds_mk]; omega) (by rw [Access.inBounds_mk]; omega)
  have hpayload : tempx2.bytes.take p.length = p := by
    rw [hchars, List.take_append_of_le_length (by rw [List.length_map, List.length_range]; omega),
      ← List.map_take, List.take_range, Nat.min_eq_left (by omega)]
    apply List.ext_getElem (by rw [List.length_map, List.length_range])
    intro k _ hk
    have hplace : 4 + 2 * k = 2 * (k + 2) := by omega
    rw [List.getElem_map, List.getElem_range, hbytes, hplace, spread_getD_even,
      frameChars_getD, List.getD_eq_getElem p 0 hk]
  refine ⟨text, ?_, ?_⟩
  · rw [unpackWide, wideCount_frame, hfold, Option.bind_some, wideLen_frame, htext]
  · rw [htextBytes, hbytes]
    simp [hpayload]

/-- The byte of the raw frame behind the payload is zero. -/
def TerminatedByFrame (dest : UInt8) (p : List UInt8) : Prop :=
  p.length % 2 = 1 ∨ p.length = 2 ∧ dest = 0

instance (dest : UInt8) (p : List UInt8) : Decidable (TerminatedByFrame dest p) :=
  inferInstanceAs (Decidable (_ ∨ _))

private theorem terminatedByFrame_iff {cmd : UInt8} (dest : UInt8) {p : List UInt8}
    (hcmd : cmd ≠ 0) (hp : 0 ∉ p) :
    (spread (frameChars cmd dest p)).getD p.length 0 = 0 ↔ TerminatedByFrame dest p := by
  rcases Nat.even_or_odd' p.length with ⟨k, hk | hk⟩
  · rw [TerminatedByFrame, hk, spread_getD_even]
    match k, hk with
    | 0, hk =>
      have hfirst : (frameChars cmd dest p).getD 0 0 = cmd := rfl
      rw [hfirst]
      constructor
      · exact fun h => absurd h hcmd
      · omega
    | 1, hk =>
      have hsecond : (frameChars cmd dest p).getD 1 0 = dest := rfl
      rw [hsecond]
      constructor
      · exact fun h => .inr ⟨rfl, h⟩
      · rintro (h | h)
        · omega
        · exact h.2
    | k + 2, hk =>
      have hlt : k < p.length := by omega
      rw [frameChars_getD, List.getD_eq_getElem p 0 hlt]
      constructor
      · exact fun h => absurd (h ▸ List.getElem_mem hlt) hp
      · omega
  · rw [hk, spread_getD_odd]
    exact ⟨fun _ => .inl (by omega), fun _ => rfl⟩

private theorem cstr_iff_terminated {text : Buffer 50} {p tail : List UInt8} (hp : 0 ∉ p)
    (htail : tail ≠ []) (hbytes : text.bytes = p ++ tail) :
    text.cstr = some p ↔ tail.getD 0 0 = 0 := by
  rw [Buffer.cstr_eq_some, hbytes]
  cases tail with
  | nil => exact absurd rfl htail
  | cons c tail =>
    simp only [hp, not_false_eq_true, true_and, List.append_cancel_left_eq, List.cons.injEq,
      exists_and_left, exists_eq', and_true, List.getD_cons_zero]

/-- The Windows client's frame and the ordinary frame with the same fields leave the same
command, destination, length and text. -/
def SameUnpacked (sock : Nat) (stale : Stale 20) (streams : Int → List UInt8) (sock' : Nat)
    (stale' : Stale 10) (cmd dest : UInt8) (p rest : List UInt8) : Prop :=
  ∃ u : Unpacked, u = ⟨cmd, dest, p.length, p⟩ ∧ wideTurn sock stale streams = some u ∧
    narrowTurn sock' stale' (Client.frame (cmd, dest, p) ++ rest) = some u

/-- The two branches agree on a payload whose frame fits iff the loop stays inside `tempx` and
the raw frame happens to terminate the text. -/
theorem sameUnpacked_iff (sock sock' : Nat) (stale : Stale 20) (stale' : Stale 10)
    (streams : Int → List UInt8) {cmd : UInt8} (dest : UInt8) {p : List UInt8}
    (rest rest' : List UInt8) (hcmd : CmdInRange cmd) (hp : 0 ∉ p)
    (hfit : 6 + 2 * p.length ≤ 50)
    (hstream : streams sock = wideHeader (6 + 2 * p.length) ++ (windowsBody cmd dest p ++ rest)) :
    SameUnpacked sock stale streams sock' stale' cmd dest p rest' ↔
      p.length ≤ 20 ∧ TerminatedByFrame dest p := by
  have hnarrow := narrowTurn_frame sock' stale' cmd dest rest' (p := p) (by omega)
  rw [Buffer.takeWhile_noNul hp] at hnarrow
  obtain ⟨r, hr, hlen, hbytes⟩ := receiveWide_frame sock stale streams cmd dest hfit hstream
  have hcmd0 : cmd ≠ 0 := by
    rintro rfl
    exact absurd hcmd.2 (by decide)
  have hget0 : r.1.tempx.get 0 = cmd := by rw [Buffer.get_eq_getD, hbytes]; rfl
  have hget2 : r.1.tempx.get 2 = dest := by rw [Buffer.get_eq_getD, hbytes]; rfl
  have hsame : SameUnpacked sock stale streams sock' stale' cmd dest p rest' ↔
      ((unpackWide r.1.msgLen r.1.tempx).bind fun text => text.cstr) = some p := by
    rw [SameUnpacked, hnarrow, wideTurn, hr, Option.bind_some, unpacked, unpack, if_pos rfl,
      hget0, hget2, hlen, wideLen_frame]
    cases unpackWide ((6 + 2 * p.length : Nat) : Int) r.1.tempx with
    | none => simp
    | some text => simp
  rw [hsame, hlen]
  by_cases hshort : p.length ≤ 20
  · obtain ⟨text, htext, htextBytes⟩ := unpackWide_frame hshort hbytes
    have hsize := @frameChars_length cmd dest p (by omega)
    have htail : (spread (frameChars cmd dest p)).drop p.length ≠ [] := by
      rw [← List.length_pos_iff, List.length_drop, spread_length]
      omega
    have hhead : ((spread (frameChars cmd dest p)).drop p.length).getD 0 0 =
        (spread (frameChars cmd dest p)).getD p.length 0 := by
      simp only [List.getD_eq_getElem?_getD, List.getElem?_drop, Nat.add_zero]
    rw [htext, Option.bind_some, cstr_iff_terminated hp htail htextBytes, hhead,
      terminatedByFrame_iff dest hcmd0 hp]
    simp [hshort]
  · have hoverrun : unpackWide ((6 + 2 * p.length : Nat) : Int) r.1.tempx = none := by
      rw [← Option.not_isSome_iff_eq_none, unpackWide_isSome]
      intro hin
      have hread := hin ⟨50, 4 + 2 * (p.length + 2 : Nat), 1⟩ (by
        rw [wideAccesses, wideCount_frame, List.mem_append, List.mem_flatMap]
        exact .inl ⟨p.length + 2, List.mem_range.mpr (by omega), by simp⟩)
      rw [Access.inBounds_mk] at hread
      omega
    rw [hoverrun]
    simp [hshort]

/-- The payload `A`, for destination 1. -/
theorem sameUnpacked_iff_one_char :
    SameUnpacked 4 ⟨Buffer.zero 20, 0, 0⟩
      (fun _ => wideHeader 8 ++ (windowsBody 72 1 [65] ++ [])) 5 ⟨Buffer.zero 10, 0, 0⟩ 72 1 [65]
      [] ↔ [(65 : UInt8)].length ≤ 20 ∧ TerminatedByFrame 1 [65] :=
  sameUnpacked_iff 4 5 ⟨Buffer.zero 20, 0, 0⟩ ⟨Buffer.zero 10, 0, 0⟩
    (fun _ => wideHeader 8 ++ (windowsBody 72 1 [65] ++ [])) 1 [] [] (by decide) (by decide)
    (by decide) rfl

/-- `SET_CLIENT_NAME` with the name that the console looks for: its sixth character is left
behind the moved text and becomes part of the name. -/
theorem windows_client_name_extended :
    wideTurn 4 ⟨Buffer.zero 20, 0, 0⟩
      (fun _ => wideHeader 34 ++ (windowsBody 72 0 (ascii "Windows Client") ++ [])) =
        some ⟨72, 0, 14, ascii "Windows Clientw"⟩ ∧
    ¬ SameUnpacked 4 ⟨Buffer.zero 20, 0, 0⟩
      (fun _ => wideHeader 34 ++ (windowsBody 72 0 (ascii "Windows Client") ++ []))
      5 ⟨Buffer.zero 10, 0, 0⟩ 72 0 (ascii "Windows Client") [] := by
  have hwide : wideTurn 4 ⟨Buffer.zero 20, 0, 0⟩
      (fun _ => wideHeader 34 ++ (windowsBody 72 0 (ascii "Windows Client") ++ [])) =
        some ⟨72, 0, 14, ascii "Windows Clientw"⟩ := by decide
  refine ⟨hwide, ?_⟩
  rintro ⟨u, rfl, h, -⟩
  exact absurd (hwide.symm.trans h) (by decide)

end TcpIot.Server
