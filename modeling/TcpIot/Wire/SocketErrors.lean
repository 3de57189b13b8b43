import TcpIot.Framework.Printf
import TcpIot.Server.Text

/-!
# Errors of the socket calls

`put_sock` and `get_sock` describe a failed call in the caller's `errmsg`, with `errno` on its way
through `extra_msg`; the caller then prints `errmsg` as a format. The arrays have 20, 30 and 60
bytes, and no call looks at the length of what `strerror` returns.
-/

namespace TcpIot

open Framework Server

/-- A `send` or `recv` from or into `buf`, with what it returns, what `strerror(errno)` is after it,
and the old contents of `extra_msg`. -/
structure SockCall where
  sd : Int
  size : Nat
  /-- The array of the caller after the call. -/
  buf : Buffer size
  buflen : Int
  rc : Int
  errno : Nat
  strerror : List UInt8
  noNul : 0 ∉ strerror
  extraMsg : Buffer 10

inductive SockOp where
  | send
  | recv
deriving DecidableEq

/-- `EAGAIN`. -/
def eagain : Nat := 11

/-- `EPIPE`. -/
def epipe : Nat := 32

namespace SockCall

/-- The kernel reads or writes the first `rc` bytes of `buf`. -/
def transfer (c : SockCall) : Option Int := if c.rc ≤ c.size then some c.rc else none

/-- Neither side passes `MSG_NOSIGNAL` or handles `SIGPIPE`, which ends the process. -/
def send (c : SockCall) : Option Int :=
  if c.rc < 0 ∧ c.errno = epipe then none else c.transfer

def recv (c : SockCall) : Option Int := c.transfer

/-- What `sprintf` stores in `extra_msg`, with what stands behind `%d`. -/
def extra (c : SockCall) (suffix : List UInt8) : List UInt8 :=
  ascii " " ++ decimal c.errno ++ suffix

end SockCall

/-- The four statements that fill `errmsg`; `tail` is the last text. -/
def describe {n : Nat} (suffix tail : List UInt8) (c : SockCall) (errmsg : Buffer n) :
    Option (Buffer n) :=
  (errmsg.strcpy c.strerror).bind fun errmsg =>
    (c.extraMsg.strcpy (c.extra suffix)).bind fun extraMsg =>
      extraMsg.cstr.bind fun extra =>
        (errmsg.strcat extra).bind fun errmsg => errmsg.strcat tail

/-- What `put_sock` and `get_sock` leave: the returned value, `errmsg` and what they print. -/
structure SockResult (n : Nat) where
  ret : Int
  errmsg : Buffer n
  out : List UInt8

/-- The branch of a failed call, which prints `errmsg` behind `head`. -/
def failure {n : Nat} (head suffix tail : List UInt8) (c : SockCall) (errmsg : Buffer n) :
    Option (SockResult n) :=
  (describe suffix tail c errmsg).bind fun errmsg =>
    errmsg.cstr.map fun text => ⟨c.rc, errmsg, head ++ text ++ ascii "\n"⟩

def success {n : Nat} (c : SockCall) (errmsg : Buffer n) : Option (SockResult n) :=
  (errmsg.strcpy (ascii "Success")).map fun errmsg => ⟨c.rc, errmsg, []⟩

/-- `strcmp` with `Success`, and `printf(errmsg)`: the returned value and all that is printed. -/
def report {n : Nat} (r : SockResult n) : Option (Int × List UInt8) :=
  if r.ret < 0 then
    r.errmsg.cstr.bind fun text =>
      if text ≠ ascii "Success" then (printf text).map fun out => (r.ret, r.out ++ out)
      else some (r.ret, r.out)
  else some (r.ret, r.out)

namespace Client

def putSock {n : Nat} (c : SockCall) (errmsg : Buffer n) : Option (SockResult n) :=
  c.send.bind fun rc =>
    if rc < 0 ∧ c.errno ≠ eagain then
      failure (ascii "put_sock: ") [] (ascii " put_sock") c errmsg
    else success c errmsg

def getSock {n : Nat} (c : SockCall) (errmsg : Buffer n) : Option (SockResult n) :=
  c.recv.bind fun rc =>
    if rc < 0 ∧ c.errno ≠ eagain then
      failure (ascii "get_sock: ") [] (ascii " get_sock") c errmsg
    else success c errmsg

/-- `test_sock` returns 1. -/
def sendTcp (c : SockCall) : Option (Int × List UInt8) := (putSock c (.zero 30)).bind report

def recvTcp (c : SockCall) : Option (Int × List UInt8) := (getSock c (.zero 20)).bind report

def sockCall : SockOp × SockCall → Option (Int × List UInt8)
  | (.send, c) => sendTcp c
  | (.recv, c) => recvTcp c

end Client

namespace Server

/-- `"%02x "`. -/
def hexByte (b : UInt8) : List UInt8 :=
  [Printf.digit false (b.toNat / 16), Printf.digit false (b.toNat % 16), 32]

def putSock {n : Nat} (c : SockCall) (errmsg : Buffer n) : Option (SockResult n) :=
  c.send.bind fun rc =>
    if rc < 0 then failure (ascii "put_sock: ") (ascii "\n") (ascii "put_sock\n") c errmsg
    else success c errmsg

/-- A failed `recv` is left at the first test, behind the loop that prints `buflen` bytes; the
second test never sees it. -/
def getSock {n : Nat} (c : SockCall) (errmsg : Buffer n) : Option (SockResult n) :=
  c.recv.bind fun rc =>
    if rc < 0 then
      (c.buf.read 0 (max c.buflen 0)).map fun bytes =>
        ⟨-3, errmsg, ascii "bad sock: " ++ decimal c.sd ++ ascii "\n" ++ bytes.flatMap hexByte ++
          ascii "\n"⟩
    else if rc < 0 then
      failure (ascii "get_sock: " ++ decimal c.sd ++ ascii " ") [] [] c errmsg
    else success c errmsg

def sendTcp (c : SockCall) : Option (Int × List UInt8) := (putSock c (.zero 60)).bind report

def recvTcp (c : SockCall) : Option (Int × List UInt8) := (getSock c (.zero 20)).bind report

def sockCall : SockOp × SockCall → Option (Int × List UInt8)
  | (.send, c) => sendTcp c
  | (.recv, c) => recvTcp c

end Server

namespace SockCall

/-- The text that `errmsg` should hold. -/
def message (c : SockCall) (suffix tail : List UInt8) : List UInt8 :=
  c.strerror ++ c.extra suffix ++ tail

/-- `errno` and the text of `strerror` fit, and as a format the text takes no argument. -/
structure Fits (c : SockCall) (digits room : Nat) : Prop where
  errno : (decimal c.errno).length ≤ digits
  text : c.strerror.length + (decimal c.errno).length ≤ room
  format : (printf c.strerror).isSome

end SockCall

section Describe

variable {n : Nat} {suffix tail : List UInt8} {c : SockCall}

theorem SockCall.extra_length (c : SockCall) (suffix : List UInt8) :
    (c.extra suffix).length = 1 + (decimal c.errno).length + suffix.length := by
  rw [extra, List.length_append, List.length_append]
  rfl

theorem SockCall.extra_noNul (c : SockCall) (hsuffix : 0 ∉ suffix) : 0 ∉ c.extra suffix := by
  rw [extra, List.mem_append, List.mem_append, not_or, not_or]
  exact ⟨⟨by decide, decimal_noNul c.errno⟩, hsuffix⟩

theorem SockCall.message_length (c : SockCall) (suffix tail : List UInt8) :
    (c.message suffix tail).length =
      c.strerror.length + (c.extra suffix).length + tail.length := by
  rw [message, List.length_append, List.length_append]

theorem SockCall.overruns (h : ¬ c.rc ≤ c.size) : c.send = none ∧ c.recv = none := by
  have htransfer : c.transfer = none := if_neg h
  constructor
  · rw [send, htransfer, ite_self]
  · exact htransfer

theorem strcpy_text {s : List UInt8} (b : Buffer n) (hs : 0 ∉ s) (h : s.length < n) :
    ∃ b', b.strcpy s = some b' ∧ b'.cstr = some s := by
  have hcopy := b.strcpy_fits h
  rwa [Buffer.takeWhile_noNul hs] at hcopy

theorem describe_fits (hsuffix : 0 ∉ suffix) (htail : 0 ∉ tail) (errmsg : Buffer n)
    (hextra : (c.extra suffix).length < 10) (hmessage : (c.message suffix tail).length < n) :
    ∃ b, describe suffix tail c errmsg = some b ∧ b.cstr = some (c.message suffix tail) := by
  rw [c.message_length] at hmessage
  obtain ⟨errmsg₁, hfirst, htext₁⟩ := strcpy_text errmsg c.noNul (by omega)
  obtain ⟨extraMsg, hprint, htext⟩ := strcpy_text c.extraMsg (c.extra_noNul hsuffix) hextra
  obtain ⟨errmsg₂, hsecond, htext₂⟩ :=
    Buffer.strcat_fits htext₁ (c.extra_noNul hsuffix) (by omega)
  obtain ⟨errmsg₃, hthird, htext₃⟩ :=
    Buffer.strcat_fits htext₂ htail (by rw [List.length_append]; exact hmessage)
  refine ⟨errmsg₃, ?_, htext₃⟩
  simp only [describe, hfirst, hprint, htext, hsecond, hthird, Option.bind_some]

theorem describe_overruns (hsuffix : 0 ∉ suffix) (errmsg : Buffer n)
    (h : ¬ ((c.extra suffix).length < 10 ∧ (c.message suffix tail).length < n)) :
    describe suffix tail c errmsg = none := by
  rw [c.message_length] at h
  by_cases hfirst : c.strerror.length < n
  · obtain ⟨errmsg₁, hcopy, htext₁⟩ := strcpy_text errmsg c.noNul hfirst
    rw [describe, hcopy, Option.bind_some]
    by_cases hextra : (c.extra suffix).length < 10
    · obtain ⟨extraMsg, hprint, htext⟩ := strcpy_text c.extraMsg (c.extra_noNul hsuffix) hextra
      rw [hprint, Option.bind_some, htext, Option.bind_some]
      by_cases hsecond : c.strerror.length + (c.extra suffix).length < n
      · obtain ⟨errmsg₂, hcat, htext₂⟩ :=
          Buffer.strcat_fits htext₁ (c.extra_noNul hsuffix) hsecond
        rw [hcat, Option.bind_some]
        apply Buffer.strcat_overruns htext₂
        rw [List.length_append]
        omega
      · rw [Buffer.strcat_overruns htext₁ (Nat.le_of_not_lt hsecond), Option.bind_none]
    · rw [Buffer.strcpy_overruns _ (Nat.le_of_not_lt hextra), Option.bind_none]
  · rw [describe, Buffer.strcpy_overruns _ (Nat.le_of_not_lt hfirst), Option.bind_none]

theorem SockCall.message_ne_success (c : SockCall) (suffix tail : List UInt8) :
    c.message suffix tail ≠ ascii "Success" := by
  intro h
  have hblank : (32 : UInt8) ∈ c.message suffix tail := by
    simp [message, extra, ascii]
  rw [h] at hblank
  exact absurd hblank (by decide)

theorem SockCall.printf_message (c : SockCall) (hsuffix : percent ∉ suffix)
    (htail : percent ∉ tail) :
    (printf (c.message suffix tail)).isSome = (printf c.strerror).isSome := by
  rw [message, List.append_assoc]
  apply printf_append_isSome
  have hdigits : percent ∉ decimal c.errno := by
    intro h
    cases mem_decimal h with
    | inl hsign => cases hsign
    | inr hdigit => exact absurd hdigit.1 (by decide)
  simp only [extra, List.mem_append, not_or]
  exact ⟨⟨⟨by decide, hdigits⟩, hsuffix⟩, htail⟩

/-- A failed call is described and reported when its text fits. -/
theorem report_failure (hret : c.rc < 0) (hsuffix : 0 ∉ suffix) (htail : 0 ∉ tail)
    (head : List UInt8) (errmsg : Buffer n) :
    (failure head suffix tail c errmsg).bind report =
      if (c.extra suffix).length < 10 ∧ (c.message suffix tail).length < n then
        (printf (c.message suffix tail)).map fun out =>
          (c.rc, head ++ c.message suffix tail ++ ascii "\n" ++ out)
      else none := by
  split
  · rename_i h
    obtain ⟨errmsg', hdescribe, htext⟩ := describe_fits hsuffix htail errmsg h.1 h.2
    rw [failure, hdescribe, Option.bind_some, htext, Option.map_some, Option.bind_some]
    simp only [report, if_pos hret, htext, Option.bind_some, if_pos (c.message_ne_success _ _)]
  · rename_i h
    rw [failure, describe_overruns hsuffix errmsg h, Option.bind_none, Option.bind_none]

theorem report_success (hn : 7 < n) (c : SockCall) (errmsg : Buffer n) :
    (success c errmsg).bind report = some (c.rc, []) := by
  obtain ⟨errmsg', hcopy, htext⟩ := strcpy_text errmsg (by decide : 0 ∉ ascii "Success") hn
  rw [success, hcopy, Option.map_some, Option.bind_some]
  simp [report, htext]

end Describe

/-- The caller goes on after the call exactly when `survived`, with the value `ret`; nothing is
printed for a call that did not fail. -/
structure Handled (survived failed : Prop) (ret : Int) (result : Option (Int × List UInt8)) :
    Prop where
  runs : result.isSome ↔ survived
  returns : ∀ r ∈ result, r.1 = ret
  quiet : ¬ failed → ∀ r ∈ result, r.2 = []

theorem Handled.ends {survived : Prop} (h : ¬ survived) (failed : Prop) (ret : Int) :
    Handled survived failed ret none where
  runs := iff_of_false Bool.false_ne_true h
  returns := nofun
  quiet _ := nofun

theorem Handled.success {survived : Prop} (h : survived) (failed : Prop) (ret : Int) :
    Handled survived failed ret (some (ret, [])) where
  runs := iff_of_true rfl h
  returns _ hr := by
    cases hr
    rfl
  quiet _ _ hr := by
    cases hr
    rfl

theorem Handled.described {n : Nat} {c : SockCall} {suffix tail : List UInt8}
    {survived failed : Prop} {digits room : Nat} (hfailed : failed) (hret : c.rc < 0)
    (hsurvived : survived ↔ c.Fits digits room)
    (hsuffix : 0 ∉ suffix ∧ percent ∉ suffix) (htail : 0 ∉ tail ∧ percent ∉ tail)
    (hdigits : digits + suffix.length = 8)
    (hroom : room + suffix.length + tail.length + 2 = n) (head : List UInt8)
    (errmsg : Buffer n) :
    Handled survived failed c.rc ((failure head suffix tail c errmsg).bind report) where
  runs := by
    have hprintf := c.printf_message hsuffix.2 htail.2
    have hmessage := c.message_length suffix tail
    have hextra := c.extra_length suffix
    rw [report_failure hret hsuffix.1 htail.1, hsurvived]
    constructor
    · intro h
      split at h
      · rename_i hfit
        rw [Option.isSome_map, hprintf] at h
        exact ⟨by omega, by omega, h⟩
      · cases h
    · intro ⟨herrno, htext, hformat⟩
      rw [if_pos ⟨by omega, by omega⟩, Option.isSome_map, hprintf]
      exact hformat
  returns r hr := by
    rw [report_failure hret hsuffix.1 htail.1] at hr
    split at hr
    · obtain ⟨out, -, rfl⟩ := Option.map_eq_some_iff.mp hr
      rfl
    · cases hr
  quiet h := absurd hfailed h

namespace Client

/-- The bytes of `strerror` and of `errno` that `errmsg` has room for. -/
def room : SockOp → Nat
  | .send => 19
  | .recv => 9

def Failed (c : SockCall) : Prop := c.rc < 0 ∧ c.errno ≠ eagain

/-- The condition under which the client goes on after a call. -/
def Survives (op : SockOp) (c : SockCall) : Prop :=
  c.rc ≤ c.size ∧ (Failed c → (op = .send → c.errno ≠ epipe) ∧ c.Fits 8 (room op))

/-- Behind the call itself the two functions differ in their texts and in the size of `errmsg`. -/
theorem sockResult_handled (op : SockOp) {n : Nat} {c : SockCall} {head tail : List UInt8}
    (hpipe : op = .send → ¬ (c.rc < 0 ∧ c.errno = epipe)) (hfit : c.rc ≤ c.size)
    (htail : 0 ∉ tail ∧ percent ∉ tail) (hroom : room op + tail.length + 2 = n) :
    Handled (Survives op c) (Failed c) c.rc
      ((if c.rc < 0 ∧ c.errno ≠ eagain then failure head [] tail c (.zero n)
        else success c (.zero n)).bind report) := by
  by_cases hfailed : c.rc < 0 ∧ c.errno ≠ eagain
  · have hsurvives : Survives op c ↔ c.Fits 8 (room op) := by
      constructor
      · exact fun h => (h.2 hfailed).2
      · exact fun h => ⟨hfit, fun _ => ⟨fun hop herrno => hpipe hop ⟨hfailed.1, herrno⟩, h⟩⟩
    rw [if_pos hfailed]
    exact .described hfailed hfailed.1 hsurvives (by decide) htail rfl (by simpa using hroom)
      head _
  · have hn : 7 < n := by
      cases op with
      | send | recv => simp only [room] at hroom; omega
    rw [if_neg hfailed, report_success hn]
    exact .success ⟨hfit, fun h => absurd h hfailed⟩ _ _

theorem sockCall_handled (op : SockOp) (c : SockCall) :
    Handled (Survives op c) (Failed c) c.rc (sockCall (op, c)) := by
  by_cases hfit : c.rc ≤ c.size
  · cases op with
    | send =>
      rw [sockCall, sendTcp, putSock, SockCall.send]
      by_cases hpipe : c.rc < 0 ∧ c.errno = epipe
      · rw [if_pos hpipe]
        have hfailed : Failed c := ⟨hpipe.1, by rw [hpipe.2]; decide⟩
        exact .ends (fun h => (h.2 hfailed).1 rfl hpipe.2) _ _
      · rw [if_neg hpipe, SockCall.transfer, if_pos hfit, Option.bind_some]
        exact sockResult_handled .send (fun _ => hpipe) hfit (by decide) rfl
    | recv =>
      rw [sockCall, recvTcp, getSock, SockCall.recv, SockCall.transfer, if_pos hfit,
        Option.bind_some]
      exact sockResult_handled .recv nofun hfit (by decide) rfl
  · have hnone : sockCall (op, c) = none := by
      cases op with
      | send => rw [sockCall, sendTcp, putSock, (SockCall.overruns hfit).1]; rfl
      | recv => rw [sockCall, recvTcp, getSock, (SockCall.overruns hfit).2]; rfl
    rw [hnone]
    exact .ends (fun h => hfit h.1) _ _

end Client

namespace Server

/-- The condition under which the server goes on after a call. -/
def Survives : SockOp → SockCall → Prop
  | .send, c => c.rc ≤ c.size ∧ (c.rc < 0 → c.errno ≠ epipe ∧ c.Fits 7 48)
  | .recv, c => c.rc ≤ c.size ∧ (c.rc < 0 → c.buflen ≤ c.size)

def returned (op : SockOp) (c : SockCall) : Int :=
  if op = .recv ∧ c.rc < 0 then -3 else c.rc

theorem sendTcp_handled {c : SockCall} (hfit : c.rc ≤ c.size) :
    Handled (Survives .send c) (c.rc < 0) c.rc (sendTcp c) := by
  rw [sendTcp, putSock, SockCall.send]
  by_cases hpipe : c.rc < 0 ∧ c.errno = epipe
  · rw [if_pos hpipe]
    exact .ends (fun h => (h.2 hpipe.1).1 hpipe.2) _ _
  · rw [if_neg hpipe, SockCall.transfer, if_pos hfit, Option.bind_some]
    by_cases hfailed : c.rc < 0
    · have hsurvives : Survives .send c ↔ c.Fits 7 48 := by
        constructor
        · exact fun h => (h.2 hfailed).2
        · exact fun h => ⟨hfit, fun _ => ⟨fun herrno => hpipe ⟨hfailed, herrno⟩, h⟩⟩
      rw [if_pos hfailed]
      exact .described hfailed hfailed hsurvives (by decide) (by decide) (by decide) (by decide)
        _ _
    · rw [if_neg hfailed, report_success (by decide)]
      exact .success ⟨hfit, fun h => absurd h hfailed⟩ _ _

theorem recvTcp_handled {c : SockCall} (hfit : c.rc ≤ c.size) :
    Handled (Survives .recv c) (c.rc < 0) (returned .recv c) (recvTcp c) := by
  rw [recvTcp, getSock, SockCall.recv, SockCall.transfer, if_pos hfit, Option.bind_some]
  by_cases hfailed : c.rc < 0
  · have hreturned : returned .recv c = -3 := if_pos ⟨rfl, hfailed⟩
    rw [if_pos hfailed, hreturned]
    cases hread : c.buf.read 0 (max c.buflen 0) with
    | none =>
      have hover : ¬ c.buflen ≤ c.size := by
        intro h
        have hin : (c.buf.read 0 (max c.buflen 0)).isSome := by
          rw [Buffer.read_isSome, Access.inBounds_mk]
          omega
        rw [hread] at hin
        cases hin
      exact .ends (fun h => hover (h.2 hfailed)) _ _
    | some bytes =>
      have hin := Buffer.read_isSome.mp (Option.isSome_of_eq_some hread)
      rw [Access.inBounds_mk] at hin
      have hempty : (Buffer.zero 20).cstr = some [] := by decide
      have hsuccess : [] ≠ ascii "Success" := by decide
      simp only [Option.map_some, Option.bind_some, report, hempty, if_pos hsuccess,
        if_pos (by decide : (-3 : Int) < 0)]
      constructor
      · exact iff_of_true rfl ⟨hfit, fun _ => by omega⟩
      · intro r hr
        cases hr
        rfl
      · exact fun h => absurd hfailed h
  · have hreturned : returned .recv c = c.rc := if_neg fun h => hfailed h.2
    rw [if_neg hfailed, if_neg hfailed, report_success (by decide), hreturned]
    exact .success ⟨hfit, fun h => absurd h hfailed⟩ _ _

theorem sockCall_handled (op : SockOp) (c : SockCall) :
    Handled (Survives op c) (c.rc < 0) (returned op c) (sockCall (op, c)) := by
  by_cases hfit : c.rc ≤ c.size
  · cases op with
    | send => exact sendTcp_handled hfit
    | recv => exact recvTcp_handled hfit
  · have hnone : sockCall (op, c) = none := by
      cases op with
      | send => rw [sockCall, sendTcp, putSock, (SockCall.overruns hfit).1]; rfl
      | recv => rw [sockCall, recvTcp, getSock, (SockCall.overruns hfit).2]; rfl
    rw [hnone]
    have hnot : ¬ Survives op c := by
      cases op with
      | send | recv => exact fun h => hfit h.1
    exact .ends hnot _ _

end Server

section Runs

variable {α : Type} {calls : List α} {f : α → Option (Int × List UInt8)}
  {survived failed : α → Prop} {ret : α → Int}

theorem mapM_runs (h : ∀ a, Handled (survived a) (failed a) (ret a) (f a)) :
    (calls.mapM f).isSome ↔ ∀ a ∈ calls, survived a := by
  induction calls with
  | nil => simp
  | cons a calls ih =>
    rw [List.forall_mem_cons, ← (h a).runs, ← ih, List.mapM_cons]
    cases f a with
    | none => simp
    | some r => cases calls.mapM f <;> simp

theorem mapM_returns (h : ∀ a, Handled (survived a) (failed a) (ret a) (f a))
    {results : List (Int × List UInt8)} (hrun : calls.mapM f = some results) :
    results.map Prod.fst = calls.map ret ∧
      ((∀ a ∈ calls, ¬ failed a) → ∀ r ∈ results, r.2 = []) := by
  induction calls generalizing results with
  | nil =>
    cases hrun
    exact ⟨rfl, nofun⟩
  | cons a calls ih =>
    rw [List.mapM_cons] at hrun
    obtain ⟨r, hr, hrest⟩ := Option.bind_eq_some_iff.mp hrun
    obtain ⟨rest, hcalls, hresults⟩ := Option.bind_eq_some_iff.mp hrest
    cases hresults
    obtain ⟨hret, hquiet⟩ := ih hcalls
    constructor
    · rw [List.map_cons, List.map_cons, hret, (h a).returns r hr]
    · intro hnone
      rw [List.forall_mem_cons] at hnone ⊢
      exact ⟨(h a).quiet hnone.1 r hr, hquiet hnone.2⟩

end Runs

/-- `ECONNRESET`. -/
example : Client.recvTcp ⟨3, 50, .zero 50, 2, -1, 104, ascii "Connection reset by peer", by decide,
    .zero 10⟩ = none := by decide

end TcpIot
