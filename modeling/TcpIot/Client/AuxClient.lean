import TcpIot.Client.Pipeline
import TcpIot.Framework.Scanf

/-!
# Commands from the client's own machine

`aux_client2a` puts a command and a text from its command line into the queue that
`listen_thread` also fills. Its message is 100 bytes shorter than the `msg` it is received in.
-/

namespace TcpIot.Client

open Framework

/-- The table of `load_cmds.c`. -/
def cmdArray : List (CmdTypes × String) :=
  [(.nonCmd, "NON_CMD"), (.deskLight, "DESK_LIGHT"), (.eastLight, "EAST_LIGHT"),
    (.northwestLight, "NORTHWEST_LIGHT"), (.southeastLight, "SOUTHEAST_LIGHT"),
    (.middleLight, "MIDDLE_LIGHT"), (.westLight, "WEST_LIGHT"),
    (.northeastLight, "NORTHEAST_LIGHT"), (.southwestLight, "SOUTHWEST_LIGHT"),
    (.waterHeater, "WATER_HEATER"), (.waterValve1, "WATER_VALVE1"), (.waterValve2, "WATER_VALVE2"),
    (.waterValve3, "WATER_VALVE3"), (.waterPump, "WATER_PUMP"), (.chickLight, "CHICK_LIGHT"),
    (.chickHeater, "CHICK_HEATER"), (.bench12V1, "BENCH_12V_1"), (.bench12V2, "BENCH_12V_2"),
    (.bench5V1, "BENCH_5V_1"), (.bench5V2, "BENCH_5V_2"), (.bench3V3_1, "BENCH_3V3_1"),
    (.bench3V3_2, "BENCH_3V3_2"), (.benchLight1, "BENCH_LIGHT1"), (.benchLight2, "BENCH_LIGHT2"),
    (.batteryHeater, "BATTERY_HEATER"), (.cabinSouth, "CABIN_SOUTH"),
    (.cabinFilecb, "CABIN_FILECB"), (.cabin3, "CABIN3"), (.cabinKitchen, "CABIN_KITCHEN"),
    (.cabinDoor, "CABIN_DOOR"), (.cabinEast, "CABIN_EAST"), (.cabin7, "CABIN7"),
    (.cabin8, "CABIN8"), (.coop1Light, "COOP1_LIGHT"), (.coop1Heater, "COOP1_HEATER"),
    (.coop2Light, "COOP2_LIGHT"), (.coop2Heater, "COOP2_HEATER"),
    (.outdoorLight1, "OUTDOOR_LIGHT1"), (.outdoorLight2, "OUTDOOR_LIGHT2"),
    (.unused150_1, "UNUSED150_1"), (.unused150_2, "UNUSED150_2"), (.unused150_3, "UNUSED150_3"),
    (.unused150_4, "UNUSED150_4"), (.unused150_5, "UNUSED150_5"), (.unused150_6, "UNUSED150_6"),
    (.unused150_7, "UNUSED150_7"), (.unused150_8, "UNUSED150_8"), (.unused150_9, "UNUSED150_9"),
    (.unused150_10, "UNUSED150_10"), (.getTemp4, "GET_TEMP4"), (.shutdownIobox, "SHUTDOWN_IOBOX"),
    (.rebootIobox, "REBOOT_IOBOX"), (.setTime, "SET_TIME"), (.getTime, "GET_TIME"),
    (.disconnect, "DISCONNECT"), (.disconnectAll, "DISCONNECT_ALL"), (.sendTimeup, "SEND_TIMEUP"),
    (.uptimeMsg, "UPTIME_MSG"), (.sendStatus, "SEND_STATUS"),
    (.sendClientList, "SEND_CLIENT_LIST"), (.shellAndRename, "SHELL_AND_RENAME"),
    (.exitToShell, "EXIT_TO_SHELL"), (.updateStatus, "UPDATE_STATUS"),
    (.sendMessage, "SEND_MESSAGE"), (.setValidDs, "SET_VALID_DS"),
    (.setDsInterval, "SET_DS_INTERVAL"), (.dllistShow, "DLLIST_SHOW"),
    (.dllistSave, "DLLIST_SAVE"), (.ds1620Msg, "DS1620_MSG"),
    (.turnAllLightsOff, "TURN_ALL_LIGHTS_OFF"), (.setProperties, "SET_PROPERTIES"),
    (.sendMessage2, "SEND_MESSAGE2"), (.setClientName, "SET_CLIENT_NAME"),
    (.sendIotValues, "SEND_IOT_VALUES"), (.sendIotCmd, "SEND_IOT_CMD")]
/-- The entry that `print_cmd` prints; its test for an unknown command prevents nothing. `none`
behind the table. -/
def printCmd (cmd : UInt8) : Option (CmdTypes × String) := cmdArray[cmd.toNat]?

/-- `cmd = atoi(argv[1])`; `none` for a number that is no `int`. -/
def auxCmd (number : List UInt8) : Option UInt8 :=
  if -2 ^ 31 ≤ Scanf.atoi number ∧ Scanf.atoi number < 2 ^ 31 then
    some (UInt8.ofInt (Scanf.atoi number))
  else none

inductive AuxExit where
  | usage
  | sent (printed : CmdTypes × String) (mtext : Buffer 200)

/-- `main` up to its `msgsnd`; `none` when it leaves `cmd_array` or `str`. -/
def auxMain : List (List UInt8) → Option AuxExit
  | _ :: number :: text :: _ =>
    (auxCmd number).bind fun cmd =>
    (printCmd cmd).bind fun printed =>
    ((Buffer.zero 20).strcpy text).bind fun str =>
    str.cstr.bind fun s =>
    ((Buffer.zero 200).write 0
      [cmd, UInt8.ofInt s.length, UInt8.ofInt ((s.length : Int) >>> (4 : Nat))]).bind fun mtext =>
    (mtext.memmove 3 str 0 s.length).map fun mtext => .sent printed mtext
  | _ => some .usage

/-- `msgrcv` of a message of 200 bytes into the 300 of `msg`. -/
def shortRcv (mtext : Buffer 200) (msg : Buffer 300) : Buffer 300 :=
  ⟨mtext.bytes ++ msg.bytes.drop 200, by simp⟩

theorem shortRcv_bytes (mtext : Buffer 200) (msg : Buffer 300) :
    (shortRcv mtext msg).bytes = mtext.bytes ++ msg.bytes.drop 200 := rfl

/-- What happens on the client's machine. -/
inductive HostEvent where
  | act (a : Action)
  /-- A run of `aux_client2a`, with the `msg` that its message will be received in. -/
  | aux (argv : List (List UInt8)) (msg : Buffer 300)

/-- One step; `msgget` gives `aux_client2a` the queue of `thread_client.c`. -/
def hostStep (build : Build) (clientName : CString 30) (mainQid : Nat) (p : Pipeline) :
    HostEvent → Option Pipeline
  | .act a => act build clientName mainQid p a
  | .aux argv msg =>
    (auxMain argv).map fun r =>
      match r with
      | .usage => p
      | .sent _ mtext => (msgsnd p mainQid ⟨shortRcv mtext msg, .host⟩).getD p

theorem cmdArray_code (c : CmdTypes) : (cmdArray[c.code.toNat]?).map Prod.fst = some c := by
  cases c <;> rfl

theorem code_injective : Function.Injective CmdTypes.code := by
  intro c d h
  have hc := cmdArray_code c
  rw [h, cmdArray_code d] at hc
  exact (Option.some.inj hc).symm

theorem printCmd_isSome (cmd : UInt8) : (printCmd cmd).isSome ↔ cmd < noCmds := by
  rw [printCmd, isSome_getElem?, UInt8.lt_iff_toNat_lt]
  rfl

theorem printCmd_fst {cmd : UInt8} {printed : CmdTypes × String}
    (h : printCmd cmd = some printed) : printed.1.code = cmd := by
  have hall : ∀ i : Fin 75, ∀ e ∈ cmdArray[i.val]?, e.1.code.toNat = i.val := by
    decide
  have hcmd : cmd.toNat < 75 := UInt8.lt_iff_toNat_lt.mp ((printCmd_isSome cmd).mp (h ▸ rfl))
  exact UInt8.toNat_inj.mp (hall ⟨cmd.toNat, hcmd⟩ printed h)

section Message

variable {program number text : List UInt8} {more : List (List UInt8)}

/-- A command line that `main` can handle. -/
structure AuxFits (number text : List UInt8) : Prop where
  int : -2 ^ 31 ≤ Scanf.atoi number ∧ Scanf.atoi number < 2 ^ 31
  named : UInt8.ofInt (Scanf.atoi number) < noCmds
  short : text.length < 20

theorem auxMain_fits (h : AuxFits number text) (htext : 0 ∉ text) :
    ∃ printed mtext, auxMain (program :: number :: text :: more) = some (.sent printed mtext) ∧
      printed.1.code = UInt8.ofInt (Scanf.atoi number) ∧
      mtext.bytes = UInt8.ofInt (Scanf.atoi number) :: UInt8.ofInt text.length ::
        UInt8.ofInt ((text.length : Int) >>> (4 : Nat)) :: text ++
          List.replicate (197 - text.length) 0 := by
  have hcmd : auxCmd number = some (UInt8.ofInt (Scanf.atoi number)) := if_pos h.int
  obtain ⟨printed, hprinted⟩ := Option.isSome_iff_exists.mp ((printCmd_isSome _).mpr h.named)
  have hshort := h.short
  obtain ⟨str, hstr, hstrBytes⟩ := (Buffer.zero 20).strcpy_bytes hshort
  have htake : str.bytes.take text.length = text := by
    rw [hstrBytes, List.take_left]
  obtain ⟨head, hhead, hheadBytes⟩ := @Buffer.write_zero _ (Buffer.zero 200)
    [UInt8.ofInt (Scanf.atoi number), UInt8.ofInt text.length,
      UInt8.ofInt ((text.length : Int) >>> (4 : Nat))] (by simp)
  obtain ⟨mtext, hmtext, hmtextBytes⟩ :=
    @Buffer.memmove_eq_some _ _ head str 3 0 text.length
      (by rw [Access.inBounds_mk]; omega) (by rw [Access.inBounds_mk]; omega)
  refine ⟨printed, mtext, ?_, printCmd_fst hprinted, ?_⟩
  · simp only [auxMain, hcmd, hprinted, hstr, Buffer.cstr_of_append hstrBytes htext, hhead, hmtext,
      Option.bind_some, Option.map_some]
  · have hthree : Int.toNat 3 = 3 := rfl
    rw [hmtextBytes, hheadBytes, Buffer.zero_bytes, List.drop_replicate, hthree, Nat.add_comm 3]
    simp only [Int.toNat_zero, Int.toNat_natCast, List.drop_zero, htake, List.cons_append,
      List.nil_append, List.take_succ_cons, List.take_zero, List.drop_succ_cons,
      List.drop_replicate, List.length_cons, List.length_nil]

theorem auxMain_sent {argv : List (List UInt8)} {printed : CmdTypes × String}
    {mtext : Buffer 200} (h : auxMain argv = some (.sent printed mtext)) :
    ∃ program number text more, argv = program :: number :: text :: more ∧
      ∀ msg, (shortRcv mtext msg).get 0 = UInt8.ofInt (Scanf.atoi number) := by
  unfold auxMain at h
  split at h
  · rename_i program number text more
    obtain ⟨cmd, hcmd, hnamed⟩ := Option.bind_eq_some_iff.mp h
    obtain ⟨entry, -, hcopied⟩ := Option.bind_eq_some_iff.mp hnamed
    obtain ⟨str, -, hended⟩ := Option.bind_eq_some_iff.mp hcopied
    obtain ⟨s, -, hpacked⟩ := Option.bind_eq_some_iff.mp hended
    obtain ⟨head, hhead, hmoved⟩ := Option.bind_eq_some_iff.mp hpacked
    obtain ⟨c, hc, hsent⟩ := Option.map_eq_some_iff.mp hmoved
    cases hsent
    obtain ⟨hsrc, hdst⟩ := Buffer.memmove_isSome.mp (Option.isSome_iff_exists.mpr ⟨mtext, hc⟩)
    obtain ⟨moved, hmoved, hbytes⟩ := Buffer.memmove_eq_some head str hsrc hdst
    rw [hc] at hmoved
    cases hmoved
    refine ⟨program, number, text, more, rfl, fun msg => ?_⟩
    rw [Buffer.get_eq_getD, shortRcv_bytes, hbytes, Buffer.write_bytes hhead]
    unfold auxCmd at hcmd
    split at hcmd
    · cases hcmd
      rfl
    · cases hcmd
  · cases h

theorem auxMain_isSome (htext : 0 ∉ text) :
    (auxMain (program :: number :: text :: more)).isSome ↔ AuxFits number text := by
  constructor
  · intro h
    obtain ⟨r, hr⟩ := Option.isSome_iff_exists.mp h
    obtain ⟨cmd, hcmd, hafter⟩ := Option.bind_eq_some_iff.mp hr
    obtain ⟨printed, hprinted, hcopied⟩ := Option.bind_eq_some_iff.mp hafter
    obtain ⟨str, hstr, -⟩ := Option.bind_eq_some_iff.mp hcopied
    unfold auxCmd at hcmd
    split at hcmd
    · rename_i hint
      cases hcmd
      constructor
      · exact hint
      · exact (printCmd_isSome _).mp (hprinted ▸ rfl)
      · by_contra hlong
        rw [Buffer.strcpy_overruns (Buffer.zero 20) (Nat.le_of_not_lt hlong)] at hstr
        cases hstr
    · cases hcmd
  · intro h
    obtain ⟨printed, mtext, hmain, -⟩ := @auxMain_fits program number text more h htext
    rw [hmain]
    rfl

/-- The length and the text come out of the shorter message whatever `msg` held. -/
theorem hostUnpack_shortRcv {cmd : UInt8} {mtext : Buffer 200} (hshort : text.length < 20)
    (hbytes : mtext.bytes = cmd :: UInt8.ofInt text.length ::
      UInt8.ofInt ((text.length : Int) >>> (4 : Nat)) :: text ++
        List.replicate (197 - text.length) 0) (msg : Buffer 300) :
    ∃ tempx, hostUnpack (shortRcv mtext msg) = some (cmd, text.length, tempx) ∧
      tempx.bytes = text ++ List.replicate (255 - text.length) 0 := by
  have hrcv : (shortRcv mtext msg).bytes = cmd :: UInt8.ofInt text.length ::
      UInt8.ofInt ((text.length : Int) >>> (4 : Nat)) :: text ++
        (List.replicate (197 - text.length) 0 ++ msg.bytes.drop 200) := by
    rw [shortRcv_bytes, hbytes, List.append_assoc]
  exact hostUnpack_eq hrcv (packed_len (by omega)) (by omega)

theorem queued_frame {cmd : UInt8} (hclosed : cmd ≠ CmdTypes.disconnect.code)
    (hstatus : cmd ≠ CmdTypes.sendStatus.code) (hfit : text.length ≤ 49)
    (clientName : CString 30) (stale : Stale 10) (tempx : Buffer 50) (rest : List UInt8) :
    ∃ received moved queued unpacked,
      receive stale tempx (Server.frame (cmd, text) ++ rest) =
        some ((text.length : Int), received, rest) ∧
      listenTurn clientName text.length received = some (moved, .queued queued) ∧
      hostUnpack queued = some (cmd, text.length, unpacked) ∧
      unpacked.bytes = text ++ List.replicate (255 - text.length) 0 := by
  obtain ⟨received, hreceived, hbytes⟩ := receive_frame stale tempx cmd text rest hfit
  obtain ⟨moved, queued, hpack, hqueued⟩ := packQueue_eq hbytes
  have hcmd : received.get 0 = cmd := by
    rw [Buffer.get_eq_getD, hbytes]
    rfl
  obtain ⟨unpacked, hunpack, htext⟩ := hostUnpack_eq hqueued (packed_len (by omega)) (by omega)
  refine ⟨received, moved, queued, unpacked, hreceived, ?_, hunpack, htext⟩
  simp only [listenTurn, hcmd, if_neg hclosed, if_neg hstatus, hpack, Option.map_some]

end Message

/-- For every command line, `main` stays inside its arrays exactly for the number of a command
in the table and a text of less than 20 bytes. The message then has the command that is printed,
and whatever `msg` held before, `get_host_cmd_task` unpacks from it what it unpacks from a frame
of the server with this command and text. -/
theorem aux_commands (program number text : List UInt8) (more : List (List UInt8))
    (htext : 0 ∉ text) :
    ((auxMain (program :: number :: text :: more)).isSome ↔ AuxFits number text) ∧
    (AuxFits number text → ∃ printed mtext,
      auxMain (program :: number :: text :: more) = some (.sent printed mtext) ∧
      printed.1.code = UInt8.ofInt (Scanf.atoi number) ∧
      ∀ msg : Buffer 300, ∃ unpacked,
        hostUnpack (shortRcv mtext msg) = some (printed.1.code, text.length, unpacked) ∧
        unpacked.cstr = some text ∧
        (printed.1 ≠ .disconnect → printed.1 ≠ .sendStatus →
          ∀ clientName stale (tempx : Buffer 50) rest, ∃ received moved queued,
            receive stale tempx (Server.frame (printed.1.code, text) ++ rest) =
              some ((text.length : Int), received, rest) ∧
            listenTurn clientName text.length received = some (moved, .queued queued) ∧
            hostUnpack queued = hostUnpack (shortRcv mtext msg))) := by
  refine ⟨auxMain_isSome htext, fun hfits => ?_⟩
  obtain ⟨printed, mtext, hmain, hprinted, hbytes⟩ :=
    @auxMain_fits program number text more hfits htext
  have hshort := hfits.short
  refine ⟨printed, mtext, hmain, hprinted, fun msg => ?_⟩
  obtain ⟨unpacked, hunpack, htexts⟩ := hostUnpack_shortRcv hshort (hprinted ▸ hbytes) msg
  refine ⟨unpacked, hunpack, ?_, fun hclosed hstatus clientName stale tempx rest => ?_⟩
  · have hnul : 255 - text.length = (254 - text.length) + 1 := by
      omega
    rw [hnul, List.replicate_succ] at htexts
    exact Buffer.cstr_of_append htexts htext
  · have hcode {c : CmdTypes} (hc : printed.1 ≠ c) : printed.1.code ≠ c.code :=
      fun heq => hc (code_injective heq)
    obtain ⟨received, moved, queued, unpacked', hreceived, hturn, hqueued, hsame⟩ :=
      queued_frame (hcode hclosed) (hcode hstatus) (by omega : text.length ≤ 49) clientName stale
        tempx rest
    refine ⟨received, moved, queued, hreceived, hturn, ?_⟩
    have heq : unpacked' = unpacked := Buffer.ext (hsame.trans htexts.symm)
    rw [hqueued, hunpack, heq]

/-- `aux_client2a 25 ON`. -/
theorem aux_commands_cabin :
    ∃ printed mtext, auxMain [[97], [50, 53], [79, 78]] = some (.sent printed mtext) ∧
      printed.1 = .cabinSouth ∧
      ∃ unpacked, hostUnpack (shortRcv mtext (.zero 300)) =
        some (CmdTypes.cabinSouth.code, 2, unpacked) := by
  have hfits : AuxFits [50, 53] [79, 78] := ⟨by decide, by decide, by decide⟩
  obtain ⟨printed, mtext, hmain, hprinted, hreceived⟩ :=
    (aux_commands [97] [50, 53] [79, 78] [] (by decide)).2 hfits
  obtain ⟨unpacked, hunpack, -⟩ := hreceived (.zero 300)
  have hcode : printed.1.code = CmdTypes.cabinSouth.code := hprinted.trans (by decide)
  exact ⟨printed, mtext, hmain, code_injective hcode, unpacked, hcode ▸ hunpack⟩

end TcpIot.Client
