import Mathlib.Data.UInt

/-!
# Command bytes

The enumeration `cmd_types`, in the order of the header that every program of the system
includes. The position of a command is the byte that stands for it on the wire.
-/

namespace TcpIot

inductive CmdTypes where
  | nonCmd | deskLight | eastLight | northwestLight | southeastLight | middleLight | westLight
  | northeastLight | southwestLight | waterHeater | waterValve1 | waterValve2 | waterValve3
  | waterPump | chickLight | chickHeater | bench12V1 | bench12V2 | bench5V1 | bench5V2
  | bench3V3_1 | bench3V3_2 | benchLight1 | benchLight2 | batteryHeater | cabinSouth
  | cabinFilecb | cabin3 | cabinKitchen | cabinDoor | cabinEast | cabin7 | cabin8 | coop1Light
  | coop1Heater | coop2Light | coop2Heater | outdoorLight1 | outdoorLight2 | unused150_1
  | unused150_2 | unused150_3 | unused150_4 | unused150_5 | unused150_6 | unused150_7
  | unused150_8 | unused150_9 | unused150_10 | getTemp4 | shutdownIobox | rebootIobox | setTime
  | getTime | disconnect | disconnectAll | sendTimeup | uptimeMsg | sendStatus | sendClientList
  | shellAndRename | exitToShell | updateStatus | sendMessage | setValidDs | setDsInterval
  | dllistShow | dllistSave | ds1620Msg | turnAllLightsOff | setProperties | sendMessage2
  | setClientName | sendIotValues | sendIotCmd

def CmdTypes.code (c : CmdTypes) : UInt8 := UInt8.ofNat c.ctorIdx

/-- Commands are accepted by the server up to this byte. -/
def noCmds : UInt8 := 75

/-- The test `cmd <= NO_CMDS && cmd > 0` of the server's receive loop. -/
def CmdInRange (cmd : UInt8) : Prop := cmd ≤ noCmds ∧ 0 < cmd

instance (cmd : UInt8) : Decidable (CmdInRange cmd) := inferInstanceAs (Decidable (_ ∧ _))

end TcpIot
