import TcpIot.Wire.Commands
import TcpIot.Wire.Frames

/-!
# The ESP32's receive task

A turn of `read_sock_task`: receive a message into `tempx`, move its text to the front, and
answer `SEND_STATUS` with the client's name.
-/

namespace TcpIot.Esp32

open Framework

/-- `client_name`: `"wifi client"`. -/
def clientName : List UInt8 := [119, 105, 102, 105, 32, 99, 108, 105, 101, 110, 116]

/-- The reads of a turn, into the `tempx` of the turn before; `none` when the task deletes
itself after a bad header or `tempx` is overrun. -/
def receive (sd : Int) (stale : Stale 10) (tempx : Buffer 100) (stream : List UInt8) :
    Option (Int × Buffer 100 × List UInt8) :=
  let header := getMsg sd stale stream
  if header.1 < 0 then none
  else
    let count := (header.1 + 1).toNat
    (tempx.write 0 (header.2.take count)).map fun tempx =>
      (header.1, tempx, header.2.drop count)

/-- `memmove(tempx,tempx+1,msg_len); tempx[msg_len] = 0;` -/
def unpack (msgLen : Int) (tempx : Buffer 100) : Option (Buffer 100) := tempx.shiftDown 1 msgLen

def unpackAccesses (msgLen : Int) : List Access := Buffer.shiftDownAccesses 100 1 msgLen

theorem unpack_isSome (msgLen : Int) (tempx : Buffer 100) :
    (unpack msgLen tempx).isSome ↔ ∀ a ∈ unpackAccesses msgLen, a.InBounds :=
  tempx.shiftDown_isSome 1 msgLen

/-- What follows the reads in a turn: `tempx` and the frame that is sent, when its `send` calls
succeed as `sendOk` says. -/
def readSockTurn (sendOk : Nat → Bool) (msgLen : Int) (tempx : Buffer 100) :
    Option (Buffer 100 × List (List UInt8)) :=
  let cmd := tempx.get 0
  (unpack msgLen tempx).bind fun text =>
    if cmd = CmdTypes.sendStatus.code then
      (text.strcpy clientName).map fun reply =>
        (reply, (sendMsg sendOk clientName.length reply.bytes CmdTypes.updateStatus.code 5).2)
    else some (text, [])

end TcpIot.Esp32
