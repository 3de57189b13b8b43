import TcpIot.Framework.Run
import TcpIot.Framework.Sweep
import TcpIot.Framework.Buffer
import TcpIot.Framework.Calendar
import TcpIot.Framework.Mktime
import TcpIot.Framework.Framing
import TcpIot.Framework.Ascending
import TcpIot.Framework.Chain
import TcpIot.Framework.Interleaving
import TcpIot.Framework.SharedStream
import TcpIot.Wire.Commands
import TcpIot.Wire.Header
import TcpIot.Wire.Frames
import TcpIot.Wire.SharedSocket
import TcpIot.Wire.WideFrames
import TcpIot.Server.Table
import TcpIot.Server.Receive
import TcpIot.Server.Dispatch
import TcpIot.Server.WideDecode
import TcpIot.Server.System
import TcpIot.Server.SlotCount
import TcpIot.Server.Routing
import TcpIot.Server.SendSites
import TcpIot.Server.Heartbeat
import TcpIot.Server.SlotChange
import TcpIot.Server.Sweeps
import TcpIot.Server.CleanSlot
import TcpIot.Server.ListenThreads
import TcpIot.Server.Truncation
import TcpIot.Client.Listen
import TcpIot.Relay
import TcpIot.Client.Pipeline
import TcpIot.Client.Shutdown
import TcpIot.Esp32.ReadSock
import TcpIot.StatusReply
import TcpIot.Server.TimerText
import TcpIot.Queue.Ollist
import TcpIot.Queue.OllistMap
import TcpIot.Queue.OllistQuery
import TcpIot.Queue.OllistDelete
import TcpIot.Queue.OllistChange
import TcpIot.Queue.Rdwr
import TcpIot.Bounds
import TcpIot.Framework.Printf
import TcpIot.Framework.Delimited
import TcpIot.Server.Text
import TcpIot.Config.OutputFile
import TcpIot.Config.OutputRoundTrip
import TcpIot.Config.Store
import TcpIot.Config.Params
import TcpIot.Config.Xml
import TcpIot.Server.Logoff
import TcpIot.Server.StatusReports
import TcpIot.Server.DisconnectAll
import TcpIot.Server.ClientList
import TcpIot.Server.GetDest
import TcpIot.Framework.Loop
import TcpIot.Framework.Scanf
import TcpIot.Framework.Bits
import TcpIot.Io.Outputs
import TcpIot.Io.Inputs
import TcpIot.Io.NbusRoutines
import TcpIot.Io.NbusLock
import TcpIot.Io.NbusCard
import TcpIot.Esp32.Espnow
import TcpIot.Config.SpecCmds
import TcpIot.Server.ClientNames
import TcpIot.Client.SetTime
import TcpIot.Client.HostBounds
import TcpIot.Client.AuxClient
import TcpIot.Client.Relays
import TcpIot.Framework.Network
import TcpIot.Framework.Critical
import TcpIot.Queue.OllistPieces
import TcpIot.Queue.OllistThreads
import TcpIot.Framework.BoundedQueue
import TcpIot.Esp32.EspnowBasic
import TcpIot.Arduino.SenderBoard
import TcpIot.Arduino.DataClient
import TcpIot.Esp32.EspnowTask
import TcpIot.Esp32.EspnowDevice
import TcpIot.Esp32.Negotiation
import TcpIot.Esp32.TwoTasks
import TcpIot.Wire.SocketErrors
