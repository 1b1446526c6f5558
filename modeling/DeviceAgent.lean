import DeviceAgent.Foundations.ShiftRegister
import DeviceAgent.Foundations.BitErrors
import DeviceAgent.Crc16
import DeviceAgent.Packet
import DeviceAgent.ErrorDetection
import DeviceAgent.Receiver
import DeviceAgent.FrameReception
import DeviceAgent.Foundations.Records
import DeviceAgent.PacketQueue
import DeviceAgent.Foundations.Transition
import DeviceAgent.Restart
import DeviceAgent.Acknowledgement
import DeviceAgent.TcpPort
import DeviceAgent.SendCurrentData
import DeviceAgent.Delivery
import DeviceAgent.HealthCheck
import DeviceAgent.DataSession
import DeviceAgent.ControlLoop
import DeviceAgent.AckCodec
import DeviceAgent.FrameCodec
import DeviceAgent.IdleTime
import DeviceAgent.HistoryTransfer
import DeviceAgent.ChannelNegotiation
import DeviceAgent.Foundations.Exchange
import DeviceAgent.SerialLine
import DeviceAgent.CurrentData
import DeviceAgent.QueueHistory
import DeviceAgent.NegotiationOutcome
import DeviceAgent.CommandRelay
import DeviceAgent.Resynchronisation
import DeviceAgent.Foundations.Text
import DeviceAgent.ConfigFile
import DeviceAgent.ConfigForm
import DeviceAgent.ConfigRoundTrip
import DeviceAgent.FieldIsolation
import DeviceAgent.StoredFrames
import DeviceAgent.StartByte
import DeviceAgent.Transmission
import DeviceAgent.FrameFields
import DeviceAgent.Foundations.Periods
import DeviceAgent.Timers
import DeviceAgent.BatchSending
import DeviceAgent.StatusReport
import DeviceAgent.ConfigLookup
import DeviceAgent.FormBuffers
import DeviceAgent.Foundations.Procedure
import DeviceAgent.AtResponse
import DeviceAgent.SignalLevel
import DeviceAgent.AtCommands
import DeviceAgent.ModemPower
import DeviceAgent.Foundations.Handles
import DeviceAgent.Foundations.Journal
import DeviceAgent.ModemSession
import DeviceAgent.SaveData
import DeviceAgent.PowerCuts
import DeviceAgent.SerialPort
import DeviceAgent.Sockets
import DeviceAgent.Threads
import DeviceAgent.OverlappingSaves
import DeviceAgent.Progress
import DeviceAgent.Provenance
import DeviceAgent.ConfigPage
import DeviceAgent.ConfigVisits
