import NbiotXY1100.GregorianCalendar
import NbiotXY1100.RtcCalendar
import NbiotXY1100.RtcAlarm
import NbiotXY1100.StepRuns
import NbiotXY1100.RtcEventList
import NbiotXY1100.PassthroughQuit
import NbiotXY1100.CyclicBuffer
import NbiotXY1100.IpcRingBuffer
import NbiotXY1100.IpcChannel
import NbiotXY1100.AtParam
import NbiotXY1100.AtParamRoundTrip
import NbiotXY1100.AtEscapedParam
import NbiotXY1100.AtRequestRouting
import NbiotXY1100.AtLineFraming
import NbiotXY1100.FlashAdapt
import NbiotXY1100.FlashOverwrite
import NbiotXY1100.ByteBuffers
import NbiotXY1100.XyFlash
import NbiotXY1100.EftlStore
import NbiotXY1100.EftlPages
import NbiotXY1100.EftlPowerLoss
import NbiotXY1100.FlashRanges
import NbiotXY1100.FotaDownload
import NbiotXY1100.FotaRegion
import NbiotXY1100.FotaResume
import NbiotXY1100.AtcTask
import NbiotXY1100.AtcCascade
import NbiotXY1100.AtcSerialization
import NbiotXY1100.AtSocketContext
import NbiotXY1100.AtSocketOpen
import NbiotXY1100.AtSocketSend
import NbiotXY1100.NetAppResume
import NbiotXY1100.UdpDeepSleep
import NbiotXY1100.RtcAlarmDeadline
import NbiotXY1100.SimAtr
import NbiotXY1100.SimAtrReception
import NbiotXY1100.SimActivation
import NbiotXY1100.SimT0
import NbiotXY1100.SimT0Exchange
import NbiotXY1100.SimT0Command
import NbiotXY1100.SimT0Interrupt
import NbiotXY1100.CdpDownstream
import NbiotXY1100.CdpDownstreamRuns
import NbiotXY1100.OnenetBackup
import NbiotXY1100.OnenetBackupResume
import NbiotXY1100.CdpBackup
import NbiotXY1100.CdpBackupResume
import NbiotXY1100.LpmDeepsleep
import NbiotXY1100.LpmStandby
import NbiotXY1100.LowPowerEntry
import NbiotXY1100.LpmGivenUp
import NbiotXY1100.CdpUpstream
import NbiotXY1100.CdpUpstreamRuns
import NbiotXY1100.Heap6
import NbiotXY1100.Heap6FreeList
import NbiotXY1100.Heap6Integrity
import NbiotXY1100.FotaCheck
import NbiotXY1100.NetworkTime
import NbiotXY1100.AtContext
import NbiotXY1100.EscapeBuffer
import NbiotXY1100.SoftSampler
import NbiotXY1100.SoftSamplerWaveform
import NbiotXY1100.HeaderSpace
import NbiotXY1100.AtcParameters
import NbiotXY1100.HexStrParameter
import NbiotXY1100.DecimalParameter
import NbiotXY1100.InetPton
import NbiotXY1100.Ipv6Grammar
import NbiotXY1100.Ipv6Parser
import NbiotXY1100.OutputAddrIpv6
import NbiotXY1100.Heap6Regions
import NbiotXY1100.TickCompensation
import NbiotXY1100.FotaByHttp
import NbiotXY1100.FotaByHttpHeader
import NbiotXY1100.FotaByHttpSegments
import NbiotXY1100.EftlChoose
import NbiotXY1100.DiagFraming
import NbiotXY1100.DiagResync
import NbiotXY1100.AtSocketBuffer
import NbiotXY1100.AtSocketFifo
import NbiotXY1100.DiagMemDump
import NbiotXY1100.DiagMemDumpPackets
import NbiotXY1100.OnenetConfig
import NbiotXY1100.OnenetConfigRuns
import NbiotXY1100.DiagFormat
import NbiotXY1100.DiagFormatItems
import NbiotXY1100.DiagFormatPacking
import NbiotXY1100.DiagFormatRecovery
import NbiotXY1100.CoapRetransmit
import NbiotXY1100.MqttPacket
import NbiotXY1100.MqttStream
import NbiotXY1100.StepSimulation
import NbiotXY1100.TaskClock
import NbiotXY1100.TaskTimeouts
import NbiotXY1100.TaskWake
import NbiotXY1100.WorkLock
import NbiotXY1100.BigEndian
import NbiotXY1100.LwmTlv
import NbiotXY1100.CoapBlock1
import NbiotXY1100.CircularList
import NbiotXY1100.KernelLists
