import ZynqLinux.Axi4.Address
import ZynqLinux.Axi4.CfgRegister
import ZynqLinux.Axi4.CfgRegisterMemory
import ZynqLinux.Axi4.Copy
import ZynqLinux.Axi4.CopyDesign
import ZynqLinux.Axi4.CopyMemory
import ZynqLinux.Axi4.CopyProgram
import ZynqLinux.Axi4.Packetizer
import ZynqLinux.Axi4.RamReader
import ZynqLinux.Axi4.RamReaderAddress
import ZynqLinux.Axi4.RamReaderStream
import ZynqLinux.Axi4.RamWriter
import ZynqLinux.Axi4.RamWriterAddress
import ZynqLinux.Axi4.RamWriterBurst
import ZynqLinux.Axi4.RamWriterStream
import ZynqLinux.Axi4.ReadChannel
import ZynqLinux.Axi4.StsRegister
import ZynqLinux.Axi4Lite.LedDemo
import ZynqLinux.Dynclk.Agreement
import ZynqLinux.Dynclk.AxiDynclk
import ZynqLinux.Dynclk.Coherence
import ZynqLinux.Dynclk.Driver
import ZynqLinux.Dynclk.EndToEnd
import ZynqLinux.Dynclk.FindMode
import ZynqLinux.Dynclk.Gating
import ZynqLinux.Dynclk.Limits
import ZynqLinux.Dynclk.Mmcme2Drp
import ZynqLinux.Dynclk.Optimality
import ZynqLinux.Dynclk.S00Axi
import ZynqLinux.Hdmi.Rgb2Dvi
import ZynqLinux.Lib.Bits
import ZynqLinux.Lib.BoundedQueue
import ZynqLinux.Lib.CString
import ZynqLinux.Lib.Fifo
import ZynqLinux.Lib.History
import ZynqLinux.Lib.Numeral
import ZynqLinux.Lib.StrobedMemory
import ZynqLinux.Pmod.Cls
import ZynqLinux.Pmod.UserChar
import ZynqLinux.Pmod.UserCharRoundTrip
import ZynqLinux.Rpmsg.Device
import ZynqLinux.Rpmsg.EchoTest
import ZynqLinux.Rpmsg.Endpoint
import ZynqLinux.Rpmsg.Minors
import ZynqLinux.Rpmsg.Probe
import ZynqLinux.Rpmsg.Proxy
import ZynqLinux.Rpmsg.ProxyRpc
import ZynqLinux.Rpmsg.Stale
import ZynqLinux.Rpmsg.Stream
import ZynqLinux.Rpmsg.Wakeup
import ZynqLinux.Rpmsg.Write
