import MlibDevel.Lib.CommonPrefix
import MlibDevel.Jam.Bytes
import MlibDevel.Jam.Csl
import MlibDevel.Jam.Cit2csl
import MlibDevel.Jam.CslFind
import MlibDevel.Jam.CslIter
import MlibDevel.Toolflow.CoreInfo
import MlibDevel.Toolflow.CoreNames
import MlibDevel.Jam.Pbuf
import MlibDevel.Jam.TftpServer
import MlibDevel.Jam.TftpTransfer
import MlibDevel.Lib.Chunks
import MlibDevel.Lib.Verilog
import MlibDevel.Wishbone.Arbiter
import MlibDevel.Verilog.WbDevice
import MlibDevel.Wishbone.MasterArbiter
import MlibDevel.Wishbone.Decode
import MlibDevel.Verilog.Immutable
import MlibDevel.Verilog.WbCompute
import MlibDevel.Verilog.WbNumbers
import MlibDevel.Verilog.WbSlots
import MlibDevel.Jam.Hex
import MlibDevel.Jam.Tapcp
import MlibDevel.Jam.TapcpWrite
import MlibDevel.Jam.TapcpOpen
import MlibDevel.Jam.HexDump
import MlibDevel.Jam.WordAccess
import MlibDevel.Jam.Regions
import MlibDevel.Jam.ReadBounds
import MlibDevel.Jam.HexText
import MlibDevel.Jam.HexLines
import MlibDevel.Jam.CslRoundTrip
import MlibDevel.Jam.HexRoundTrip
import MlibDevel.Lib.Handshake
import MlibDevel.Wishbone.RegisterSimulink2Ppc
import MlibDevel.Wishbone.RegisterPpc2Simulink
import MlibDevel.Lib.Cycles
import MlibDevel.Lib.Doubles
import MlibDevel.Wishbone.ArbiterBus
import MlibDevel.Axi4Lite.SlaveLogic
import MlibDevel.TenGbe.RxFrame
import MlibDevel.TenGbe.RxCpu
import MlibDevel.TenGbe.Tx
import MlibDevel.TenGbe.TxFrame
import MlibDevel.TenGbe.RxApp
import MlibDevel.TenGbe.RoundTrip
import MlibDevel.Lib.Layout
import MlibDevel.Verilog.WbRanges
import MlibDevel.Lib.Dict
import MlibDevel.Toolflow.MemoryMap
import MlibDevel.Toolflow.Interfaces
import MlibDevel.Toolflow.MemoryMapLayout
import MlibDevel.Jam.CslPayload
import MlibDevel.Jam.CslCalls
import MlibDevel.Jam.DevCsl
import MlibDevel.Jam.Listdev
import MlibDevel.Jam.BinaryWrite
import MlibDevel.Jam.FlashUpload
import MlibDevel.Jam.LwipHandler
import MlibDevel.CasperLibrary.Reorder
import MlibDevel.CasperLibrary.FftUnscrambler
import MlibDevel.CasperLibrary.BiRealUnscr4x
import MlibDevel.Jam.BinaryRead
import MlibDevel.Jam.Flashcmd
import MlibDevel.Jam.Spi
import MlibDevel.Jam.EthOutput
import MlibDevel.Jam.EthInput
import MlibDevel.Jam.FlashConfig
import MlibDevel.TenGbe.TxBytes
import MlibDevel.Lib.OnesComplement
import MlibDevel.TenGbe.TxChecksum
import MlibDevel.TenGbe.RxHandshake
import MlibDevel.Lib.ShiftRegister
import MlibDevel.Wishbone.SpiWbBridge
import MlibDevel.Onegbe.GbeRx
import MlibDevel.Onegbe.RxApp
import MlibDevel.Onegbe.RxBuffer
import MlibDevel.Onegbe.GbeTx
import MlibDevel.Onegbe.TxHeader
import MlibDevel.Onegbe.TxQueue
import MlibDevel.Onegbe.TxRun
import MlibDevel.Onegbe.TxSends
import MlibDevel.Onegbe.CpuAttach
import MlibDevel.Onegbe.CpuAccess
import MlibDevel.AxiWb.Bridge
import MlibDevel.AxiWb.BridgeRun
import MlibDevel.SpiMaster.Core
import MlibDevel.SpiMaster.Run
import MlibDevel.SpiMaster.Transfers
import MlibDevel.Lib.SelfSync
import MlibDevel.Lib.Parity
import MlibDevel.FortyGbe.Pkg
import MlibDevel.FortyGbe.Scrambler
import MlibDevel.FortyGbe.BlockLock
import MlibDevel.FortyGbe.BlockThrottle
import MlibDevel.FortyGbe.AmInserter
import MlibDevel.FortyGbe.AmRemover
import MlibDevel.Lib.DelayLine
import MlibDevel.FortyGbe.AmLockLane
import MlibDevel.FortyGbe.LaneDeskew
import MlibDevel.Lib.MaxWindow
import MlibDevel.Qdr.CalArea
import MlibDevel.Qdr.InDelays
import MlibDevel.Qdr.ApplyCals
import MlibDevel.Lib.Words
import MlibDevel.CasperLibrary.Doubles2Unsigned
import MlibDevel.FortyGbe.PcsEncoder
import MlibDevel.FortyGbe.PcsDecoder
import MlibDevel.FortyGbe.PcsCodec
import MlibDevel.FortyGbe.GmiiToXaui
import MlibDevel.FortyGbe.XauiOutput
import MlibDevel.FortyGbe.XauiToGmii
import MlibDevel.FortyGbe.GmiiBursts
import MlibDevel.CasperLibrary.BitReverse
import MlibDevel.CasperLibrary.ComputeOrder
import MlibDevel.Jam.TimerWait
import MlibDevel.Jam.HexNumber
import MlibDevel.Lib.Calls
import MlibDevel.Lib.KeepBest
import MlibDevel.Toolflow.FlashChecksum
import MlibDevel.Toolflow.Drc
import MlibDevel.Toolflow.ClkFactors
import MlibDevel.Toolflow.MakeFpg
import MlibDevel.Verilog.ImmutableCalls
import MlibDevel.Lib.Crc
import MlibDevel.Lib.CrcRemainder
import MlibDevel.FortyGbe.MacCrc
import MlibDevel.FortyGbe.MacTx
import MlibDevel.FortyGbe.MacLanes
import MlibDevel.FortyGbe.MacTxFrame
import MlibDevel.FortyGbe.MacRx
import MlibDevel.FortyGbe.MacRxCrc
import MlibDevel.FortyGbe.MacRxWords
import MlibDevel.FortyGbe.MacRxRun
import MlibDevel.FortyGbe.MacRxFrame
import MlibDevel.FortyGbe.MacLink
import MlibDevel.Lib.TurnMerge
import MlibDevel.FortyGbe.MacRxPath
import MlibDevel.FortyGbe.MacRxTurns
import MlibDevel.FortyGbe.MacRxMerge
import MlibDevel.Lib.StopAndWait
import MlibDevel.Jam.TftpRequest
import MlibDevel.Jam.TftpSession
import MlibDevel.Jam.TftpDownload
import MlibDevel.Jam.TapcpDownload
import MlibDevel.Jam.TftpUpload
import MlibDevel.Jam.ListdevDownload
