import CraySim.Lib.WordField
import CraySim.Lib.ShiftAdd
import CraySim.Types
import CraySim.Float
import CraySim.Reciprocal
import CraySim.OldReciprocal
import CraySim.ReciprocalError
import CraySim.Division
import CraySim.ExchangePacket
import CraySim.ExpDiskCreate
import CraySim.ExpDiskCreateSectors
import CraySim.ExpDiskCreateImage
import CraySim.PacketFrame
import CraySim.Lib.ByteStore
import CraySim.Lib.Program
import CraySim.Machine
import CraySim.Requests
import CraySim.Decode0000
import CraySim.Decode0040
import CraySim.Decode0100
import CraySim.Step
import CraySim.Effects
import CraySim.Transitions
import CraySim.Confinement
import CraySim.Addressing
import CraySim.FloatLaws
import CraySim.HalfPrecision
import CraySim.Products
import CraySim.FloatSum
import CraySim.FloatConversion
import CraySim.IntegerMultiply
import CraySim.VectorFloat
import CraySim.VectorShift
import CraySim.CompressedIndex
import CraySim.BitMatrix
import CraySim.BlockTransfer
import CraySim.RealTimeClock
import CraySim.InstructionLength
import CraySim.Exchange
import CraySim.Lib.TestAndSet
import CraySim.Semaphores
import CraySim.PacketContents
import CraySim.Interrupts
import CraySim.Lib.Tally
import CraySim.Clusters
import CraySim.Lib.ByteFile
import CraySim.DataSet
import CraySim.Lib.Framed
import CraySim.DataSetLayout
import CraySim.DataSetRun
import CraySim.DataSetReadBack
import CraySim.Lib.FileStream
import CraySim.DsEditBinary
import CraySim.TapFile
import CraySim.Lib.Tape
import CraySim.TapHead
import CraySim.TapMotion
import CraySim.TapRun
import CraySim.TapReadBack
import CraySim.TapChunks
import CraySim.Lib.SideBySide
import CraySim.TapSeekPair
import CraySim.TapEdit
import CraySim.PokedTapFile
import CraySim.PokedTapRun
import CraySim.IopEPacket
import CraySim.ChannelPort
import CraySim.Lib.EventRun
import CraySim.PacketChannel
import CraySim.Lib.Rendezvous
import CraySim.IopCrayChannel
import CraySim.IopBlockChannels
import CraySim.InputLimit
import CraySim.SimIopDisk
import CraySim.DiskRouting
import CraySim.IopCpu
import CraySim.Lib.DelayedEnable
import CraySim.DelayedInterrupt
import CraySim.IopShift
import CraySim.Lib.CallStack
import CraySim.IopExitStack
import CraySim.Lib.IncrementalParser
import CraySim.Concentrator
import CraySim.Lib.Observe
import CraySim.ConcentratorStream
import CraySim.ConcentratorDirections
import CraySim.ConcentratorReconnect
import CraySim.IoTransfer
import CraySim.IopBmx
import CraySim.IopChannelExp
import CraySim.IopChannelExpInterrupt
import CraySim.IopChannelExpIdentify
import CraySim.IopDisk
import CraySim.IopDiskSectors
import CraySim.IopExpDiskAmpex
import CraySim.IopExpDiskCDC
import CraySim.Lib.RingWalk
import CraySim.ReadOnlyMedia
import CraySim.SimIopDiskArray
import CraySim.SimIopEth
import CraySim.SimIopEthInput
import CraySim.SimIopEthOutput
import CraySim.Lib.HostFiles
import CraySim.Lib.Mfm
import CraySim.DiskDecode
import CraySim.DiskDecodeMfm
import CraySim.DiskDecodeExtract
import CraySim.IopBmxSpacing
import CraySim.IopExpTapeAccounting
import CraySim.IopBmxTransfer
import CraySim.TapExtractor
import CraySim.DatasetExtractor
import CraySim.DatasetExtractorRun
import CraySim.ConsoleInput
import CraySim.ConsoleOutput
import CraySim.Lib.EscapedStream
import CraySim.DiskDecodeSector
import CraySim.DiskBitStream
import CraySim.DiskMakeRuns
import CraySim.Lib.Crc
import CraySim.DiskDecodeCrc
import CraySim.DiskDecodeHeader
import CraySim.DiskDecodeBounds
import CraySim.DiskDecodeScans
import CraySim.MkfsInode
import CraySim.MkfsDirectory
import CraySim.ConsoleOptions
import CraySim.BinPatch
import CraySim.ExpDiskCreateFreeList
import CraySim.DiskDecodePhase1
import CraySim.FileChannels
import CraySim.SimIopConsole
import CraySim.ObjFileRead
import CraySim.DisasmPatch
import CraySim.OvlSplit
import CraySim.AddrStrings
import CraySim.ParserTokenize
import CraySim.FloatNormalize
import CraySim.ConfigFile
import CraySim.Lib.Turns
import CraySim.Separation
import CraySim.DataWindow
import CraySim.Lib.FirstFit
import CraySim.Lib.ExtentFile
import CraySim.MkfsMap
import CraySim.MkfsFile
import CraySim.MkfsContents
import CraySim.MkfsAppendFile
import CraySim.MkfsNode
import CraySim.MkfsSystem
import CraySim.MkfsRoom
import CraySim.MkfsCalls
import CraySim.MkfsFormat
import CraySim.MkfsEmpty
import CraySim.MkfsRead
import CraySim.MkfsRuns
import CraySim.MkfsProgram
