import Mjlib.Base.Crc
import Mjlib.Base.Equiv.InplaceFunction
import Mjlib.Base.Equiv.Json5ReadArchive
import Mjlib.Base.Equiv.Json5ReadArchive.Blanks
import Mjlib.Base.Equiv.Json5ReadArchive.Comments
import Mjlib.Base.Equiv.Json5ReadArchive.Inserted
import Mjlib.Base.Equiv.Json5ReadArchive.InsertedTokens
import Mjlib.Base.Equiv.Json5ReadArchive.InsertedValues
import Mjlib.Base.Equiv.Json5ReadArchive.Integers
import Mjlib.Base.Equiv.Json5ReadArchive.Vectors
import Mjlib.Base.Equiv.Json5WriteArchive
import Mjlib.Base.Equiv.Json5WriteArchive.Codecs
import Mjlib.Base.Equiv.Json5WriteArchive.Standard
import Mjlib.Base.Equiv.Json5WriteArchive.Tokens
import Mjlib.Base.Equiv.Strtol
import Mjlib.Base.Equiv.ThreadWriter
import Mjlib.Base.EscapeJsonString
import Mjlib.Base.InplaceFunction
import Mjlib.Base.Json5ReadArchive
import Mjlib.Base.Json5ReadValue
import Mjlib.Base.Json5WriteArchive
import Mjlib.Base.PID
import Mjlib.Base.Ptime
import Mjlib.Base.Snprintf
import Mjlib.Base.Stream
import Mjlib.Base.Strtol
import Mjlib.Base.ThreadWriter
import Mjlib.Base.ThreadWriterRun
import Mjlib.Base.Tokenizer
import Mjlib.Base.WindowedAverage
import Mjlib.Io.Equiv.ExclusiveCommand
import Mjlib.Io.ExclusiveCommand
import Mjlib.Io.ExclusiveCommandRun
import Mjlib.Io.OffsetBuffer
import Mjlib.Lib.Base128
import Mjlib.Lib.Incremental
import Mjlib.Lib.IntegerType
import Mjlib.Lib.Json
import Mjlib.Lib.Listed
import Mjlib.Lib.LittleEndian
import Mjlib.Lib.ParentPointers
import Mjlib.Lib.Precondition
import Mjlib.Lib.Resync
import Mjlib.Lib.RingBuffer
import Mjlib.Lib.RoundRobin
import Mjlib.Lib.Run
import Mjlib.Lib.SameOutcome
import Mjlib.Lib.Simulates
import Mjlib.Lib.SortedMap
import Mjlib.Micro.AsyncExclusive
import Mjlib.Micro.AtomicEventQueue
import Mjlib.Micro.CommandManager
import Mjlib.Micro.EnumerateArchive
import Mjlib.Micro.Equiv.AsyncExclusive
import Mjlib.Micro.Equiv.AsyncExclusive.Order
import Mjlib.Micro.Equiv.AtomicEventQueue
import Mjlib.Micro.Equiv.CommandManager.Framing
import Mjlib.Micro.Equiv.CommandManager.SingleRead
import Mjlib.Micro.Equiv.EnumerateArchive
import Mjlib.Micro.Equiv.ItemArchive
import Mjlib.Micro.Equiv.PersistentConfig
import Mjlib.Micro.Equiv.PersistentConfig.Isolation
import Mjlib.Micro.Equiv.PersistentConfig.Write
import Mjlib.Micro.Equiv.SerializableHandler
import Mjlib.Micro.Equiv.StreamPipe
import Mjlib.Micro.Equiv.StreamPipe.Inv
import Mjlib.Micro.Equiv.StreamPipe.Status
import Mjlib.Micro.Equiv.TelemetryManager
import Mjlib.Micro.Equiv.TelemetryManager.Fair
import Mjlib.Micro.Equiv.TelemetryManager.Periodic
import Mjlib.Micro.Flash
import Mjlib.Micro.ItemArchive
import Mjlib.Micro.PersistentConfig
import Mjlib.Micro.PoolMap
import Mjlib.Micro.StreamPipe
import Mjlib.Micro.TelemetryManager
import Mjlib.Multiplex.Equiv.FdcanusbFrameStream
import Mjlib.Multiplex.Equiv.FdcanusbFrameStream.Lines
import Mjlib.Multiplex.Equiv.Frame
import Mjlib.Multiplex.Equiv.FrameRead
import Mjlib.Multiplex.Equiv.MicroServer.Answered
import Mjlib.Multiplex.Equiv.MicroServer.Buffer
import Mjlib.Multiplex.Equiv.MicroServer.Lockstep
import Mjlib.Multiplex.Equiv.MicroServer.Loop
import Mjlib.Multiplex.Equiv.MicroServer.NoResponse
import Mjlib.Multiplex.Equiv.MicroServer.Padding
import Mjlib.Multiplex.Equiv.MicroServer.Pass
import Mjlib.Multiplex.Equiv.MicroServer.RegisterRpc
import Mjlib.Multiplex.Equiv.MicroServer.ResponseLength
import Mjlib.Multiplex.Equiv.MicroServer.ResponseSize
import Mjlib.Multiplex.Equiv.MicroServer.Subframe
import Mjlib.Multiplex.Equiv.MicroServer.TunnelData
import Mjlib.Multiplex.Equiv.MicroServer.TunnelReads
import Mjlib.Multiplex.Equiv.MicroServer.TunnelWrites
import Mjlib.Multiplex.Equiv.MicroStreamDatagram.Chunking
import Mjlib.Multiplex.Equiv.MicroStreamDatagram.NeverStalls
import Mjlib.Multiplex.Equiv.MicroStreamDatagram.Offered
import Mjlib.Multiplex.Equiv.MicroStreamDatagram.Resync
import Mjlib.Multiplex.Equiv.MicroStreamDatagram.RoundTrip
import Mjlib.Multiplex.Equiv.MicroStreamDatagram.TryEmitOneFrame
import Mjlib.Multiplex.Equiv.MultiplexProtocol
import Mjlib.Multiplex.Equiv.MultiplexProtocol.Poll
import Mjlib.Multiplex.Equiv.MultiplexProtocol.Write
import Mjlib.Multiplex.Equiv.Register
import Mjlib.Multiplex.Equiv.Register.AnyBytes
import Mjlib.Multiplex.Equiv.Response
import Mjlib.Multiplex.Equiv.Resync
import Mjlib.Multiplex.Equiv.Rs485FrameStream
import Mjlib.Multiplex.Equiv.Rs485FrameStream.ParseFrame
import Mjlib.Multiplex.Equiv.Stream
import Mjlib.Multiplex.Equiv.StreamAsioClient.Carried
import Mjlib.Multiplex.Equiv.StreamAsioClient.Carries
import Mjlib.Multiplex.Equiv.StreamAsioClient.Coherent
import Mjlib.Multiplex.Equiv.StreamAsioClient.Delivered
import Mjlib.Multiplex.Equiv.StreamAsioClient.Keeps
import Mjlib.Multiplex.Equiv.StreamAsioClient.LockHeld
import Mjlib.Multiplex.Equiv.StreamAsioClient.Logged
import Mjlib.Multiplex.Equiv.StreamAsioClient.Quiet
import Mjlib.Multiplex.Equiv.StreamAsioClient.ReadHandlers
import Mjlib.Multiplex.Equiv.StreamAsioClient.Replies
import Mjlib.Multiplex.Equiv.StreamAsioClient.Undisturbed
import Mjlib.Multiplex.Equiv.StreamAsioClient.WriteHandlers
import Mjlib.Multiplex.FdcanusbFrameStream
import Mjlib.Multiplex.Format
import Mjlib.Multiplex.Frame
import Mjlib.Multiplex.FrameRead
import Mjlib.Multiplex.MicroServer
import Mjlib.Multiplex.MicroServerBuffer
import Mjlib.Multiplex.MicroServerRun
import Mjlib.Multiplex.MicroStreamDatagram
import Mjlib.Multiplex.MultiplexProtocol
import Mjlib.Multiplex.Register
import Mjlib.Multiplex.ReplySubframe
import Mjlib.Multiplex.RequestSubframe
import Mjlib.Multiplex.Rs485FrameStream
import Mjlib.Multiplex.Stream
import Mjlib.Multiplex.StreamAsioBuffers
import Mjlib.Multiplex.StreamAsioBus
import Mjlib.Multiplex.StreamAsioClient
import Mjlib.Telemetry.BinaryReadArchive
import Mjlib.Telemetry.BinarySchemaParser
import Mjlib.Telemetry.BinaryWriteArchive
import Mjlib.Telemetry.ElementIterator
import Mjlib.Telemetry.EmitJson
import Mjlib.Telemetry.Equiv.BinaryReadArchive
import Mjlib.Telemetry.Equiv.BinaryReadArchive.Skim
import Mjlib.Telemetry.Equiv.BinarySchemaParser
import Mjlib.Telemetry.Equiv.BinarySchemaParser.Accepts
import Mjlib.Telemetry.Equiv.BinarySchemaParser.Grammar
import Mjlib.Telemetry.Equiv.BinarySchemaParser.Ignore
import Mjlib.Telemetry.Equiv.BinarySchemaParser.Instance
import Mjlib.Telemetry.Equiv.ElementIterator
import Mjlib.Telemetry.Equiv.EmitJson
import Mjlib.Telemetry.Equiv.FileReader.Blocks
import Mjlib.Telemetry.Equiv.FileReader.Clean
import Mjlib.Telemetry.Equiv.FileReader.Cut
import Mjlib.Telemetry.Equiv.FileReader.Ends
import Mjlib.Telemetry.Equiv.FileReader.EndsBlocks
import Mjlib.Telemetry.Equiv.FileReader.EndsItems
import Mjlib.Telemetry.Equiv.FileReader.Filtered
import Mjlib.Telemetry.Equiv.FileReader.FindSeekMarker
import Mjlib.Telemetry.Equiv.FileReader.IndexPath
import Mjlib.Telemetry.Equiv.FileReader.Items
import Mjlib.Telemetry.Equiv.FileReader.Moves
import Mjlib.Telemetry.Equiv.FileReader.Open
import Mjlib.Telemetry.Equiv.FileReader.Ranges
import Mjlib.Telemetry.Equiv.FileReader.Robust
import Mjlib.Telemetry.Equiv.FileReader.Seek
import Mjlib.Telemetry.Equiv.FileReader.SeekMarker
import Mjlib.Telemetry.Equiv.FileReader.Shared
import Mjlib.Telemetry.Equiv.FileReader.Streams
import Mjlib.Telemetry.Equiv.FileReader.Truncated
import Mjlib.Telemetry.Equiv.FileReader.Walk
import Mjlib.Telemetry.Equiv.FileWriter.BackLinks
import Mjlib.Telemetry.Equiv.FileWriter.Blocks
import Mjlib.Telemetry.Equiv.FileWriter.HeaderSize
import Mjlib.Telemetry.Equiv.FileWriter.Identifiers
import Mjlib.Telemetry.Equiv.FileWriter.Log
import Mjlib.Telemetry.Equiv.FileWriter.Names
import Mjlib.Telemetry.Equiv.FileWriter.Positions
import Mjlib.Telemetry.Equiv.FileWriter.Remembers
import Mjlib.Telemetry.Equiv.Format
import Mjlib.Telemetry.Equiv.Log
import Mjlib.Telemetry.Equiv.LoggedObjects
import Mjlib.Telemetry.Equiv.MappedBinaryReader
import Mjlib.Telemetry.Equiv.PyFileReader
import Mjlib.Telemetry.Equiv.Reader
import Mjlib.Telemetry.Equiv.Reader.FromBinary
import Mjlib.Telemetry.Equiv.RoundTrip
import Mjlib.Telemetry.Equiv.SameAsScan
import Mjlib.Telemetry.FileReader
import Mjlib.Telemetry.FileReaderSeek
import Mjlib.Telemetry.FileReaderShared
import Mjlib.Telemetry.FileWriter
import Mjlib.Telemetry.Format
import Mjlib.Telemetry.MappedBinaryReader
import Mjlib.Telemetry.PyFileReader
import Mjlib.Telemetry.Reader
import Mjlib.Telemetry.Types
