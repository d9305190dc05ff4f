import VlbiStreamer.Library.Transition
import VlbiStreamer.Library.LinkedList
import VlbiStreamer.ResourceTree.Branch
import VlbiStreamer.ResourceTree.Representation
import VlbiStreamer.ResourceTree.Operations
import VlbiStreamer.Library.TicketQueue
import VlbiStreamer.ResourceTree.Desk
import VlbiStreamer.ResourceTree.Threads
import VlbiStreamer.ResourceTree.Interleavings
import VlbiStreamer.ActiveFileIndex.Index
import VlbiStreamer.ActiveFileIndex.Lifecycle
import VlbiStreamer.Recorder.WriteBuffer
import VlbiStreamer.Recorder.WriteLoop
import VlbiStreamer.Sender.FileJump
import VlbiStreamer.Sender.SendLoop
import VlbiStreamer.Library.Memory
import VlbiStreamer.Receiver.Headers
import VlbiStreamer.Receiver.Resequencer
import VlbiStreamer.Receiver.Geometry
import VlbiStreamer.Receiver.Handling
import VlbiStreamer.Receiver.Placing
import VlbiStreamer.Receiver.Filling
import VlbiStreamer.Receiver.Counting
import VlbiStreamer.Receiver.Accounting
import VlbiStreamer.Receiver.Reordering
import VlbiStreamer.ActiveFileIndex.Registry
import VlbiStreamer.ActiveFileIndex.Associations
import VlbiStreamer.ActiveFileIndex.Lifetime
import VlbiStreamer.ActiveFileIndex.Capacity
import VlbiStreamer.Sender.Joining
import VlbiStreamer.Sender.CheckFiles
import VlbiStreamer.Sender.Accessors
import VlbiStreamer.Config.Options
import VlbiStreamer.Config.CheckMode
import VlbiStreamer.Config.EventStart
import VlbiStreamer.Config.RoundTrip
import VlbiStreamer.Config.Reading
import VlbiStreamer.Config.StartSafety
import VlbiStreamer.FuseIndex.Table
import VlbiStreamer.FuseIndex.Operations
import VlbiStreamer.FuseIndex.Lookup
import VlbiStreamer.FuseIndex.Deletion
import VlbiStreamer.Library.Dealing
import VlbiStreamer.TcpStream.Multistream
import VlbiStreamer.TcpStream.MultistreamSend
import VlbiStreamer.TcpStream.MultistreamReceive
import VlbiStreamer.Scheduler.Books
import VlbiStreamer.Library.Outcome
import VlbiStreamer.Scheduler.Checking
import VlbiStreamer.Scheduler.Calls
import VlbiStreamer.Scheduler.Counters
import VlbiStreamer.Scheduler.Reconciling
import VlbiStreamer.Library.Extent
import VlbiStreamer.Recorder.SingleFile
import VlbiStreamer.Recorder.Turns
import VlbiStreamer.Sender.LiveWaking
import VlbiStreamer.Sender.LiveEnding
import VlbiStreamer.Datatypes.HeaderFields
import VlbiStreamer.Metadata.Vdif
import VlbiStreamer.Datatypes.HeaderTime
import VlbiStreamer.Metadata.Checking
import VlbiStreamer.Metadata.Gaps
import VlbiStreamer.Datatypes.CheckAndFill
import VlbiStreamer.Datatypes.VdifFilling
import VlbiStreamer.FuseIndex.Reading
import VlbiStreamer.FuseIndex.Slices
import VlbiStreamer.Receiver.Sequenced
import VlbiStreamer.Receiver.Wrapping
import VlbiStreamer.Receiver.VdifNumbers
import VlbiStreamer.Receiver.VdifSequence
import VlbiStreamer.Receiver.Missing
import VlbiStreamer.ActiveFileIndex.Closing
import VlbiStreamer.Sender.Skipping
import VlbiStreamer.Sender.Boundaries
import VlbiStreamer.Sender.UdpSending
import VlbiStreamer.Recorder.SyncWriting
import VlbiStreamer.Recorder.AsyncWriting
import VlbiStreamer.Recorder.AsyncCompleting
import VlbiStreamer.Recorder.Retrying
import VlbiStreamer.Recorder.Stripping
import VlbiStreamer.Sender.Disk2file
import VlbiStreamer.FuseIndex.Stripped
import VlbiStreamer.FuseIndex.ShortSplices
import VlbiStreamer.FuseIndex.Listing
import VlbiStreamer.Library.BasicRegex
import VlbiStreamer.Sender.FileNames
import VlbiStreamer.FuseIndex.DiskIndex
import VlbiStreamer.FuseIndex.Indexing
import VlbiStreamer.Library.Monitor
import VlbiStreamer.Scheduler.Locking
import VlbiStreamer.Library.StableInsertion
import VlbiStreamer.ResourceTree.Sorted
import VlbiStreamer.Sender.RateLimit
import VlbiStreamer.ResourceTree.Membranch
import VlbiStreamer.ResourceTree.Loan
import VlbiStreamer.ResourceTree.BlockUntilFree
import VlbiStreamer.MorphToNet.Ring
import VlbiStreamer.MorphToNet.Emitting
import VlbiStreamer.Library.Gather
import VlbiStreamer.Recorder.SpliceVectors
import VlbiStreamer.Library.Variant
import VlbiStreamer.Recorder.SpliceHandshake
import VlbiStreamer.Recorder.SpliceClosing
import VlbiStreamer.Recorder.SplicePartner
import VlbiStreamer.Library.Turnout
import VlbiStreamer.TcpStream.Threads
import VlbiStreamer.TcpStream.Barrier
import VlbiStreamer.TcpStream.Interleavings
import VlbiStreamer.TcpStream.Rundown
import VlbiStreamer.TcpStream.FullRounds
import VlbiStreamer.TcpStream.ThreadMoves
import VlbiStreamer.Library.Packets
import VlbiStreamer.SpliceToNet.Datagrams
