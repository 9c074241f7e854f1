import Reframe.Catalog.CallableExamples
import Reframe.Memory.AtomicWrites
import Reframe.Memory.MessageOrder
import Reframe.Package.CompatibilityOrder
import Reframe.Runtime.ReplyCorrelation
import Reframe.Sdk.HostAgreement
import Reframe.Speech.InterruptSilence
import Reframe.Vfs.DirectoryListing
import Reframe.Vfs.InodeTable
import Reframe.Vfs.ScratchIsolation
import Reframe.Voice.CleanEnd
import Reframe.Workspace.RenameExact
import Reframe.Transport.FrameStream
import Reframe.Protocol.MergedLimits
import Reframe.Runtime.InvocationRegistry
import Reframe.Workspace.AtMostOnce
import Reframe.Workspace.FileRefinement
import Reframe.Workspace.RestartSafety
import Reframe.Workspace.ContentCache
import Reframe.Workspace.CheckpointRoundTrip
import Reframe.Memory.NodeSearch
import Reframe.Memory.SelectedGraph
import Reframe.Workspace.MissingWrites
import Reframe.Voice.RequestResult
import Reframe.Speech.Chunking
import Reframe.Memory.SourceResolution
import Reframe.Workspace.ScratchRules
import Reframe.Voice.UtteranceSegmenter
import Reframe.Memory.GraphRetrieval
import Reframe.Catalog.FieldSelection
import Reframe.Workspace.ParallelLoading
import Reframe.Voice.PhraseBuffer
import Reframe.Speech.TriggerPhrases
import Reframe.Voice.LiveConversation
import Reframe.Lib.ForestRanges
import Reframe.Catalog.Hierarchy
import Reframe.Catalog.Ranking
import Reframe.Catalog.EntryOrder
import Reframe.Lib.ByteParts
import Reframe.Package.Archive
import Reframe.Package.ArchiveDirectory
import Reframe.Lib.Holdings
import Reframe.Transport.Config
import Reframe.Transport.Outbound
import Reframe.Transport.StreamIntegrity
import Reframe.Transport.Permits
import Reframe.Workspace.ClientRetry
import Reframe.Memory.Publication
import Reframe.Memory.PublicationOutbox
import Reframe.Vfs.InodeNumbers
import Reframe.Vfs.OpenFiles
import Reframe.Vfs.OpenFileTable
import Reframe.Vfs.OpenHandles
