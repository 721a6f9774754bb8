import Compostela.Aggregator.Locality
import Compostela.Follower.Lines
import Compostela.Follower.Progress
import Compostela.Follower.Rotate
import Compostela.Follower.Run
import Compostela.Lib.Unwinding
import Compostela.Logger.Command
import Compostela.Proofs.Acknowledged
import Compostela.Proofs.AmidOthers
import Compostela.Proofs.BrokenStreams
import Compostela.Proofs.BufferQueue
import Compostela.Proofs.CatchUp
import Compostela.Proofs.ChannelIds
import Compostela.Proofs.ChannelLookup
import Compostela.Proofs.ConfigLoading
import Compostela.Proofs.Confinement
import Compostela.Proofs.ContextOrder
import Compostela.Proofs.ControlOverruns
import Compostela.Proofs.ControlStreams
import Compostela.Proofs.CurrentChannel
import Compostela.Proofs.DescriptorOwners
import Compostela.Proofs.EventDispatch
import Compostela.Proofs.EveryFile
import Compostela.Proofs.FailedGrowth
import Compostela.Proofs.FetchedBytes
import Compostela.Proofs.FieldBounds
import Compostela.Proofs.FilewatchDiff
import Compostela.Proofs.Framing
import Compostela.Proofs.HeapAccount
import Compostela.Proofs.Interruption
import Compostela.Proofs.Isolation
import Compostela.Proofs.LineSegments
import Compostela.Proofs.LoggedLines
import Compostela.Proofs.MergedOnce
import Compostela.Proofs.MergedRecords
import Compostela.Proofs.OldConnections
import Compostela.Proofs.PassDeletion
import Compostela.Proofs.PathJoiners
import Compostela.Proofs.ReceiveBounds
import Compostela.Proofs.Responses
import Compostela.Proofs.Resume
import Compostela.Proofs.ResumeDigest
import Compostela.Proofs.RetainCounts
import Compostela.Proofs.Retransmit
import Compostela.Proofs.RotateAgain
import Compostela.Proofs.Rotation
import Compostela.Proofs.RunLoopLines
import Compostela.Proofs.SilentRequests
import Compostela.Proofs.SplitLines
import Compostela.Proofs.StrandedFrames
import Compostela.Proofs.Timestamps
import Compostela.Proofs.TruncatedFrames
import Compostela.Proofs.UniqueFiles
import Compostela.Proofs.UnknownKeys
import Compostela.System.Answered
import Compostela.System.Exchange
import Compostela.System.History
import Compostela.System.Host
import Compostela.System.Link
import Compostela.System.MainLoop
import Compostela.System.Network
import Compostela.System.Pass
import Compostela.System.Shared
import Compostela.System.Socket
