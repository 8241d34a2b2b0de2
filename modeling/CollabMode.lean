import CollabMode.Lib.Grid
import CollabMode.Lib.Tombstone
import CollabMode.Lib.AssocMap
import CollabMode.Lib.Run
import CollabMode.Lib.Outstanding
import CollabMode.Lib.UnixPath
import CollabMode.Lib.Sessions
import CollabMode.Lib.Registry
import CollabMode.Op
import CollabMode.OpSemantics
import CollabMode.Edits
import CollabMode.InternalDoc
import CollabMode.Ranges
import CollabMode.DocCursor
import CollabMode.DocMark
import CollabMode.DocRefine
import CollabMode.Engine
import CollabMode.EngineSpec
import CollabMode.UndoQueue
import CollabMode.StopAndWait
import CollabMode.Docs
import CollabMode.DocsSpec
import CollabMode.Passing
import CollabMode.System
import CollabMode.Ack
import CollabMode.Mirror
import CollabMode.Convergence
import CollabMode.TwoLevel
import CollabMode.World
import CollabMode.Messages
import CollabMode.Server
import CollabMode.RemoteHandlers
import CollabMode.EditorHandlers
import CollabMode.FixWorld
import CollabMode.Frames
import CollabMode.LeftAlone
import CollabMode.Transport
import CollabMode.Turns
import CollabMode.Creation
import CollabMode.Calls
import CollabMode.Gating
import CollabMode.Confinement
import CollabMode.Batches
import CollabMode.Delivery
import CollabMode.Opening
import CollabMode.Names
import CollabMode.Naming
import CollabMode.Hosting
import CollabMode.Following
import CollabMode.Framing
import CollabMode.Registration
import CollabMode.Worker
import CollabMode.Bindings
import CollabMode.SameShown
import CollabMode.SignalingClient
import CollabMode.EditTracking
import CollabMode.Replying
import CollabMode.Books
import CollabMode.Answering
import CollabMode.Network
import CollabMode.Positions
import CollabMode.Undoing
import CollabMode.Recording
import CollabMode.Feeding
import CollabMode.Preview
import CollabMode.Validating
import CollabMode.Redoing
import CollabMode.Resetting
import CollabMode.Moving
import CollabMode.Changes
import CollabMode.Attempts
import CollabMode.Refusals
import CollabMode.Subscriptions
import CollabMode.Streams
import CollabMode.Notifying
import CollabMode.Announcing
import CollabMode.Filenames
import CollabMode.SendingOps
import CollabMode.TwoMaps
import CollabMode.Outcomes
import CollabMode.Settling
import CollabMode.Sending
import CollabMode.Sequencing
import CollabMode.Watching
import CollabMode.Replicas
import CollabMode.SiteIds
import CollabMode.Serving
import CollabMode.Embedding
import CollabMode.ServerConvergence
import CollabMode.Lib.CatchUp
import CollabMode.Updates
import CollabMode.Quiescence
