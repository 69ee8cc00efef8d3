import RemoteFile.Client.Cache
import RemoteFile.Client.CacheSteps
import RemoteFile.Client.Exchanges
import RemoteFile.Client.Program
import RemoteFile.Core.Octets
import RemoteFile.Core.OnceOnly
import RemoteFile.Core.Outcome
import RemoteFile.Core.Paths
import RemoteFile.Core.Run
import RemoteFile.Core.Slice
import RemoteFile.Core.Splice
import RemoteFile.Core.Stamps
import RemoteFile.Server.AtMostOnce
import RemoteFile.Server.Confinement
import RemoteFile.Server.Decoding
import RemoteFile.Server.Delivery
import RemoteFile.Server.Edits
import RemoteFile.Server.FileSystem
import RemoteFile.Server.Monitoring
import RemoteFile.Server.Notification
import RemoteFile.Server.Retransmission
import RemoteFile.Server.Router
import RemoteFile.Server.Services
import RemoteFile.Server.SubscriptionTable
import RemoteFile.Server.Subscriptions
import RemoteFile.Server.Updates
import RemoteFile.System.Answers
import RemoteFile.System.CacheEntries
import RemoteFile.System.CachedReads
import RemoteFile.System.Coherence
import RemoteFile.System.Freshness
import RemoteFile.System.Isolation
import RemoteFile.System.Limits
import RemoteFile.System.Linearization
import RemoteFile.System.Network
import RemoteFile.System.OwnReplies
import RemoteFile.System.OwnUpdates
import RemoteFile.System.SharedFiles
import RemoteFile.System.Validation
import RemoteFile.Wire.Acceptance
import RemoteFile.Wire.ClientRequests
import RemoteFile.Wire.Format
import RemoteFile.Wire.Responses
import RemoteFile.Wire.RoundTrip
import RemoteFile.Wire.ServerRequests
import RemoteFile.Server.Algebra
import RemoteFile.Client.Monitor
import RemoteFile.Client.Prompts
import RemoteFile.Client.Endings
import RemoteFile.System.Typing
import RemoteFile.Server.Reachable
import RemoteFile.System.Sessions
import RemoteFile.System.Expiry
import RemoteFile.Core.Refinement
import RemoteFile.Server.FileService
import RemoteFile.System.Histories
import RemoteFile.Server.Survival
import RemoteFile.Server.Semantics
import RemoteFile.Server.Independence
import RemoteFile.System.Replies
import RemoteFile.System.Successes
import RemoteFile.Client.Notices
import RemoteFile.Server.Enlisting
import RemoteFile.System.Watching
import RemoteFile.Client.Survival
import RemoteFile.System.Survival
import RemoteFile.System.Failures
