import Cairn.Library.Transactions
import Cairn.Library.Results
import Cairn.Error
import Cairn.Nodes.SharedBlocks
import Cairn.Nodes.SharedBlocksInvariant
import Cairn.Nodes.SharedBlocksFrames
import Cairn.Nodes.SharedBlocksCollection
import Cairn.Nodes.SharedPublication
import Cairn.Nodes.SharedBlocksStorage
import Cairn.Library.LittleEndian
import Cairn.Storage.Lazy.Manifest
import Cairn.Storage.Lazy.Frame
import Cairn.Storage.Lazy.Index
import Cairn.Storage.Lazy.Journal
import Cairn.Storage.Lazy.Disk
import Cairn.Library.OrderedMaps
import Cairn.Library.Overlay
import Cairn.Storage.Lazy.IndexReplay
import Cairn.Storage.Lazy.Overlapping
import Cairn.Storage.Lazy.Log
import Cairn.Storage.Lazy.Scan
import Cairn.Storage.Lazy.Segments
import Cairn.Storage.Lazy.Recovery
import Cairn.Storage.Lazy.Refinement
import Cairn.Storage.Lazy.Appending
import Cairn.Storage.Lazy.FrameWrites
import Cairn.Storage.Lazy.Expansion
import Cairn.Storage.Lazy.Reading
import Cairn.Library.HashMaps
import Cairn.Protocol.Direct
import Cairn.Protocol.DirectCapacity
import Cairn.Beacon.Access
import Cairn.Protocol.DirectVerification
import Cairn.Protocol.DataChannel
import Cairn.Protocol.Reassembly
import Cairn.Protocol.Packets
import Cairn.Protocol.Transfers
import Cairn.Library.Steps
import Cairn.Nodes.DiskGrants
import Cairn.Nodes.Publication
import Cairn.Nodes.PublicationDemand
import Cairn.Accounts.Record
import Cairn.Accounts.Pool
import Cairn.Accounts.Updates
import Cairn.Accounts.Leases
import Cairn.Library.Records
import Cairn.Nodes.RemoteKeys
import Cairn.Nodes.Placement
import Cairn.Nodes.PlacementCapacity
import Cairn.Nodes.PlacementVolumes
import Cairn.Worker.Runs
import Cairn.Chats.Messages
import Cairn.Chats.Turns
import Cairn.Worker.Control
import Cairn.Chats.Conversation
import Cairn.Chats.Lifecycle
import Cairn.Chats.Deletion
import Cairn.Nodes.RemoteCoverage
import Cairn.Worker.Schedule
import Cairn.Worker.Checkouts
import Cairn.Worker.RetryBudget
import Cairn.Storage.EnvironmentOwnership
import Cairn.Storage.BlockQueueSerial
import Cairn.Storage.ResizingRuns
import Cairn.Chats.Questions
import Cairn.Chats.Answers
import Cairn.Chats.Cleanup
import Cairn.Chats.TrashIsolation
import Cairn.Chats.Purging
import Cairn.Chats.QueueLimit
import Cairn.Library.Lists
import Cairn.Library.Faults
import Cairn.Accounts.Resets
import Cairn.Accounts.ResetHistory
import Cairn.Accounts.ResetsSpentOnce
import Cairn.Live.TextDeltas
import Cairn.Live.Snapshots
import Cairn.Live.Session
import Cairn.Live.Rows
import Cairn.Live.Reconstruction
import Cairn.Live.Settled
import Cairn.Live.Pages
import Cairn.Live.Viewers
import Cairn.Live.Folding
import Cairn.Accounts.Credentials
import Cairn.Accounts.CredentialsKept
import Cairn.Protocol.DecoderTracking
import Cairn.Protocol.TransferSlots
import Cairn.Protocol.ContainedTransfers
import Cairn.Protocol.DirectChannel
import Cairn.Protocol.DirectLink
import Cairn.Protocol.DirectLinkOrder
import Cairn.Protocol.DirectLinkSends
import Cairn.Protocol.DirectLinkRequests
import Cairn.Protocol.DirectLinkNotSent
import Cairn.Protocol.DirectLinkSeats
import Cairn.Protocol.DirectReceive
import Cairn.Library.RowLocks
import Cairn.Beacon.Database
import Cairn.Library.Text
import Cairn.Beacon.Installations
import Cairn.Beacon.McpTokens
import Cairn.Beacon.Operations
import Cairn.Library.Histories
import Cairn.Beacon.Shrinking
import Cairn.Beacon.TokenHistory
import Cairn.Beacon.TokenExchange
import Cairn.Beacon.AccessSafety
import Cairn.Beacon.AccessRuns
import Cairn.Beacon.Ownership
import Cairn.Beacon.OwnershipHistory
import Cairn.Beacon.OwnershipSafety
import Cairn.Microvm.Retained
import Cairn.Storage.Pauses
import Cairn.Nodes.Snapshots
import Cairn.Nodes.SnapshotFetch
import Cairn.Storage.Lazy.WriteBatches
import Cairn.Storage.Views
import Cairn.Library.TextLists
import Cairn.Library.IpAddresses
import Cairn.Protocol.IceCandidates
import Cairn.Protocol.DirectSdp
import Cairn.Web.IceDestinations
import Cairn.Runner.Attempts
import Cairn.Storage.Lazy.BytesCache
import Cairn.Storage.CleanCache
import Cairn.Storage.CleanCacheEviction
import Cairn.Storage.CacheLimits
import Cairn.Library.Json
import Cairn.Agents.Access
import Cairn.Library.BigEndian
import Cairn.Beacon.Stun
import Cairn.Beacon.StunMessages
import Cairn.Beacon.StunResponses
import Cairn.Beacon.StunLimits
import Cairn.Live.Delivery
import Cairn.Live.Clients
import Cairn.Live.Independence
import Cairn.Library.Custody
import Cairn.Runner.AttemptSafety
