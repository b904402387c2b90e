import Explorer.Core.LTS
import Explorer.Core.Delivery
import Explorer.Core.Broadcast
import Explorer.Core.Table
import Explorer.Core.ArrayOp
import Explorer.Core.Json
import Explorer.Core.Fold
import Explorer.Core.Program
import Explorer.Core.Paging
import Explorer.Core.InProcess
import Explorer.Core.Query
import Explorer.Core.Buckets
import Explorer.Core.Lodash
import Explorer.Core.Schema
import Explorer.Core.Hex
import Explorer.Core.SqlLex
import Explorer.Core.SqlText
import Explorer.Core.SqlLiteral
import Explorer.Core.DataLoader
import Explorer.Core.Der
import Explorer.Core.Sha256
import Explorer.Core.HashChain
import Explorer.Iroha.Proto
import Explorer.Iroha.StreamBlocks
import Explorer.Iroha.Settlement
import Explorer.Iroha.StreamServer
import Explorer.Iroha.StreamLoss
import Explorer.Iroha.Permission
import Explorer.Iroha.Db
import Explorer.Iroha.Entities
import Explorer.Iroha.Projection
import Explorer.Iroha.Sync
import Explorer.Iroha.Replica
import Explorer.Iroha.ReplicaLive
import Explorer.Iroha.Requests
import Explorer.Iroha.RequestRuns
import Explorer.Iroha.Graphql
import Explorer.Iroha.Grants
import Explorer.Iroha.Lists
import Explorer.Iroha.TransactionLog
import Explorer.Iroha.References
import Explorer.Iroha.Loaders
import Explorer.Iroha.Flattening
import Explorer.Iroha.Histogram
import Explorer.Iroha.Resolvers
import Explorer.Iroha.Conformance
import Explorer.Iroha.Growth
import Explorer.Iroha.Prometheus
import Explorer.Iroha.CursorPaging
import Explorer.Iroha.BlockPaging
import Explorer.Iroha.AccountSearch
import Explorer.Iroha.SchemaInit
import Explorer.Fabric.Block
import Explorer.Fabric.Crud
import Explorer.Fabric.SyncService
import Explorer.Fabric.Guards
import Explorer.Fabric.Complete
import Explorer.Fabric.BlockHash
import Explorer.Fabric.BlockTransactions
import Explorer.Fabric.ProposalInput
import Explorer.Fabric.ExactlyOnce
import Explorer.Fabric.Notifications
import Explorer.Fabric.CatchUp
import Explorer.Fabric.Recovery
import Explorer.Fabric.Mirror
import Explorer.Fabric.Counters
import Explorer.Fabric.Tables
import Explorer.Fabric.Reads
import Explorer.Fabric.Isolation
import Explorer.Fabric.Statements
import Explorer.Fabric.SavedStatements
import Explorer.Fabric.OrgFilter
import Explorer.Fabric.OrgTransactions
import Explorer.Fabric.Dashboard
import Explorer.Fabric.Activity
import Explorer.Fabric.Discovery
import Explorer.Fabric.PeerStatus
import Explorer.Fabric.NetworkConfig
import Explorer.Fabric.ChaincodeCount
import Explorer.Fabric.Registration
import Explorer.Fabric.Catalogue
import Explorer.Fabric.ClientChannels
import Explorer.Fabric.CurrentChannel
import Explorer.Fabric.EventHubs
import Explorer.Fabric.UserService
import Explorer.Fabric.UserRegistration
import Explorer.Client.Transactions
import Explorer.Client.GrowingTransactions
import Explorer.Core.SharedStore
import Explorer.Fabric.Networks
