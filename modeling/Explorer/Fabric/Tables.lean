import Explorer.Fabric.Crud
import Explorer.Core.Query

/-!
# The tables that the reads query

The rows of `explorerpg.sql` with the columns that a read selects or compares.
A row of `blocks`, `transactions` or `chaincodes` is what block processing
writes, with its SERIAL id where a query uses it.
-/
namespace Explorer.Fabric

structure TransactionRecord extends TransactionRow where
  id : Nat
  deriving DecidableEq, Repr

/-- The columns `channel_config`, `channel_block`, `channel_tx` and
`channel_version` are written by no statement. -/
structure ChannelRecord extends ChannelRow where
  id : Nat
  createdt : Nat
  channelHash : String
  deriving DecidableEq, Repr

/-- `events` is NULL for an orderer. -/
structure PeerRow where
  mspid : String
  requests : String
  events : Option String
  serverHostname : String
  channelGenesisHash : String
  peerType : String
  networkName : String
  deriving DecidableEq, Repr

structure PeerRefChannelRow where
  peerid : String
  channelid : String
  networkName : String
  deriving DecidableEq, Repr

structure OrdererRow where
  requests : String
  serverHostname : String
  networkName : String
  deriving DecidableEq, Repr

structure Tables where
  blocks : List BlockRow
  transactions : List TransactionRecord
  channel : List ChannelRecord
  chaincodes : List ChaincodeRow
  peer : List PeerRow
  peerRefChannel : List PeerRefChannelRow
  orderer : List OrdererRow
  deriving DecidableEq, Repr

/-- The rows of one network. -/
def Tables.ofNetwork (db : Tables) (networkName : String) : Tables where
  blocks := db.blocks.filter fun r => r.networkName = some networkName
  transactions := db.transactions.filter fun r => r.networkName = networkName
  channel := db.channel.filter fun r => r.networkName = networkName
  chaincodes := db.chaincodes.filter fun r => r.networkName = networkName
  peer := db.peer.filter fun r => r.networkName = networkName
  peerRefChannel := db.peerRefChannel.filter fun r => r.networkName = networkName
  orderer := db.orderer.filter fun r => r.networkName = networkName

/-- The tables that block processing writes. -/
def Tables.db (db : Tables) : Db where
  blocks := db.blocks
  transactions := db.transactions.map TransactionRecord.toTransactionRow
  channel := db.channel.map ChannelRecord.toChannelRow
  chaincodes := db.chaincodes

end Explorer.Fabric
