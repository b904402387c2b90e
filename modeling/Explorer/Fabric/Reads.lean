import Explorer.Core.Table
import Explorer.Fabric.Tables

/-!
# The reads of `CRUDService` and `MetricService`

Each read with its fixed statement and the text parameters as the values they
stand for. Instants are numbers of milliseconds. `Clock` is what PostgreSQL
does with instants in the histograms. A text parameter `orgs` is the list of
its quoted names, empty for the empty text.

An unquoted column name is folded to lower case, so that `channel.name as
channelName` comes back as `channelname`.
-/
namespace Explorer.Fabric.Reads

open Query

/-- `date_trunc(unit, createdt)`, and the series of instants from
`date_trunc(unit, now()) - 'back backUnit'` to `date_trunc(unit, now())`. -/
structure Clock where
  trunc : String → Nat → Nat
  series : (unit : String) → (back : Nat) → (backUnit : String) → List Nat

variable (networkName : String) (db : Tables)

/-! ## `CRUDService` -/

/-- The rows of a channel. -/
def blocksIn (channelGenesisHash : String) : List BlockRow :=
  db.blocks.filter fun r => r.channelGenesisHash = channelGenesisHash ∧ r.networkName = some networkName

def transactionsIn (channelGenesisHash : String) : List TransactionRecord :=
  db.transactions.filter fun r =>
    r.channelGenesisHash = channelGenesisHash ∧ r.networkName = networkName

/-- mirrors app/persistence/fabric/CRUDService.js:28-32 -/
def getTxCountByBlockNum (channelGenesisHash : String) (blockNum : Nat) : Answer :=
  firstRow (((blocksIn networkName db channelGenesisHash).filter fun r => r.blocknum = blockNum).map
    fun r => [("blocknum", .num r.blocknum), ("txcount", .num r.txcount)])

/-- `inner join channel on t.channel_genesis_hash=channel.channel_genesis_hash
and t.network_name=channel.network_name`. -/
def withChannel (rows : List TransactionRecord) : List (TransactionRecord × ChannelRecord) :=
  innerJoin rows db.channel fun t channel =>
    t.channelGenesisHash = channel.channelGenesisHash ∧ t.networkName = channel.networkName

/-- mirrors app/persistence/fabric/CRUDService.js:42-47 -/
def getTransactionByID (txhash : String) : Answer :=
  firstRow ((withChannel db (db.transactions.filter fun t =>
      t.txhash = txhash ∧ t.networkName = networkName)).map fun (t, channel) =>
    [("txhash", .text t.txhash), ("validation_code", .ofOption t.validationCode),
      ("payload_proposal_hash", .text t.payloadProposalHash), ("creator_msp_id", .text t.creatorMspId),
      ("endorser_msp_id", .texts t.endorserMspId), ("chaincodename", .text t.chaincodename),
      ("type", .text t.type), ("createdt", .num t.createdt),
      ("read_set", (t.readSet.map Value.pairs).getD .null),
      ("write_set", (t.writeSet.map Value.pairs).getD .null), ("channelname", .text channel.name)])

/-- `SELECT array_agg(txhash) … where blockid = blocks.blocknum`. -/
def txhashes (rows : List TransactionRecord) (blocknum : Nat) : Value :=
  arrayAgg ((rows.filter fun t => t.blockid = blocknum).map fun t => t.txhash)

/-- The join is on `channel_genesis_hash` alone.
mirrors app/persistence/fabric/CRUDService.js:57-65 -/
def getBlockActivityList (channelGenesisHash : String) : Answer :=
  let rows := innerJoin (blocksIn networkName db channelGenesisHash) db.channel fun r channel =>
    r.channelGenesisHash = channel.channelGenesisHash
  .rows (((orderByDesc (fun r => r.1.blocknum) rows).take 3).map fun (r, channel) =>
    [("blocknum", .num r.blocknum), ("txcount", .num r.txcount), ("datahash", .text r.datahash),
      ("blockhash", .text r.blockhash), ("prehash", .text r.prehash), ("createdt", .num r.createdt),
      ("txhash", txhashes (transactionsIn networkName db channelGenesisHash) r.blocknum),
      ("channelname", .text channel.name)])

/-- `creator_msp_id in (orgs)`, if there are any. -/
def byOrgs (orgs : List String) (t : TransactionRecord) : Bool := orgs = [] || t.creatorMspId ∈ orgs

/-- mirrors app/persistence/fabric/CRUDService.js:79-99 -/
def getTxList (channelGenesisHash : String) (blockNum txid «from» «to» : Nat) (orgs : List String) :
    Answer :=
  let rows := withChannel db ((transactionsIn networkName db channelGenesisHash).filter fun t =>
    t.blockid ≥ blockNum ∧ t.id ≥ txid ∧ byOrgs orgs t ∧ «from» ≤ t.createdt ∧ t.createdt ≤ «to»)
  .rows ((orderByDesc (fun r => r.1.id) rows).map fun (t, channel) =>
    [("creator_msp_id", .text t.creatorMspId), ("txhash", .text t.txhash), ("type", .text t.type),
      ("chaincodename", .text t.chaincodename), ("createdt", .num t.createdt),
      ("channelname", .text channel.name)])

/-- The rows of the channel with that genesis hash. -/
def channelIn (channelGenesisHash : String) : List ChannelRecord :=
  db.channel.filter fun r => r.channelGenesisHash = channelGenesisHash ∧ r.networkName = networkName

/-- The name of the channel is looked up when there is a block.
mirrors app/persistence/fabric/CRUDService.js:113-153 -/
def getBlockAndTxList (channelGenesisHash : String) («from» «to» : Nat) (orgs : List String) : Answer :=
  let blocks := (blocksIn networkName db channelGenesisHash).filter fun r =>
    «from» ≤ r.createdt ∧ r.createdt ≤ «to»
  let transactions := (transactionsIn networkName db channelGenesisHash).filter fun t =>
    byOrgs orgs t ∧ «from» ≤ t.createdt ∧ t.createdt ≤ «to»
  match scalar (if blocks = [] then [] else channelIn networkName db channelGenesisHash) with
  | .error message => .rejected message
  | .ok channel =>
    .rows (((orderByDesc BlockRow.blocknum blocks).filter fun r =>
        txhashes transactions r.blocknum ≠ .null).map fun r =>
      [("channelname", .ofOption (channel.map fun c => c.name)), ("blocknum", .num r.blocknum),
        ("txcount", .num r.txcount), ("datahash", .text r.datahash), ("blockhash", .text r.blockhash),
        ("prehash", .text r.prehash), ("createdt", .num r.createdt), ("blksize", .num r.blksize),
        ("txhash", txhashes transactions r.blocknum)])

/-- `select * from channel`. -/
def channelColumns (r : ChannelRecord) : Record :=
  [("id", .num r.id), ("name", .text r.name), ("blocks", .num r.blocks), ("trans", .num r.trans),
    ("createdt", .num r.createdt), ("channel_genesis_hash", .text r.channelGenesisHash),
    ("channel_hash", .text r.channelHash), ("channel_config", .null), ("channel_block", .null),
    ("channel_tx", .null), ("channel_version", .null), ("network_name", .text r.networkName)]

/-- mirrors app/persistence/fabric/CRUDService.js:163-168 -/
def getChannelConfig (channelGenesisHash : String) : Answer :=
  firstRow ((channelIn networkName db channelGenesisHash).map channelColumns)

/-- mirrors app/persistence/fabric/CRUDService.js:178-183 -/
def getChannel (channelname channelGenesisHash : String) : Answer :=
  firstRow ((db.channel.filter fun r =>
    r.name = channelname ∧ r.channelGenesisHash = channelGenesisHash ∧ r.networkName = networkName).map
      channelColumns)

/-- mirrors app/persistence/fabric/CRUDService.js:191-196 -/
def existChannel (channelname : String) : Answer :=
  countRows "count" (db.channel.filter fun r => r.name = channelname ∧ r.networkName = networkName)

/-- A largest number of 0 is falsy.
mirrors app/persistence/fabric/CRUDService.js:277-295 -/
def getCurBlockNum (channelGenesisHash : String) : Answer :=
  match ((blocksIn networkName db channelGenesisHash).map BlockRow.blocknum).max? with
  | some (n + 1) => .value (.num (n + 1))
  | _ => .value (.num (-1))

/-- mirrors app/persistence/fabric/CRUDService.js:329-333 -/
def getChannelByGenesisBlockHash (channelGenesisHash : String) : Answer :=
  firstRow ((channelIn networkName db channelGenesisHash).map fun r => [("name", .text r.name)])

/-- The condition is on the network of the channel, not of the reference. The
columns that the groups are formed by are those selected.
mirrors app/persistence/fabric/CRUDService.js:445-451 -/
def getChannelsInfo (peerid : String) : Answer :=
  let rows := innerJoin (db.channel.filter fun c => c.networkName = networkName) db.peerRefChannel
    fun c pc => c.channelGenesisHash = pc.channelid ∧ pc.peerid = peerid
  .rows (((rows.map Prod.fst).eraseDups.insertionSort fun a b => a.name ≤ b.name).map fun c =>
    [("id", .num c.id), ("channelname", .text c.name), ("blocks", .num c.blocks),
      ("channel_genesis_hash", .text c.channelGenesisHash), ("transactions", .num c.trans),
      ("createdat", .num c.createdt), ("channel_hash", .text c.channelHash)])

/-! ## `MetricService` -/

def chaincodesIn (channelGenesisHash : String) : List ChaincodeRow :=
  db.chaincodes.filter fun r =>
    r.channelGenesisHash = channelGenesisHash ∧ r.networkName = networkName

def peersIn (channelGenesisHash : String) : List PeerRow :=
  db.peer.filter fun r => r.channelGenesisHash = channelGenesisHash ∧ r.networkName = networkName

/-- mirrors app/persistence/fabric/MetricService.js:26-30 -/
def getChaincodeCount (channelGenesisHash : String) : Answer :=
  countRows "c" (chaincodesIn networkName db channelGenesisHash)

/-- mirrors app/persistence/fabric/MetricService.js:39-43 -/
def getPeerlistCount (channelGenesisHash : String) : Answer :=
  countRows "c" ((peersIn networkName db channelGenesisHash).filter fun r => r.peerType = "PEER")

/-- mirrors app/persistence/fabric/MetricService.js:52-56 -/
def getTxCount (channelGenesisHash : String) : Answer :=
  countRows "c" (transactionsIn networkName db channelGenesisHash)

/-- mirrors app/persistence/fabric/MetricService.js:65-69 -/
def getBlockCount (channelGenesisHash : String) : Answer :=
  countRows "c" (blocksIn networkName db channelGenesisHash)

/-- The join is on `channel_genesis_hash` alone, and the column is not called
`channelName`.
mirrors app/persistence/fabric/MetricService.js:78-96 -/
def getPeerData (channelGenesisHash : String) : Answer :=
  let rows := innerJoin (peersIn networkName db channelGenesisHash) db.channel fun c channel =>
    c.channelGenesisHash = channel.channelGenesisHash
  .rows (rows.map fun (c, _) =>
    [("name", .undefined), ("requests", .text c.requests), ("server_hostname", .text c.serverHostname),
      ("channel_genesis_hash", .text c.channelGenesisHash), ("mspid", .text c.mspid),
      ("peer_type", .text c.peerType)])

/-- The table `orderer` has no such column.
mirrors app/persistence/fabric/MetricService.js:104-118 -/
def getOrdererData : Answer := .rejected "column c.channel_genesis_hash does not exist"

/-- The join is on `channel_genesis_hash` alone.
mirrors app/persistence/fabric/MetricService.js:127-146 -/
def getTxPerChaincodeGenerate (channelGenesisHash : String) : Answer :=
  let rows := innerJoin (chaincodesIn networkName db channelGenesisHash) db.channel fun c channel =>
    c.channelGenesisHash = channel.channelGenesisHash
  .rows (rows.map fun (c, channel) =>
    [("chaincodename", .text c.name), ("channelName", .text channel.name), ("path", .text c.path),
      ("version", .text c.version), ("txCount", .num c.txcount),
      ("channel_genesis_hash", .text c.channelGenesisHash)])

/-- mirrors app/persistence/fabric/MetricService.js:155-164 -/
def getOrgsData (channelGenesisHash : String) : Answer :=
  .values ((((peersIn networkName db channelGenesisHash).map PeerRow.mspid).eraseDups.insertionSort
    (· ≤ ·)).map Value.text)

/-- What a caller with a callback gets of a query that may be rejected. -/
def orEmpty : Answer → Answer
  | .rejected _ => .rows []
  | answer => answer

/-- mirrors app/persistence/fabric/MetricService.js:174-185 -/
def getTxPerChaincode (channelGenesisHash : String) : Answer :=
  orEmpty (getTxPerChaincodeGenerate networkName db channelGenesisHash)

/-- mirrors app/persistence/fabric/MetricService.js:194-226 -/
def getStatusGenerate (channelGenesisHash : String) : Answer :=
  .row (some
    [("chaincodeCount", .num (chaincodesIn networkName db channelGenesisHash).length),
      ("txCount", .num (transactionsIn networkName db channelGenesisHash).length),
      ("latestBlock", .num (blocksIn networkName db channelGenesisHash).length),
      ("peerCount",
        .num ((peersIn networkName db channelGenesisHash).filter fun r => r.peerType = "PEER").length)])

/-- mirrors app/persistence/fabric/MetricService.js:236-247 -/
def getStatus (channelGenesisHash : String) : Answer :=
  orEmpty (getStatusGenerate networkName db channelGenesisHash)

/-- mirrors app/persistence/fabric/MetricService.js:257-268 -/
def getPeerList (channelGenesisHash : String) : Answer :=
  orEmpty (getPeerData networkName db channelGenesisHash)

/-- mirrors app/persistence/fabric/MetricService.js:277-285 -/
def getOrdererList : Answer := orEmpty getOrdererData

section
variable (T : Clock)

/-- One row for each instant of a series, with how many `createdt` fall in it. -/
def perBucket (unit column backUnit : String) (createdt : List Nat) (back : Nat) : Answer :=
  .rows ((T.series unit back backUnit).map fun datetime =>
    [(column, .num datetime), ("count", .num (createdt.countP fun t => T.trunc unit t = datetime))])

/-- A histogram of the transactions of a channel. -/
def txPer (unit column backUnit channelGenesisHash : String) (back : Nat) : Answer :=
  perBucket T unit column backUnit
    ((transactionsIn networkName db channelGenesisHash).map fun t => t.createdt) back

/-- A histogram of its blocks. -/
def blocksPer (unit column backUnit channelGenesisHash : String) (back : Nat) : Answer :=
  perBucket T unit column backUnit
    ((blocksIn networkName db channelGenesisHash).map BlockRow.createdt) back

variable (channelGenesisHash : String)

/-- mirrors app/persistence/fabric/MetricService.js:295-312 -/
def getTxByMinute (hours : Nat) : Answer :=
  txPer networkName db T "min" "datetime" "hour" channelGenesisHash hours

/-- mirrors app/persistence/fabric/MetricService.js:322-339 -/
def getTxByHour (day : Nat) : Answer :=
  txPer networkName db T "hour" "datetime" "day" channelGenesisHash day

/-- mirrors app/persistence/fabric/MetricService.js:349-366 -/
def getTxByDay (days : Nat) : Answer :=
  txPer networkName db T "day" "datetime" "day" channelGenesisHash days

/-- mirrors app/persistence/fabric/MetricService.js:376-393 -/
def getTxByWeek (weeks : Nat) : Answer :=
  txPer networkName db T "week" "datetime" "week" channelGenesisHash weeks

/-- mirrors app/persistence/fabric/MetricService.js:403-421 -/
def getTxByMonth (months : Nat) : Answer :=
  txPer networkName db T "month" "datetime" "month" channelGenesisHash months

/-- mirrors app/persistence/fabric/MetricService.js:431-448 -/
def getTxByYear (years : Nat) : Answer :=
  txPer networkName db T "year" "year" "year" channelGenesisHash years

/-- mirrors app/persistence/fabric/MetricService.js:459-476 -/
def getBlocksByMinute (hours : Nat) : Answer :=
  blocksPer networkName db T "min" "datetime" "hour" channelGenesisHash hours

/-- mirrors app/persistence/fabric/MetricService.js:486-503 -/
def getBlocksByHour (days : Nat) : Answer :=
  blocksPer networkName db T "hour" "datetime" "day" channelGenesisHash days

/-- mirrors app/persistence/fabric/MetricService.js:513-530 -/
def getBlocksByDay (days : Nat) : Answer :=
  blocksPer networkName db T "day" "datetime" "day" channelGenesisHash days

/-- mirrors app/persistence/fabric/MetricService.js:540-557 -/
def getBlocksByWeek (weeks : Nat) : Answer :=
  blocksPer networkName db T "week" "datetime" "week" channelGenesisHash weeks

/-- mirrors app/persistence/fabric/MetricService.js:567-584 -/
def getBlocksByMonth (months : Nat) : Answer :=
  blocksPer networkName db T "month" "datetime" "month" channelGenesisHash months

/-- mirrors app/persistence/fabric/MetricService.js:594-611 -/
def getBlocksByYear (years : Nat) : Answer :=
  blocksPer networkName db T "year" "year" "year" channelGenesisHash years

end

/-- mirrors app/persistence/fabric/MetricService.js:620-627 -/
def getTxByOrgs (channelGenesisHash : String) : Answer :=
  let creators := (transactionsIn networkName db channelGenesisHash).map fun t => t.creatorMspId
  .rows (creators.eraseDups.map fun creator =>
    [("count", .num (creators.count creator)), ("creator_msp_id", .text creator)])

/-- mirrors app/persistence/fabric/MetricService.js:637-642 -/
def findMissingBlockNumber (channelGenesisHash : String) (maxHeight : Int) : Answer :=
  .rows ((Fabric.findMissingBlockNumber networkName channelGenesisHash maxHeight db.db).map fun (id : Nat) =>
    [("missing_id", .num id)])

end Explorer.Fabric.Reads
