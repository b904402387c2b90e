import Explorer.Fabric.Reads

/-!
# What a network sees of the others

A read whose conditions carry `network_name` on every table answers from the
rows of its network alone (`run_ofNetwork`), so that two databases that agree
on these rows answer the same. Four statements lack the condition on a joined
table: each has two such databases that it tells apart.

* `reads_isolated_iff`: which reads are isolated.
-/
namespace Explorer.Fabric.Reads

open Query

/-- A read with its parameters, the network apart. -/
inductive Read where
  | getTxCountByBlockNum (channelGenesisHash : String) (blockNum : Nat)
  | getTransactionByID (channelGenesisHash txhash : String)
  | getBlockActivityList (channelGenesisHash : String)
  | getTxList (channelGenesisHash : String) (blockNum txid «from» «to» : Nat) (orgs : List String)
  | getBlockAndTxList (channelGenesisHash : String) (blockNum «from» «to» : Nat) (orgs : List String)
  | getChannelConfig (channelGenesisHash : String)
  | getChannel (channelname channelGenesisHash : String)
  | existChannel (channelname : String)
  | getCurBlockNum (channelGenesisHash : String)
  | getChannelByGenesisBlockHash (channelGenesisHash : String)
  | getChannelsInfo (peerid : String)
  | getChaincodeCount (channelGenesisHash : String)
  | getPeerlistCount (channelGenesisHash : String)
  | getTxCount (channelGenesisHash : String)
  | getBlockCount (channelGenesisHash : String)
  | getPeerData (channelGenesisHash : String)
  | getOrdererData
  | getTxPerChaincodeGenerate (channelGenesisHash : String)
  | getOrgsData (channelGenesisHash : String)
  | getTxPerChaincode (channelGenesisHash : String)
  | getStatusGenerate (channelGenesisHash : String)
  | getStatus (channelGenesisHash : String)
  | getPeerList (channelGenesisHash : String)
  | getOrdererList
  | getTxByMinute (channelGenesisHash : String) (hours : Nat)
  | getTxByHour (channelGenesisHash : String) (day : Nat)
  | getTxByDay (channelGenesisHash : String) (days : Nat)
  | getTxByWeek (channelGenesisHash : String) (weeks : Nat)
  | getTxByMonth (channelGenesisHash : String) (months : Nat)
  | getTxByYear (channelGenesisHash : String) (years : Nat)
  | getBlocksByMinute (channelGenesisHash : String) (hours : Nat)
  | getBlocksByHour (channelGenesisHash : String) (days : Nat)
  | getBlocksByDay (channelGenesisHash : String) (days : Nat)
  | getBlocksByWeek (channelGenesisHash : String) (weeks : Nat)
  | getBlocksByMonth (channelGenesisHash : String) (months : Nat)
  | getBlocksByYear (channelGenesisHash : String) (years : Nat)
  | getTxByOrgs (channelGenesisHash : String)
  | findMissingBlockNumber (channelGenesisHash : String) (maxHeight : Int)
  deriving DecidableEq, Repr

def Read.run (T : Clock) (networkName : String) (db : Tables) : Read → Answer
  | .getTxCountByBlockNum hash blockNum => Reads.getTxCountByBlockNum networkName db hash blockNum
  | .getTransactionByID _ txhash => Reads.getTransactionByID networkName db txhash
  | .getBlockActivityList hash => Reads.getBlockActivityList networkName db hash
  | .getTxList hash blockNum txid «from» «to» orgs =>
    Reads.getTxList networkName db hash blockNum txid «from» «to» orgs
  | .getBlockAndTxList hash _ «from» «to» orgs =>
    Reads.getBlockAndTxList networkName db hash «from» «to» orgs
  | .getChannelConfig hash => Reads.getChannelConfig networkName db hash
  | .getChannel name hash => Reads.getChannel networkName db name hash
  | .existChannel name => Reads.existChannel networkName db name
  | .getCurBlockNum hash => Reads.getCurBlockNum networkName db hash
  | .getChannelByGenesisBlockHash hash => Reads.getChannelByGenesisBlockHash networkName db hash
  | .getChannelsInfo peerid => Reads.getChannelsInfo networkName db peerid
  | .getChaincodeCount hash => Reads.getChaincodeCount networkName db hash
  | .getPeerlistCount hash => Reads.getPeerlistCount networkName db hash
  | .getTxCount hash => Reads.getTxCount networkName db hash
  | .getBlockCount hash => Reads.getBlockCount networkName db hash
  | .getPeerData hash => Reads.getPeerData networkName db hash
  | .getOrdererData => Reads.getOrdererData
  | .getTxPerChaincodeGenerate hash => Reads.getTxPerChaincodeGenerate networkName db hash
  | .getOrgsData hash => Reads.getOrgsData networkName db hash
  | .getTxPerChaincode hash => Reads.getTxPerChaincode networkName db hash
  | .getStatusGenerate hash => Reads.getStatusGenerate networkName db hash
  | .getStatus hash => Reads.getStatus networkName db hash
  | .getPeerList hash => Reads.getPeerList networkName db hash
  | .getOrdererList => Reads.getOrdererList
  | .getTxByMinute hash hours => Reads.getTxByMinute networkName db T hash hours
  | .getTxByHour hash day => Reads.getTxByHour networkName db T hash day
  | .getTxByDay hash days => Reads.getTxByDay networkName db T hash days
  | .getTxByWeek hash weeks => Reads.getTxByWeek networkName db T hash weeks
  | .getTxByMonth hash months => Reads.getTxByMonth networkName db T hash months
  | .getTxByYear hash years => Reads.getTxByYear networkName db T hash years
  | .getBlocksByMinute hash hours => Reads.getBlocksByMinute networkName db T hash hours
  | .getBlocksByHour hash days => Reads.getBlocksByHour networkName db T hash days
  | .getBlocksByDay hash days => Reads.getBlocksByDay networkName db T hash days
  | .getBlocksByWeek hash weeks => Reads.getBlocksByWeek networkName db T hash weeks
  | .getBlocksByMonth hash months => Reads.getBlocksByMonth networkName db T hash months
  | .getBlocksByYear hash years => Reads.getBlocksByYear networkName db T hash years
  | .getTxByOrgs hash => Reads.getTxByOrgs networkName db hash
  | .findMissingBlockNumber hash maxHeight => Reads.findMissingBlockNumber networkName db hash maxHeight

/-- Every table that the statement reads has the condition on `network_name`. -/
def Read.scoped : Read → Bool
  | .getBlockActivityList _ | .getChannelsInfo _ | .getPeerData _ | .getPeerList _
  | .getTxPerChaincodeGenerate _ | .getTxPerChaincode _ => false
  | _ => true

/-- Two databases with the same rows of the network give the same answer. -/
def Isolated (T : Clock) (networkName : String) (read : Read) : Prop :=
  ∀ db db' : Tables, db.ofNetwork networkName = db'.ofNetwork networkName →
    read.run T networkName db = read.run T networkName db'

/-! ## Scoped reads -/

section
variable (networkName : String) (db : Tables) (channelGenesisHash : String)

@[simp] theorem blocksIn_ofNetwork :
    blocksIn networkName (db.ofNetwork networkName) channelGenesisHash =
      blocksIn networkName db channelGenesisHash :=
  filter_restrict (by simp)

@[simp] theorem transactionsIn_ofNetwork :
    transactionsIn networkName (db.ofNetwork networkName) channelGenesisHash =
      transactionsIn networkName db channelGenesisHash :=
  filter_restrict (by simp)

@[simp] theorem channelIn_ofNetwork :
    channelIn networkName (db.ofNetwork networkName) channelGenesisHash =
      channelIn networkName db channelGenesisHash :=
  filter_restrict (by simp)

@[simp] theorem chaincodesIn_ofNetwork :
    chaincodesIn networkName (db.ofNetwork networkName) channelGenesisHash =
      chaincodesIn networkName db channelGenesisHash :=
  filter_restrict (by simp)

@[simp] theorem peersIn_ofNetwork :
    peersIn networkName (db.ofNetwork networkName) channelGenesisHash =
      peersIn networkName db channelGenesisHash :=
  filter_restrict (by simp)

/-- The transactions joined are of the network, and so are their channels. -/
theorem withChannel_ofNetwork {rows : List TransactionRecord}
    (h : ∀ t ∈ rows, t.networkName = networkName) :
    withChannel (db.ofNetwork networkName) rows = withChannel db rows := by
  refine innerJoin_restrict fun t ht channel hon => ?_
  simp only [decide_eq_true_eq] at hon ⊢
  rw [← hon.2, h t ht]

theorem findMissingBlockNumber_ofNetwork (maxHeight : Int) :
    Reads.findMissingBlockNumber networkName (db.ofNetwork networkName) channelGenesisHash maxHeight =
      Reads.findMissingBlockNumber networkName db channelGenesisHash maxHeight := by
  unfold Reads.findMissingBlockNumber Fabric.findMissingBlockNumber
  refine congrArg (fun ids => Answer.rows (List.map _ ids)) (List.filter_congr fun id _ => ?_)
  refine congrArg not ?_
  rw [Bool.eq_iff_iff]
  simp only [Tables.db, Tables.ofNetwork, List.any_eq_true, List.mem_filter, decide_eq_true_eq]
  exact ⟨fun ⟨r, hr, hkey⟩ => ⟨r, hr.1, hkey⟩, fun ⟨r, hr, hkey⟩ => ⟨r, ⟨hr, hkey.2.2⟩, hkey⟩⟩

end

/-- **A scoped read sees its network only.** -/
theorem run_ofNetwork {read : Read} (h : read.scoped = true) (T : Clock) (networkName : String)
    (db : Tables) : read.run T networkName (db.ofNetwork networkName) = read.run T networkName db := by
  cases read with
  | getBlockActivityList | getChannelsInfo | getPeerData | getPeerList | getTxPerChaincodeGenerate
  | getTxPerChaincode => cases h
  | getTransactionByID hash txhash =>
    have hrows : (db.ofNetwork networkName).transactions.filter
        (fun t => t.txhash = txhash ∧ t.networkName = networkName) =
          db.transactions.filter fun t => t.txhash = txhash ∧ t.networkName = networkName :=
      filter_restrict (by simp)
    simp only [Read.run, Reads.getTransactionByID, hrows]
    rw [withChannel_ofNetwork]
    intro t ht
    have hin := (List.mem_filter.1 ht).2
    simp only [decide_eq_true_eq] at hin
    exact hin.2
  | getTxList hash blockNum txid «from» «to» orgs =>
    simp only [Read.run, Reads.getTxList, transactionsIn_ofNetwork]
    rw [withChannel_ofNetwork]
    intro t ht
    have hin := (List.mem_filter.1 (List.mem_of_mem_filter ht)).2
    simp only [decide_eq_true_eq] at hin
    exact hin.2
  | getChannel name hash =>
    have hrows : (db.ofNetwork networkName).channel.filter (fun r =>
        r.name = name ∧ r.channelGenesisHash = hash ∧ r.networkName = networkName) =
          db.channel.filter fun r =>
            r.name = name ∧ r.channelGenesisHash = hash ∧ r.networkName = networkName :=
      filter_restrict (by simp)
    simp only [Read.run, Reads.getChannel, hrows]
  | existChannel name =>
    have hrows : (db.ofNetwork networkName).channel.filter (fun r =>
        r.name = name ∧ r.networkName = networkName) =
          db.channel.filter fun r => r.name = name ∧ r.networkName = networkName :=
      filter_restrict (by simp)
    simp only [Read.run, Reads.existChannel, hrows]
  | findMissingBlockNumber hash maxHeight =>
    exact findMissingBlockNumber_ofNetwork networkName db hash maxHeight
  | getOrdererData | getOrdererList => rfl
  | getTxCountByBlockNum | getChannelConfig | getChannelByGenesisBlockHash | getCurBlockNum
  | getBlockAndTxList | getBlockCount =>
    simp only [Read.run, Reads.getTxCountByBlockNum, Reads.getChannelConfig,
      Reads.getChannelByGenesisBlockHash, Reads.getCurBlockNum, Reads.getBlockAndTxList,
      Reads.getBlockCount, blocksIn_ofNetwork, transactionsIn_ofNetwork, channelIn_ofNetwork]
  | getChaincodeCount | getPeerlistCount | getTxCount | getOrgsData | getStatusGenerate | getStatus
  | getTxByOrgs =>
    simp only [Read.run, Reads.getChaincodeCount, Reads.getPeerlistCount, Reads.getTxCount,
      Reads.getOrgsData, Reads.getStatus, Reads.getStatusGenerate, Reads.getTxByOrgs,
      blocksIn_ofNetwork, transactionsIn_ofNetwork, chaincodesIn_ofNetwork, peersIn_ofNetwork]
  | getTxByMinute | getTxByHour | getTxByDay | getTxByWeek | getTxByMonth | getTxByYear =>
    exact congrArg (fun rows => perBucket T _ _ _ (List.map _ rows) _)
      (transactionsIn_ofNetwork networkName db _)
  | getBlocksByMinute | getBlocksByHour | getBlocksByDay | getBlocksByWeek | getBlocksByMonth
  | getBlocksByYear =>
    exact congrArg (fun rows => perBucket T _ _ _ (List.map _ rows) _)
      (blocksIn_ofNetwork networkName db _)

/-! ## Reads with an unscoped join -/

/-- Another network. -/
def other (networkName : String) : String := networkName ++ "2"

theorem other_ne (networkName : String) : other networkName ≠ networkName := by
  intro h
  have hlen := congrArg String.length h
  simp [other] at hlen

/-- The channel `hash` as a network has it. -/
def channelOf (hash networkName : String) : ChannelRecord :=
  { name := "mychannel", blocks := 0, trans := 0, channelGenesisHash := hash, networkName := networkName,
    id := 3, createdt := 0, channelHash := "" }

/-- One row of the network in each table, and `channel` and `peerRefChannel`
of all networks. -/
def sharing (networkName hash : String) (channel : List ChannelRecord)
    (peerRefChannel : List PeerRefChannelRow) : Tables where
  blocks := [⟨0, "", "", 1, 0, "", "", hash, 0, some networkName⟩]
  transactions := []
  channel := channel
  chaincodes := [⟨"fabcar", "1.0", "-", 0, hash, networkName⟩]
  peer := [⟨"Org1MSP", "peer0:7051", "", "peer0", hash, "PEER", networkName⟩]
  peerRefChannel := peerRefChannel
  orderer := []

/-- The network alone, and with another one that has joined the same channel. -/
def alone (networkName hash : String) : Tables := sharing networkName hash [channelOf hash networkName] []

def shared (networkName hash : String) : Tables :=
  sharing networkName hash [channelOf hash networkName, channelOf hash (other networkName)] []

theorem alone_shared (networkName hash : String) :
    (alone networkName hash).ofNetwork networkName = (shared networkName hash).ofNetwork networkName := by
  simp [alone, shared, sharing, Tables.ofNetwork, channelOf, other_ne]

/-- A peer of the other network refers to the channel. -/
def referred (networkName hash peerid : String) : Tables :=
  sharing networkName hash [channelOf hash networkName] [⟨peerid, hash, other networkName⟩]

theorem alone_referred (networkName hash peerid : String) :
    (alone networkName hash).ofNetwork networkName =
      (referred networkName hash peerid).ofNetwork networkName := by
  simp [alone, referred, sharing, Tables.ofNetwork, channelOf, other_ne]

/-- How many records an answer has. -/
def size : Answer → Nat
  | .rows rs => rs.length
  | _ => 0

/-- The other network's channel row doubles the answer. -/
theorem size_shared {read : Read} {hash : String}
    (h : read ∈ [.getBlockActivityList hash, .getPeerData hash, .getPeerList hash,
      .getTxPerChaincodeGenerate hash, .getTxPerChaincode hash]) (T : Clock) (networkName : String) :
    size (read.run T networkName (alone networkName hash)) = 1 ∧
      size (read.run T networkName (shared networkName hash)) = 2 := by
  simp only [List.mem_cons, List.not_mem_nil, or_false] at h
  rcases h with rfl | rfl | rfl | rfl | rfl
  · simp [Read.run, Reads.getBlockActivityList, alone, shared, sharing, blocksIn, innerJoin, channelOf,
      orderByDesc, size]
  · simp [Read.run, Reads.getPeerData, alone, shared, sharing, peersIn, innerJoin, channelOf, size]
  · simp [Read.run, Reads.getPeerList, orEmpty, Reads.getPeerData, alone, shared, sharing, peersIn,
      innerJoin, channelOf, size]
  · simp [Read.run, Reads.getTxPerChaincodeGenerate, alone, shared, sharing, chaincodesIn, innerJoin,
      channelOf, size]
  · simp [Read.run, Reads.getTxPerChaincode, orEmpty, Reads.getTxPerChaincodeGenerate, alone, shared,
      sharing, chaincodesIn, innerJoin, channelOf, size]

/-- The other network's reference makes the channel a channel of the peer. -/
theorem size_referred (peerid : String) (T : Clock) (networkName hash : String) :
    size ((Read.getChannelsInfo peerid).run T networkName (alone networkName hash)) = 0 ∧
      size ((Read.getChannelsInfo peerid).run T networkName (referred networkName hash peerid)) = 1 := by
  simp [Read.run, Reads.getChannelsInfo, alone, referred, sharing, innerJoin, channelOf, size,
    List.eraseDups_cons]

/-! ## Isolation -/

theorem not_isolated {T : Clock} {networkName : String} {read : Read} {db db' : Tables}
    (h : db.ofNetwork networkName = db'.ofNetwork networkName)
    (hsize : size (read.run T networkName db) ≠ size (read.run T networkName db')) :
    ¬ Isolated T networkName read := fun hi => hsize (congrArg size (hi db db' h))

/-- **Which reads are isolated.** For every read with any parameters, in every
network: all databases with the same rows of the network give the same answer,
if and only if the statement is none of those with an unscoped join. -/
theorem reads_isolated_iff (T : Clock) (networkName : String) (read : Read) :
    Isolated T networkName read ↔ read.scoped = true := by
  constructor
  · intro hi
    by_contra hs
    have hshared : ∀ hash, read ∈ [Read.getBlockActivityList hash, .getPeerData hash, .getPeerList hash,
        .getTxPerChaincodeGenerate hash, .getTxPerChaincode hash] → False := by
      intro hash hmem
      obtain ⟨h1, h2⟩ := size_shared hmem T networkName
      exact not_isolated (alone_shared networkName hash) (by rw [h1, h2]; decide) hi
    cases read with
    | getBlockActivityList hash | getPeerData hash | getPeerList hash
    | getTxPerChaincodeGenerate hash | getTxPerChaincode hash => exact hshared hash (by simp)
    | getChannelsInfo peerid =>
      obtain ⟨h1, h2⟩ := size_referred peerid T networkName "genesis"
      exact not_isolated (alone_referred networkName "genesis" peerid) (by rw [h1, h2]; decide) hi
    | _ => exact hs rfl
  · intro hs db db' h
    rw [← run_ofNetwork hs T networkName db, h, run_ofNetwork hs T networkName db']

/-- Network `net1` with the channel `genesis`, alone and with `net12` on the
same channel: its three latest blocks are one block, or that block twice. -/
theorem reads_isolated_net12 :
    (alone "net1" "genesis").ofNetwork "net1" = (shared "net1" "genesis").ofNetwork "net1" ∧
      size (getBlockActivityList "net1" (alone "net1" "genesis") "genesis") = 1 ∧
      size (getBlockActivityList "net1" (shared "net1" "genesis") "genesis") = 2 ∧
      ¬ ∀ T networkName read, Isolated T networkName read := by
  refine ⟨by decide, by decide, by decide, fun h => ?_⟩
  have hi := h ⟨fun _ t => t, fun _ _ _ => []⟩ "net1" (.getBlockActivityList "genesis")
    (alone "net1" "genesis") (shared "net1" "genesis") (by decide)
  exact absurd hi (by decide)

end Explorer.Fabric.Reads
