import Mathlib.Data.List.Nodup
import Explorer.Core.InProcess
import Explorer.Fabric.Tables

/-!
# `SyncServices.insertFromDiscoveryResults`

The peers, orderers and chaincodes of a channel, saved in four tables. None of
them has a UNIQUE constraint: each save counts the rows with the same columns
and inserts if there is none. The nested loops over organisations, peers and
chaincodes await one save after the other, so they are the list of their
saves: first those of the peers and orderers, then, once the chaincodes are
queried, those of the chaincodes.

`Discovery` is one execution with the await it stands at, `Discovery.resume`
runs it to the next one. The organisations of a discovery result are listed
as `for … in` visits them. A row has the network's name from the start; the
times of a row are left out.
-/
namespace Explorer.Fabric

structure PeerRefChaincodeRow where
  peerid : String
  chaincodeid : String
  ccVersion : String
  channelid : String
  networkName : String
  deriving DecidableEq, Repr

/-- The tables that discovery writes. -/
structure Catalogue where
  peer : List PeerRow
  peerRefChannel : List PeerRefChannelRow
  chaincodes : List ChaincodeRow
  peerRefChaincode : List PeerRefChaincodeRow
  deriving DecidableEq, Repr

/-! ## Discovery results -/

structure DiscoveredChaincode where
  name : String
  version : String
  deriving DecidableEq, Repr

structure DiscoveredPeer where
  mspid : String
  endpoint : String
  chaincodes : List DiscoveredChaincode
  deriving DecidableEq, Repr

structure DiscoveredOrderer where
  host : String
  port : Nat
  deriving DecidableEq, Repr

structure DiscoveryResults where
  peersByOrg : Option (List (String × List DiscoveredPeer))
  orderers : Option (List (String × List DiscoveredOrderer))
  deriving DecidableEq, Repr

/-- An element of `queryInstantiatedChaincodes`. -/
structure Instantiated where
  name : String
  version : String
  path : Option String
  deriving DecidableEq, Repr

/-- `client_config.peers[…]`. -/
structure PeerConfig where
  url : Option String
  eventUrl : Option String
  deriving DecidableEq, Repr

structure DiscoveryClient extends Client where
  peers : String → Option PeerConfig
  tls : Bool

/-! ## Saving -/

/-- The awaits of a save: its count and its insertion. -/
inductive SaveRow where
  | count
  | insert
  deriving DecidableEq, Repr

/-- Count the rows that are the `same`, insert if there is none. -/
def SaveRow.run {R : Type} (same : R → Bool) (row : R) (table : List R) : SaveRow → List R × Option SaveRow
  | .count => (table, if isValidRow (table.countP same) then some .insert else none)
  | .insert => (table ++ [row], none)

/-- mirrors app/persistence/fabric/CRUDService.js:402-416 -/
def savePeer (networkName : String) (peer : PeerRow) : List PeerRow → SaveRow → List PeerRow × Option SaveRow :=
  SaveRow.run
    (fun r => r.channelGenesisHash = peer.channelGenesisHash ∧ r.networkName = networkName ∧
      r.serverHostname = peer.serverHostname)
    { peer with networkName := networkName }

/-- mirrors app/persistence/fabric/CRUDService.js:424-437 -/
def savePeerChannelRef (networkName : String) (ref : PeerRefChannelRow) :
    List PeerRefChannelRow → SaveRow → List PeerRefChannelRow × Option SaveRow :=
  SaveRow.run
    (fun r => r.peerid = ref.peerid ∧ r.networkName = networkName ∧ r.channelid = ref.channelid)
    { ref with networkName := networkName }

/-- mirrors app/persistence/fabric/CRUDService.js:304-318 -/
def saveChaincode (networkName : String) (chaincode : ChaincodeRow) :
    List ChaincodeRow → SaveRow → List ChaincodeRow × Option SaveRow :=
  SaveRow.run
    (fun r => r.name = chaincode.name ∧ r.channelGenesisHash = chaincode.channelGenesisHash ∧
      r.networkName = networkName ∧ r.version = chaincode.version ∧ r.path = chaincode.path)
    { chaincode with networkName := networkName }

/-- mirrors app/persistence/fabric/CRUDService.js:341-356 -/
def saveChaincodPeerRef (networkName : String) (ref : PeerRefChaincodeRow) :
    List PeerRefChaincodeRow → SaveRow → List PeerRefChaincodeRow × Option SaveRow :=
  SaveRow.run
    (fun r => r.peerid = ref.peerid ∧ r.chaincodeid = ref.chaincodeid ∧ r.ccVersion = ref.ccVersion ∧
      r.channelid = ref.channelid ∧ r.networkName = networkName)
    { ref with networkName := networkName }

inductive Save where
  | peer (row : PeerRow)
  | peerChannelRef (row : PeerRefChannelRow)
  | chaincode (row : ChaincodeRow)
  | chaincodePeerRef (row : PeerRefChaincodeRow)
  deriving DecidableEq, Repr

/-- The awaited statement of a save is executed. -/
def Save.run (networkName : String) (c : Catalogue) (stmt : SaveRow) : Save → Catalogue × Option SaveRow
  | .peer row =>
    let (table, next) := savePeer networkName row c.peer stmt
    ({ c with peer := table }, next)
  | .peerChannelRef row =>
    let (table, next) := savePeerChannelRef networkName row c.peerRefChannel stmt
    ({ c with peerRefChannel := table }, next)
  | .chaincode row =>
    let (table, next) := saveChaincode networkName row c.chaincodes stmt
    ({ c with chaincodes := table }, next)
  | .chaincodePeerRef row =>
    let (table, next) := saveChaincodPeerRef networkName row c.peerRefChaincode stmt
    ({ c with peerRefChaincode := table }, next)

/-! ## What is saved -/

/-- `endpoint.split(':')[0]` -/
def host (endpoint : String) : String := String.ofList (endpoint.toList.takeWhile (· ≠ ':'))

/-- `url.replace(/^grpcs*:\/\//, '')` -/
def stripProtocol (url : String) : String :=
  match url.toList with
  | 'g' :: 'r' :: 'p' :: 'c' :: cs =>
    match cs.dropWhile (· = 's') with
    | ':' :: '/' :: '/' :: rest => String.ofList rest
    | _ => url
  | _ => url

/-- A setting, or the default where it is missing or empty. -/
def setting (o : Option String) (default : String) : String := (o.filter (· ≠ "")).getD default

variable (C : DiscoveryClient) (channelGenesisHash : String)

/-- mirrors app/platform/fabric/sync/SyncService.js:212-254 -/
def insertNewPeer (peer : DiscoveredPeer) : List Save :=
  let config := C.peers (host peer.endpoint)
  let requesturl := setting (config.bind PeerConfig.url) peer.endpoint
  let eventurl := setting (config.bind PeerConfig.eventUrl) ""
  [.peer
    { mspid := peer.mspid
      requests := stripProtocol requesturl
      events := some eventurl
      serverHostname := host peer.endpoint
      channelGenesisHash := channelGenesisHash
      peerType := "PEER"
      networkName := C.networkName },
    .peerChannelRef ⟨host peer.endpoint, channelGenesisHash, C.networkName⟩]

/-- mirrors app/platform/fabric/sync/SyncService.js:264-295 -/
def insertNewOrderers (orgName : String) (orderer : DiscoveredOrderer) : List Save :=
  let discoveryProtocol := if C.tls then "grpcs" else "grpc"
  let requesturl := s!"{discoveryProtocol}://{orderer.host}:{orderer.port}"
  [.peer
    { mspid := orgName
      requests := stripProtocol requesturl
      events := none
      serverHostname := orderer.host
      channelGenesisHash := channelGenesisHash
      peerType := "ORDERER"
      networkName := C.networkName },
    .peerChannelRef ⟨orderer.host, channelGenesisHash, C.networkName⟩]

/-- mirrors app/platform/fabric/sync/SyncService.js:353-368 -/
def insertNewChaincodePeerRef (chaincode : DiscoveredChaincode) (endpoint : String) : List Save :=
  [.chaincodePeerRef
    { chaincodeid := chaincode.name
      ccVersion := chaincode.version
      peerid := host endpoint
      channelid := channelGenesisHash
      networkName := C.networkName }]

/-- The peers of all organisations, in the order of the loops. -/
def DiscoveryResults.peers (results : Option DiscoveryResults) : List DiscoveredPeer :=
  ((results.bind DiscoveryResults.peersByOrg).getD []).flatMap Prod.snd

/-- The loops over peers and orderers.
mirrors app/platform/fabric/sync/SyncService.js:177-195 -/
def insertPeers (results : Option DiscoveryResults) : List Save :=
  ((DiscoveryResults.peers results).flatMap (insertNewPeer C channelGenesisHash)) ++
    ((results.bind DiscoveryResults.orderers).getD []).flatMap fun (orgName, endpoints) =>
      endpoints.flatMap (insertNewOrderers C channelGenesisHash orgName)

/-- mirrors app/platform/fabric/sync/SyncService.js:306-345 -/
def insertNewChannelChaincode (results : Option DiscoveryResults) (chaincodes : List Instantiated) :
    List Save :=
  chaincodes.flatMap fun chaincode =>
    .chaincode
      { name := chaincode.name
        version := chaincode.version
        path := chaincode.path.getD "-"
        txcount := 0
        channelGenesisHash := channelGenesisHash
        networkName := C.networkName } ::
      (DiscoveryResults.peers results).flatMap fun peer =>
        (peer.chaincodes.filter fun c => c.name = chaincode.name ∧ c.version = chaincode.version).flatMap
          fun c => insertNewChaincodePeerRef C channelGenesisHash c peer.endpoint

/-! ## One execution -/

/-- The awaits of `insertFromDiscoveryResults`, with the saves still to do. -/
inductive DiscoveryPc where
  | initializeChannelFromDiscover
  | insertPeers (results : Option DiscoveryResults) (save : Save) (stmt : SaveRow) (rest : List Save)
  | queryInstantiatedChaincodes (results : Option DiscoveryResults)
  | insertChaincodes (save : Save) (stmt : SaveRow) (rest : List Save)
  deriving DecidableEq, Repr

structure Discovery where
  channelGenesisHash : String
  pc : DiscoveryPc
  deriving DecidableEq, Repr

/-- What an awaited promise resolves to: nothing that is read, or the answer
of a peer. -/
inductive Reply where
  | executed
  | queryChannels (channels : Option (List String))
  | genesisBlock (block : Option Block)
  | discovered (results : Option DiscoveryResults)
  | instantiated (chaincodes : List Instantiated)
  deriving DecidableEq, Repr

def Discovery.nextPeer (d : Discovery) (results : Option DiscoveryResults) : List Save → Discovery
  | [] => { d with pc := .queryInstantiatedChaincodes results }
  | save :: rest => { d with pc := .insertPeers results save .count rest }

def Discovery.nextChaincode (d : Discovery) : List Save → Outcome Discovery Unit
  | [] => .done ()
  | save :: rest => .await { d with pc := .insertChaincodes save .count rest }

/-- The await is over and the function runs to the next one; `none` when the
reply is not one to this await.
mirrors app/platform/fabric/sync/SyncService.js:172-203 -/
def Discovery.resume (d : Discovery) (c : Catalogue) (reply : Reply) :
    Option (Catalogue × Outcome Discovery Unit) :=
  match d.pc, reply with
  | .initializeChannelFromDiscover, .discovered results =>
    some (c, .await (d.nextPeer results (insertPeers C d.channelGenesisHash results)))
  | .insertPeers results save stmt rest, .executed =>
    match save.run C.networkName c stmt with
    | (c, some stmt) => some (c, .await { d with pc := .insertPeers results save stmt rest })
    | (c, none) => some (c, .await (d.nextPeer results rest))
  | .queryInstantiatedChaincodes results, .instantiated chaincodes =>
    some (c, d.nextChaincode (insertNewChannelChaincode C d.channelGenesisHash results chaincodes))
  | .insertChaincodes save stmt rest, .executed =>
    match save.run C.networkName c stmt with
    | (c, some stmt) => some (c, .await { d with pc := .insertChaincodes save stmt rest })
    | (c, none) => some (c, d.nextChaincode rest)
  | _, _ => none

end Explorer.Fabric
