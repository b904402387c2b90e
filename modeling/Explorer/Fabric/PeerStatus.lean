import Mathlib.Data.List.Infix
import Explorer.Core.Fold
import Explorer.Fabric.Discovery

/-!
# `Proxy.getPeersStatus`

The stored nodes of a channel, each with the ledger height that discovery
tells for it. The loops look an organisation up without asking whether it is
there, and compare an endpoint with a stored host name by `indexOf`; the last
endpoint that contains the name gives the height.

* `getPeersStatus_eq_some`: the answer, entry by entry.
* `peersStatus_answers_iff`: the discovery results with which there is one.
* `peersStatus_ownHeight_iff`: those with which each peer is shown its own
  height.
-/
namespace Explorer.Fabric.PeerStatus

/-! ## Stored and discovered nodes -/

/-- A `Long`. -/
structure LedgerHeight where
  low : Int
  high : Int
  unsigned : Bool
  deriving DecidableEq, Repr

/-- A peer of a discovery result; one without state info has no height. -/
structure ListedPeer extends DiscoveredPeer where
  ledgerHeight : Option LedgerHeight
  deriving DecidableEq, Repr

structure Results where
  peersByOrg : Option (List (String × List ListedPeer))
  orderers : Option (List (String × List DiscoveredOrderer))
  deriving DecidableEq, Repr

/-- An element of `MetricService.getPeerList`. -/
structure Node where
  requests : String
  serverHostname : String
  channelGenesisHash : String
  mspid : String
  peerType : String
  deriving DecidableEq, Repr

/-- What the three columns of the height are set to. -/
inductive Height where
  | known (height : LedgerHeight)
  | dash
  deriving DecidableEq, Repr

/-- A node with the fields that `getPeersStatus` sets. -/
structure Entry where
  node : Node
  status : String
  ledgerHeight : Option Height
  deriving DecidableEq, Repr

/-! ## The request -/

/-- `s.indexOf(part) > -1` -/
def contains (s part : String) : Bool := decide (part.toList <:+: s.toList)

/-- mirrors app/platform/fabric/Proxy.js:124-133 -/
def peerHeight (node : Node) (peers : List ListedPeer) : Option (Option Height) :=
  peers.foldlM
    (fun shown peer =>
      if contains peer.endpoint node.serverHostname then
        (peer.ledgerHeight.map Height.known).map some
      else some shown)
    none

/-- mirrors app/platform/fabric/Proxy.js:139-148 -/
def ordererHeight (node : Node) (endpoints : List DiscoveredOrderer) : Option Height :=
  endpoints.foldl
    (fun shown endpoint => if contains endpoint.host node.serverHostname then some .dash else shown) none

/-- The branch of a PEER; `none` when the organisation is missing (`org.peers`
of undefined) or a height is.
mirrors app/platform/fabric/Proxy.js:121-135 -/
def peerEntry (results : Option Results) (node : Node) : Option Entry :=
  match results.bind Results.peersByOrg with
  | none => some ⟨node, "DOWN", none⟩
  | some orgs => do
    let peers ← orgs.lookup node.mspid
    let shown ← peerHeight node peers
    some ⟨node, "DOWN", shown⟩

/-- The branch of an ORDERER.
mirrors app/platform/fabric/Proxy.js:136-150 -/
def ordererEntry (results : Option Results) (node : Node) : Option Entry :=
  match results.bind Results.orderers with
  | none => some ⟨node, "DOWN", none⟩
  | some orgs => do
    let endpoints ← orgs.lookup node.mspid
    some ⟨node, "DOWN", ordererHeight node endpoints⟩

/-- A client that is down asks nobody, a query that is rejected is caught, one
that fails answers null. -/
def discoverResults (status : Bool) (reply : Option Results) : Option Results :=
  if status then reply else none

/-- `none` when the promise is rejected.
mirrors app/platform/fabric/Proxy.js:106-155 -/
def getPeersStatus (status : Bool) (reply : Option Results) (nodes : List Node) : Option (List Entry) :=
  nodes.foldlM
    (fun peers node =>
      if node.peerType = "PEER" then
        (peerEntry (discoverResults status reply) node).map fun entry => peers ++ [entry]
      else if node.peerType = "ORDERER" then
        (ordererEntry (discoverResults status reply) node).map fun entry => peers ++ [entry]
      else some peers)
    []

/-! ## The answer, entry by entry -/

def Node.listed (node : Node) : Bool := node.peerType = "PEER" ∨ node.peerType = "ORDERER"

/-- The entry of a node that is listed. -/
def entryOf (results : Option Results) (node : Node) : Option Entry :=
  if node.peerType = "PEER" then peerEntry results node else ordererEntry results node

theorem getPeersStatus_eq_some {status : Bool} {reply : Option Results} {nodes : List Node}
    {peers : List Entry} :
    getPeersStatus status reply nodes = some peers ↔
      (nodes.filter Node.listed).map (entryOf (discoverResults status reply)) = peers.map some := by
  have hstep : getPeersStatus status reply nodes = nodes.foldlM (fun peers node =>
      if node.listed then
        (entryOf (discoverResults status reply) node).map fun entry => peers ++ [entry]
      else some peers) [] := by
    refine congrArg (fun turn => nodes.foldlM turn []) ?_
    funext peers node
    by_cases hpeer : node.peerType = "PEER"
    · simp [hpeer, Node.listed, entryOf]
    · by_cases horderer : node.peerType = "ORDERER" <;> simp [hpeer, horderer, Node.listed, entryOf]
  rw [hstep, foldlM_push_eq_some]
  simp

/-- Each entry is about its node. -/
theorem entryOf_node {results : Option Results} {node : Node} {entry : Entry}
    (h : entryOf results node = some entry) : entry.node = node := by
  unfold entryOf peerEntry ordererEntry at h
  split at h <;> split at h
  · cases h
    rfl
  · simp only [Option.bind_eq_bind, Option.bind_eq_some_iff] at h
    obtain ⟨peers, -, shown, -, h⟩ := h
    cases h
    rfl
  · cases h
    rfl
  · simp only [Option.bind_eq_bind, Option.bind_eq_some_iff] at h
    obtain ⟨endpoints, -, h⟩ := h
    cases h
    rfl

/-- One entry for each node, in their order. -/
theorem map_node {results : Option Results} {nodes : List Node} {peers : List Entry}
    (h : nodes.map (entryOf results) = peers.map some) : peers.map Entry.node = nodes := by
  induction nodes generalizing peers with
  | nil => rw [List.map_eq_nil_iff.1 h.symm, List.map_nil]
  | cons node nodes ih =>
    obtain ⟨entry, peers, rfl, hentry, hpeers⟩ := List.map_eq_cons_iff.1 h.symm
    rw [List.map_cons, entryOf_node hentry.symm, ih hpeers.symm]

/-- The endpoints that are taken for the node. -/
def matching (node : Node) (peers : List ListedPeer) : List ListedPeer :=
  peers.filter fun peer => contains peer.endpoint node.serverHostname

theorem peerHeight_eq_some {node : Node} {peers : List ListedPeer} {shown : Option Height} :
    peerHeight node peers = some shown ↔
      (∀ peer ∈ matching node peers, peer.ledgerHeight.isSome) ∧
        shown = (matching node peers).getLast?.bind fun peer => peer.ledgerHeight.map Height.known := by
  unfold peerHeight matching
  rw [foldlM_last_eq_some (f := fun peer : ListedPeer => peer.ledgerHeight.map Height.known)]
  simp

/-! ## Every node is answered -/

/-- The lookups of the node's branch find something. -/
def Answered (results : Option Results) (node : Node) : Prop :=
  if node.peerType = "PEER" then
    ∀ orgs ∈ results.bind Results.peersByOrg, ∃ peers, orgs.lookup node.mspid = some peers ∧
      ∀ peer ∈ peers, contains peer.endpoint node.serverHostname → peer.ledgerHeight.isSome
  else
    ∀ orgs ∈ results.bind Results.orderers, (orgs.lookup node.mspid).isSome

theorem entryOf_isSome (results : Option Results) (node : Node) :
    (entryOf results node).isSome ↔ Answered results node := by
  unfold entryOf Answered
  split
  · unfold peerEntry
    cases results.bind Results.peersByOrg with
    | none => simp
    | some orgs =>
      cases horg : orgs.lookup node.mspid with
      | none => simp [horg]
      | some peers =>
        have hheight : (peerHeight node peers).isSome ↔
            ∀ peer ∈ matching node peers, peer.ledgerHeight.isSome := by
          rw [Option.isSome_iff_exists]
          simp only [peerHeight_eq_some, exists_and_left, exists_eq, and_true]
        have hentry : ((peerHeight node peers).bind fun shown => some (⟨node, "DOWN", shown⟩ : Entry)).isSome =
            (peerHeight node peers).isSome := by cases peerHeight node peers <;> rfl
        simp [horg, hentry, hheight, matching, and_imp]
  · unfold ordererEntry
    cases results.bind Results.orderers with
    | none => simp
    | some orgs => cases horg : orgs.lookup node.mspid <;> simp [horg, -List.lookup_isSome_iff]

/-- **Answers.** The request gives one entry for each stored PEER and ORDERER,
in the stored order, exactly when the discovery result lists the organisation
of each of them and a height with each endpoint that is taken for a peer. -/
theorem peersStatus_answers_iff (status : Bool) (reply : Option Results) (nodes : List Node) :
    (∃ peers, getPeersStatus status reply nodes = some peers ∧
        peers.map Entry.node = nodes.filter Node.listed) ↔
      ∀ node ∈ nodes, node.listed → Answered (discoverResults status reply) node := by
  have hsome : (∃ peers, getPeersStatus status reply nodes = some peers ∧
      peers.map Entry.node = nodes.filter Node.listed) ↔
      ∃ peers : List Entry,
        (nodes.filter Node.listed).map (entryOf (discoverResults status reply)) = peers.map some := by
    constructor
    · rintro ⟨peers, hpeers, -⟩
      exact ⟨peers, getPeersStatus_eq_some.1 hpeers⟩
    · rintro ⟨peers, hpeers⟩
      exact ⟨peers, getPeersStatus_eq_some.2 hpeers, map_node hpeers⟩
  rw [hsome, exists_map_some_iff]
  simp only [List.mem_filter, entryOf_isSome, and_imp]

/-- The stored node of a peer. -/
def peerNode (serverHostname mspid : String) : Node := ⟨serverHostname, serverHostname, "genesis", mspid, "PEER"⟩

def peerAt (endpoint : String) (low : Int) : ListedPeer := ⟨⟨"Org1MSP", endpoint, []⟩, some ⟨low, 0, true⟩⟩

/-- Org3 has left the channel, its peer is still stored. -/
theorem peersStatus_rejects :
    getPeersStatus true (some ⟨some [("Org1MSP", [peerAt "peer1:7051" 5])], none⟩)
        [peerNode "peer1" "Org1MSP", peerNode "peer3" "Org3MSP"] = none ∧
      ¬ ∀ (status : Bool) (reply : Option Results) (nodes : List Node), ∃ peers,
        getPeersStatus status reply nodes = some peers ∧
          peers.map Entry.node = nodes.filter Node.listed := by
  have hnone : getPeersStatus true (some ⟨some [("Org1MSP", [peerAt "peer1:7051" 5])], none⟩)
      [peerNode "peer1" "Org1MSP", peerNode "peer3" "Org3MSP"] = none := by decide +kernel
  refine ⟨hnone, fun h => ?_⟩
  obtain ⟨peers, hpeers, -⟩ := h _ _ _
  rw [hnone] at hpeers
  cases hpeers

/-! ## Each peer is shown its own height -/

/-- The result lists the organisation of each stored node. -/
structure ListsOrgs (results : Results) (nodes : List Node) : Prop where
  peers : ∀ node ∈ nodes, node.peerType = "PEER" →
    ∃ orgs peers, results.peersByOrg = some orgs ∧ orgs.lookup node.mspid = some peers
  orderers : ∀ node ∈ nodes, node.peerType = "ORDERER" →
    ∃ orgs endpoints, results.orderers = some orgs ∧ orgs.lookup node.mspid = some endpoints

/-- The peers listed under the node's organisation. -/
def Results.listedFor (results : Results) (node : Node) : List ListedPeer :=
  ((results.peersByOrg.getD []).lookup node.mspid).getD []

/-- The endpoint's host is the node's `server_hostname`. -/
def Own (node : Node) (peer : ListedPeer) : Prop := host peer.endpoint = node.serverHostname

/-- The entry has a height if its own endpoint is listed, and it is that
endpoint's. -/
structure ShowsOwn (peers : List ListedPeer) (entry : Entry) : Prop where
  shown_iff : entry.ledgerHeight.isSome ↔ ∃ peer ∈ peers, Own entry.node peer
  height : ∀ peer ∈ peers, Own entry.node peer → entry.ledgerHeight = peer.ledgerHeight.map Height.known

/-- Each endpoint that contains the host name has a height, and the last of
them has that of the node's own endpoint. -/
structure LastIsOwn (node : Node) (peers : List ListedPeer) : Prop where
  heights : ∀ peer ∈ matching node peers, peer.ledgerHeight.isSome
  own : ∀ last ∈ (matching node peers).getLast?, (∃ peer ∈ peers, Own node peer) ∧
    ∀ peer ∈ peers, Own node peer → peer.ledgerHeight = last.ledgerHeight

/-- A node's own endpoint contains its host name. -/
theorem Own.matching {node : Node} {peers : List ListedPeer} {peer : ListedPeer} (h : Own node peer)
    (hmem : peer ∈ peers) : peer ∈ matching node peers := by
  refine List.mem_filter.2 ⟨hmem, decide_eq_true ?_⟩
  rw [← h, host, String.toList_ofList]
  exact (List.takeWhile_prefix _).isInfix

theorem showsOwn_iff (entry : Entry) (peers : List ListedPeer)
    (h : peerHeight entry.node peers = some entry.ledgerHeight) :
    ShowsOwn peers entry ↔ LastIsOwn entry.node peers := by
  obtain ⟨hheights, hshown⟩ := peerHeight_eq_some.1 h
  cases hlast : (matching entry.node peers).getLast? with
  | none =>
    have hnone : ∀ peer ∈ peers, ¬ Own entry.node peer := fun peer hmem how =>
      List.ne_nil_of_mem (how.matching hmem) (List.getLast?_eq_none_iff.1 hlast)
    rw [hlast] at hshown
    constructor
    · intro _
      exact ⟨hheights, fun last h => by rw [hlast] at h; cases h⟩
    · intro _
      refine ⟨?_, fun peer hmem how => absurd how (hnone peer hmem)⟩
      rw [hshown]
      exact ⟨(nomatch ·), fun ⟨peer, hmem, how⟩ => absurd how (hnone peer hmem)⟩
  | some last =>
    obtain ⟨height, hheight⟩ := Option.isSome_iff_exists.1 (hheights last (List.mem_of_getLast? hlast))
    have hknown : entry.ledgerHeight = some (.known height) := by rw [hshown, hlast]; simp [hheight]
    constructor
    · intro h
      refine ⟨hheights, fun last' h' => ?_⟩
      obtain rfl : last = last' := by rw [hlast] at h'; exact Option.some.inj h'
      refine ⟨h.shown_iff.1 (by rw [hknown]; rfl), fun peer hmem how => ?_⟩
      have hpeer := h.height peer hmem how
      rw [hknown] at hpeer
      rw [hheight]
      exact Option.map_injective (fun _ _ => Height.known.inj) hpeer.symm
    · intro h
      obtain ⟨hown, hsame⟩ := h.own last hlast
      refine ⟨⟨fun _ => hown, fun _ => by rw [hknown]; rfl⟩, fun peer hmem how => ?_⟩
      rw [hknown, hsame peer hmem how, hheight]
      rfl

/-- The entry of a PEER whose organisation is listed. -/
theorem entryOf_peer {results : Results} {nodes : List Node} (hlists : ListsOrgs results nodes) {node : Node}
    (hnode : node ∈ nodes) (hpeer : node.peerType = "PEER") :
    entryOf (some results) node =
      (peerHeight node (results.listedFor node)).map fun shown => ⟨node, "DOWN", shown⟩ := by
  obtain ⟨orgs, peers, horgs, horg⟩ := hlists.peers node hnode hpeer
  have hlisted : results.listedFor node = peers := by simp [Results.listedFor, horgs, horg]
  rw [hlisted]
  cases hheight : peerHeight node peers <;> simp [entryOf, hpeer, peerEntry, horgs, horg, hheight]

/-- An ORDERER whose organisation is listed has an entry. -/
theorem entryOf_orderer {results : Results} {nodes : List Node} (hlists : ListsOrgs results nodes)
    {node : Node} (hnode : node ∈ nodes) (hpeer : node.peerType ≠ "PEER") (hlisted : node.listed) :
    (entryOf (some results) node).isSome := by
  have horderer : node.peerType = "ORDERER" := by
    rcases of_decide_eq_true hlisted with h | h
    · exact absurd h hpeer
    · exact h
  obtain ⟨orgs, endpoints, horgs, horg⟩ := hlists.orderers node hnode horderer
  simp [entryOf, hpeer, ordererEntry, horgs, horg]

/-- **Own height.** When all organisations are listed, the request answers and
shows each PEER the height of its own endpoint, and none if that is not
listed, exactly when the last endpoint that contains a host name has the
height of the host's own. -/
theorem peersStatus_ownHeight_iff (results : Results) (nodes : List Node)
    (hlists : ListsOrgs results nodes) :
    (∃ peers, getPeersStatus true (some results) nodes = some peers ∧
        ∀ entry ∈ peers, entry.node.peerType = "PEER" → ShowsOwn (results.listedFor entry.node) entry) ↔
      ∀ node ∈ nodes, node.peerType = "PEER" → LastIsOwn node (results.listedFor node) := by
  simp only [getPeersStatus_eq_some, discoverResults, if_true]
  constructor
  · rintro ⟨peers, hpeers, hshows⟩ node hnode hpeer
    have hlisted : node ∈ nodes.filter Node.listed := List.mem_filter.2 ⟨hnode, by simp [Node.listed, hpeer]⟩
    obtain ⟨entry, hentry, heq⟩ := List.mem_map.1 (hpeers ▸ List.mem_map_of_mem hlisted)
    have hof : entryOf (some results) node = some entry := heq.symm
    rw [entryOf_peer hlists hnode hpeer, Option.map_eq_some_iff] at hof
    obtain ⟨shown, hshown, rfl⟩ := hof
    exact (showsOwn_iff ⟨node, "DOWN", shown⟩ _ hshown).1 (hshows _ hentry hpeer)
  · intro hlast
    have hsome : ∀ node ∈ nodes.filter Node.listed, (entryOf (some results) node).isSome := by
      intro node hnode
      obtain ⟨hnode, hlisted⟩ := List.mem_filter.1 hnode
      by_cases hpeer : node.peerType = "PEER"
      · rw [entryOf_peer hlists hnode hpeer, Option.isSome_map, Option.isSome_iff_exists]
        exact ⟨_, peerHeight_eq_some.2 ⟨(hlast node hnode hpeer).heights, rfl⟩⟩
      · exact entryOf_orderer hlists hnode hpeer hlisted
    obtain ⟨peers, hpeers⟩ := exists_map_some_iff.2 hsome
    refine ⟨peers, hpeers, fun entry hentry hpeer => ?_⟩
    obtain ⟨node, hnode, hof⟩ := List.mem_map.1 (hpeers ▸ List.mem_map_of_mem (f := some) hentry)
    have hentryNode : entry.node = node := entryOf_node hof
    subst hentryNode
    have hmem := (List.mem_filter.1 hnode).1
    rw [entryOf_peer hlists hmem hpeer, Option.map_eq_some_iff] at hof
    obtain ⟨shown, hshown, heq⟩ := hof
    have hheight : peerHeight entry.node (results.listedFor entry.node) = some entry.ledgerHeight := by
      rw [hshown, ← heq]
    exact (showsOwn_iff entry _ hheight).2 (hlast _ hmem hpeer)

/-- One peer, and one whose name is longer. -/
def similarHosts : Results := ⟨some [("Org1MSP", [peerAt "peer1:7051" 5, peerAt "peer10:7051" 9])], none⟩

theorem similarHosts_lists (serverHostname : String) :
    ListsOrgs similarHosts [peerNode serverHostname "Org1MSP"] where
  peers node hnode _ := by
    obtain rfl := List.mem_singleton.1 hnode
    exact ⟨_, [peerAt "peer1:7051" 5, peerAt "peer10:7051" 9], rfl, by simp [peerNode]⟩
  orderers node hnode horderer := by
    obtain rfl := List.mem_singleton.1 hnode
    cases (by decide : "PEER" ≠ "ORDERER") horderer

theorem peersStatus_ownHeight_iff_peer10 :
    ∃ peers, getPeersStatus true (some similarHosts) [peerNode "peer10" "Org1MSP"] = some peers ∧
      ∀ entry ∈ peers, entry.node.peerType = "PEER" → ShowsOwn (similarHosts.listedFor entry.node) entry := by
  refine (peersStatus_ownHeight_iff similarHosts _ (similarHosts_lists "peer10")).2 fun node hnode _ => ?_
  obtain rfl := List.mem_singleton.1 hnode
  have hlisted : similarHosts.listedFor (peerNode "peer10" "Org1MSP") =
      [peerAt "peer1:7051" 5, peerAt "peer10:7051" 9] := by decide +kernel
  have hmatching : matching (peerNode "peer10" "Org1MSP") [peerAt "peer1:7051" 5, peerAt "peer10:7051" 9] =
      [peerAt "peer10:7051" 9] := by decide +kernel
  have hown : Own (peerNode "peer10" "Org1MSP") (peerAt "peer10:7051" 9) := by
    unfold Own
    decide +kernel
  have hother : ¬ Own (peerNode "peer10" "Org1MSP") (peerAt "peer1:7051" 5) := by
    unfold Own
    decide +kernel
  rw [hlisted]
  refine ⟨?_, ?_⟩
  · rw [hmatching]
    simp [peerAt]
  · rw [hmatching]
    rintro last ⟨⟩
    refine ⟨⟨_, by simp, hown⟩, fun peer hmem how => ?_⟩
    rcases List.mem_pair.1 hmem with rfl | rfl
    · exact absurd how hother
    · rfl

/-- The height of `peer10` is shown for `peer1`. -/
theorem peersStatus_otherHeight :
    ListsOrgs similarHosts [peerNode "peer1" "Org1MSP"] ∧
      (((similarHosts.peersByOrg.getD []).flatMap Prod.snd).map fun peer => host peer.endpoint).Nodup ∧
      getPeersStatus true (some similarHosts) [peerNode "peer1" "Org1MSP"] =
        some [⟨peerNode "peer1" "Org1MSP", "DOWN", some (.known ⟨9, 0, true⟩)⟩] ∧
      ¬ ∃ peers, getPeersStatus true (some similarHosts) [peerNode "peer1" "Org1MSP"] = some peers ∧
        ∀ entry ∈ peers, entry.node.peerType = "PEER" → ShowsOwn (similarHosts.listedFor entry.node) entry := by
  have hshown : getPeersStatus true (some similarHosts) [peerNode "peer1" "Org1MSP"] =
      some [⟨peerNode "peer1" "Org1MSP", "DOWN", some (.known ⟨9, 0, true⟩)⟩] := by decide +kernel
  refine ⟨similarHosts_lists "peer1", by decide +kernel, hshown, ?_⟩
  rintro ⟨peers, hpeers, hshows⟩
  rw [hshown] at hpeers
  cases hpeers
  have hmem : peerAt "peer1:7051" 5 ∈ similarHosts.listedFor (peerNode "peer1" "Org1MSP") := by
    decide +kernel
  have hown : Own (peerNode "peer1" "Org1MSP") (peerAt "peer1:7051" 5) := by
    unfold Own
    decide +kernel
  have hheight := (hshows _ List.mem_cons_self rfl).height _ hmem hown
  cases hheight

end Explorer.Fabric.PeerStatus
