import Explorer.Fabric.NetworkConfig

/-!
# No row of the catalogue twice

Every save of discovery is a count and, if it is zero, an insertion. The count
can be old when the row is inserted: another run has found the same peer or
chaincode meanwhile.

* `Catalogue.Unique`: each of the four tables has its keys once.
* `unique_insert`: an insertion keeps that if and only if the count, made
  again now, would still be zero.
* `catalogue_unique_iff`: the outcome, for every run.
* `catalogue_unique_alone`: runs that do not overlap never insert twice.
-/
namespace Explorer.Fabric

/-! ## Keys -/

def PeerRow.key (r : PeerRow) : String × String × String :=
  (r.networkName, r.channelGenesisHash, r.serverHostname)

def PeerRefChannelRow.key (r : PeerRefChannelRow) : String × String × String :=
  (r.networkName, r.channelid, r.peerid)

def ChaincodeRow.key (r : ChaincodeRow) : String × String × String × String × String :=
  (r.networkName, r.channelGenesisHash, r.name, r.version, r.path)

def PeerRefChaincodeRow.key (r : PeerRefChaincodeRow) : String × String × String × String × String :=
  (r.networkName, r.channelid, r.peerid, r.chaincodeid, r.ccVersion)

/-- At most one row for each key, in each table. -/
structure Catalogue.Unique (c : Catalogue) : Prop where
  peer : (c.peer.map PeerRow.key).Nodup
  peerRefChannel : (c.peerRefChannel.map PeerRefChannelRow.key).Nodup
  chaincodes : (c.chaincodes.map ChaincodeRow.key).Nodup
  peerRefChaincode : (c.peerRefChaincode.map PeerRefChaincodeRow.key).Nodup

/-- The count of a save, made now, is zero. -/
def Save.isNew (networkName : String) (c : Catalogue) (save : Save) : Bool :=
  (save.run networkName c .count).2 = some .insert

section
variable {R K : Type} {key : R → K} {same : R → Bool} {row : R} {table : List R}

theorem saveRow_count (hsame : ∀ r, same r = true ↔ key r = key row) :
    (SaveRow.run same row table .count).2 = some .insert ↔ key row ∉ table.map key := by
  have hcount : isValidRow (table.countP same) = true ↔ key row ∉ table.map key := by
    simp only [isValidRow, decide_eq_true_eq, List.countP_eq_zero, hsame, List.mem_map, not_exists, not_and]
  rw [← hcount, SaveRow.run]
  cases isValidRow (table.countP same) <;> simp

/-- Inserting is safe exactly when the count is zero. -/
theorem nodup_insert (hsame : ∀ r, same r = true ↔ key r = key row) (h : (table.map key).Nodup) :
    ((SaveRow.run same row table .insert).1.map key).Nodup ↔
      (SaveRow.run same row table .count).2 = some .insert := by
  rw [saveRow_count hsame, SaveRow.run, List.map_append, List.map_singleton, List.nodup_append_comm,
    List.singleton_append, List.nodup_cons]
  exact and_iff_left h

end

/-! ## Saving -/

section
variable {networkName : String}

theorem same_peer (row r : PeerRow) :
    decide (r.channelGenesisHash = row.channelGenesisHash ∧ r.networkName = networkName ∧
      r.serverHostname = row.serverHostname) = true ↔
      r.key = PeerRow.key { row with networkName := networkName } := by
  simp only [PeerRow.key, decide_eq_true_eq, Prod.mk.injEq]
  tauto

theorem same_peerChannelRef (row r : PeerRefChannelRow) :
    decide (r.peerid = row.peerid ∧ r.networkName = networkName ∧ r.channelid = row.channelid) = true ↔
      r.key = PeerRefChannelRow.key { row with networkName := networkName } := by
  simp only [PeerRefChannelRow.key, decide_eq_true_eq, Prod.mk.injEq]
  tauto

theorem same_chaincode (row r : ChaincodeRow) :
    decide (r.name = row.name ∧ r.channelGenesisHash = row.channelGenesisHash ∧
      r.networkName = networkName ∧ r.version = row.version ∧ r.path = row.path) = true ↔
      r.key = ChaincodeRow.key { row with networkName := networkName } := by
  simp only [ChaincodeRow.key, decide_eq_true_eq, Prod.mk.injEq]
  tauto

theorem same_chaincodePeerRef (row r : PeerRefChaincodeRow) :
    decide (r.peerid = row.peerid ∧ r.chaincodeid = row.chaincodeid ∧ r.ccVersion = row.ccVersion ∧
      r.channelid = row.channelid ∧ r.networkName = networkName) = true ↔
      r.key = PeerRefChaincodeRow.key { row with networkName := networkName } := by
  simp only [PeerRefChaincodeRow.key, decide_eq_true_eq, Prod.mk.injEq]
  tauto

theorem run_count (c : Catalogue) (save : Save) : (save.run networkName c .count).1 = c := by
  cases save <;> rfl

theorem saveRow_next {R : Type} {same : R → Bool} {row : R} {table : List R} {stmt stmt' : SaveRow}
    (h : (SaveRow.run same row table stmt).2 = some stmt') : stmt = .count ∧ stmt' = .insert := by
  cases stmt with
  | count =>
    simp only [SaveRow.run] at h
    split at h <;> cases h
    exact ⟨rfl, rfl⟩
  | insert => cases h

theorem run_next {c : Catalogue} {save : Save} {stmt stmt' : SaveRow}
    (h : (save.run networkName c stmt).2 = some stmt') : stmt = .count ∧ stmt' = .insert := by
  cases save <;> exact saveRow_next h

theorem unique_count {c : Catalogue} (h : c.Unique) (save : Save) :
    (save.run networkName c .count).1.Unique := by
  rwa [run_count]

theorem unique_insert {c : Catalogue} {save : Save} (h : c.Unique) :
    (save.run networkName c .insert).1.Unique ↔ save.isNew networkName c = true := by
  rw [Save.isNew, decide_eq_true_eq]
  cases save with
  | peer row =>
    refine Iff.trans ?_ (nodup_insert (same_peer row) h.peer)
    exact ⟨Catalogue.Unique.peer, fun h' => ⟨h', h.peerRefChannel, h.chaincodes, h.peerRefChaincode⟩⟩
  | peerChannelRef row =>
    refine Iff.trans ?_ (nodup_insert (same_peerChannelRef row) h.peerRefChannel)
    exact ⟨Catalogue.Unique.peerRefChannel, fun h' => ⟨h.peer, h', h.chaincodes, h.peerRefChaincode⟩⟩
  | chaincode row =>
    refine Iff.trans ?_ (nodup_insert (same_chaincode row) h.chaincodes)
    exact ⟨Catalogue.Unique.chaincodes, fun h' => ⟨h.peer, h.peerRefChannel, h', h.peerRefChaincode⟩⟩
  | chaincodePeerRef row =>
    refine Iff.trans ?_ (nodup_insert (same_chaincodePeerRef row) h.peerRefChaincode)
    exact ⟨Catalogue.Unique.peerRefChaincode, fun h' => ⟨h.peer, h.peerRefChannel, h.chaincodes, h'⟩⟩

/-- Counting up `txcount` changes no key. -/
theorem chaincodes_resume {C : Client} (db : Db) (e : SyncService.Exec) :
    (e.resume C db).1.chaincodes.map ChaincodeRow.key = db.chaincodes.map ChaincodeRow.key := by
  rw [SyncService.resume_db]
  unfold SyncService.Exec.write
  split <;> try rfl
  simp only [updateTxcount, List.map_map]
  refine List.map_congr_left fun r _ => ?_
  simp only [Function.comp]
  split <;> rfl

end

namespace NetworkConfig

variable (C : DiscoveryClient) (L : SyncService.Ledger)

/-- Every state of the run has each row once. -/
def CatalogueUnique (s₀ : St) (evs : List Ev) : Prop :=
  ∀ pre post m, evs = pre ++ post → (lts C L (·.catalogue.Unique)).Run s₀ pre m → m.catalogue.Unique

/-! ## The condition on a step -/

/-- An insertion that is awaited is still one of a new row. -/
def keepsUnique (c : Catalogue) (d : Discovery) : Bool :=
  match d.pc with
  | .insertPeers _ save .insert _ | .insertChaincodes save .insert _ => save.isNew C.networkName c
  | _ => true

def Task.discovery? : Task → Option Discovery
  | .network ⟨_, .discovery d⟩ => some d
  | .network _ => none
  | .discovery d => some d

def keepsCatalogue (s : St) (ev : Ev) : Bool :=
  match (writer s ev).bind Task.discovery? with
  | some d => keepsUnique C s.catalogue d
  | none => true

variable {C} {L}

theorem write_task {s : St} (t : Task) : (t.write C s).catalogue =
    match t.discovery? with
    | some d => Discovery.write C s.catalogue d
    | none => s.catalogue := by
  cases t with
  | network n =>
    obtain ⟨next, pc⟩ := n
    cases pc with
    | saveChannel channelName hash stmt => cases stmt <;> rfl
    | queryChannels | newGenesisBlock | newBlockHash | genesisBlock | blockHash | getChannel
    | existChannel | timeStamp | discovery => rfl
  | discovery d => rfl

theorem unique_write {c : Catalogue} {d : Discovery} (h : c.Unique) :
    (Discovery.write C c d).Unique ↔ keepsUnique C c d = true := by
  unfold Discovery.write keepsUnique
  cases hpc : d.pc with
  | initializeChannelFromDiscover => exact iff_of_true h rfl
  | insertPeers results save stmt rest =>
    cases stmt with
    | count => exact iff_of_true (unique_count h save) rfl
    | insert => exact unique_insert h
  | queryInstantiatedChaincodes results => exact iff_of_true h rfl
  | insertChaincodes save stmt rest =>
    cases stmt with
    | count => exact iff_of_true (unique_count h save) rfl
    | insert => exact unique_insert h

/-- The keys are the same. -/
structure SameKeys (c c' : Catalogue) : Prop where
  peer : c'.peer = c.peer
  peerRefChannel : c'.peerRefChannel = c.peerRefChannel
  chaincodes : c'.chaincodes.map ChaincodeRow.key = c.chaincodes.map ChaincodeRow.key
  peerRefChaincode : c'.peerRefChaincode = c.peerRefChaincode

theorem SameKeys.unique {c c' : Catalogue} (h : SameKeys c c') (hc : c.Unique) : c'.Unique where
  peer := h.peer ▸ hc.peer
  peerRefChannel := h.peerRefChannel ▸ hc.peerRefChannel
  chaincodes := h.chaincodes ▸ hc.chaincodes
  peerRefChaincode := h.peerRefChaincode ▸ hc.peerRefChaincode

theorem SameKeys.isNew {c c' : Catalogue} {networkName : String} (h : SameKeys c c') (save : Save) :
    save.isNew networkName c' = save.isNew networkName c := by
  obtain ⟨peer, peerRefChannel, chaincodes, peerRefChaincode⟩ := c'
  obtain ⟨rfl, rfl, hkeys, rfl⟩ := h
  cases save with
  | peer row | peerChannelRef row | chaincodePeerRef row => rfl
  | chaincode row =>
    rw [Bool.eq_iff_iff, Save.isNew, Save.isNew, decide_eq_true_eq, decide_eq_true_eq]
    refine (saveRow_count (same_chaincode row)).trans (Iff.trans ?_ (saveRow_count (same_chaincode row)).symm)
    rw [hkeys]

theorem Processed.sameKeys {s s' : St} (h : Processed C s s') : SameKeys s.catalogue s'.catalogue where
  peer := h.peer
  peerRefChannel := h.peerRefChannel
  chaincodes := by
    obtain heq | ⟨e, heq⟩ := h.db
    · exact congrArg (fun db : Db => db.chaincodes.map ChaincodeRow.key) heq
    · exact (congrArg (fun db : Db => db.chaincodes.map ChaincodeRow.key) heq).trans (chaincodes_resume s.db e)
  peerRefChaincode := h.peerRefChaincode

/-- **What one step does to the catalogue.** -/
theorem keepsCatalogue_iff {s s' : St} {ev : Ev} (hc : s.catalogue.Unique) (hs : step C L s ev = some s') :
    s'.catalogue.Unique ↔ keepsCatalogue C s ev = true := by
  obtain ⟨t, ht, hsame⟩ | ⟨hw, hsame⟩ | ⟨hw, hprocess⟩ := step_cases hs
  · rw [keepsCatalogue, ht, hsame.catalogue, write_task, Option.bind_some]
    cases t.discovery? with
    | some d => exact unique_write hc
    | none => exact iff_of_true hc rfl
  · rw [keepsCatalogue, hw, hsame.catalogue]
    exact iff_of_true hc rfl
  · rw [keepsCatalogue, hw]
    exact iff_of_true (hprocess.sameKeys.unique hc) rfl

theorem unique_iff {s₀ s : St} {evs : List Ev} (hc : s₀.catalogue.Unique)
    (hr : (lts C L (·.catalogue.Unique)).Run s₀ evs s) :
    CatalogueUnique C L s₀ evs ↔
      ((lts C L (·.catalogue.Unique)).restrict fun s ev => keepsCatalogue C s ev = true).Run s₀ evs s := by
  have hstep : ∀ s ev s', True → s.catalogue.Unique → step C L s ev = some s' →
      (s'.catalogue.Unique ↔ keepsCatalogue C s ev = true) :=
    fun s ev s' _ hc hs => keepsCatalogue_iff hc hs
  exact hr.always_iff (fun _ _ _ _ _ => trivial) hstep trivial hc

/-! ## Runs that do not overlap -/

/-- The insertion that a run awaits is still one of a new row. -/
def Counted (C : DiscoveryClient) (s : St) (t : Task) : Prop :=
  ∀ d, t.discovery? = some d → keepsUnique C s.catalogue d = true

theorem keepsUnique_congr {c c' : Catalogue} (h : SameKeys c c') (d : Discovery) :
    keepsUnique C c' d = keepsUnique C c d := by
  unfold keepsUnique
  split
  · exact h.isNew _
  · exact h.isNew _
  · rfl

theorem keepsUnique_nextPeer (c : Catalogue) (d : Discovery) (results : Option DiscoveryResults)
    (saves : List Save) : keepsUnique C c (d.nextPeer results saves) = true := by
  cases saves <;> rfl

theorem keepsUnique_nextChaincode {c : Catalogue} {d d' : Discovery} {saves : List Save}
    (h : d.nextChaincode saves = .await d') : keepsUnique C c d' = true := by
  cases saves with
  | nil => cases h
  | cons save rest =>
    cases h
    rfl

/-- After its count an insertion is one of a new row. -/
theorem isNew_of_count {c c' : Catalogue} {save : Save} {stmt stmt' : SaveRow}
    (h : save.run C.networkName c stmt = (c', some stmt')) :
    stmt' = .insert ∧ save.isNew C.networkName c' = true := by
  have hnext : (save.run C.networkName c stmt).2 = some stmt' := congrArg Prod.snd h
  obtain ⟨rfl, rfl⟩ := run_next hnext
  obtain rfl : c = c' := (run_count c save).symm.trans (congrArg Prod.fst h)
  exact ⟨rfl, decide_eq_true hnext⟩

theorem keepsUnique_resume {d d' : Discovery} {c c' : Catalogue} {reply : Reply}
    (h : d.resume C c reply = some (c', .await d')) : keepsUnique C c' d' = true := by
  unfold Discovery.resume at h
  split at h
  · cases h
    exact keepsUnique_nextPeer _ _ _ _
  · split at h
    · rename_i hrun
      cases h
      obtain ⟨rfl, hnew⟩ := isNew_of_count hrun
      exact hnew
    · cases h
      exact keepsUnique_nextPeer _ _ _ _
  · simp only [Option.some.injEq, Prod.mk.injEq] at h
    exact keepsUnique_nextChaincode h.2
  · split at h
    · rename_i hrun
      cases h
      obtain ⟨rfl, hnew⟩ := isNew_of_count hrun
      exact hnew
    · simp only [Option.some.injEq, Prod.mk.injEq] at h
      exact keepsUnique_nextChaincode h.2
  · cases h

theorem discovery_nextChannel {channels : List String} {next : Nat} {n : Network}
    (h : nextChannel channels next = .await n) : (Task.network n).discovery? = none := by
  unfold nextChannel at h
  split at h
  · cases h
    rfl
  · cases h

theorem discovery_nextNewChannel {channels rest : List String} {n : Network}
    (h : nextNewChannel channels rest = .await n) : (Task.network n).discovery? = none := by
  induction rest with
  | nil => exact discovery_nextChannel h
  | cons channelName rest ih =>
    unfold nextNewChannel at h
    split at h
    · exact ih h
    · cases h
      rfl

/-- A run of `synchNetworkConfigToDB` begins its discoveries at their start. -/
theorem discovery_resume {n n' : Network} {s s' : St} {reply : Reply} {d : Discovery}
    (h : n.resume C s reply = some (s', .await n')) (hd : (Task.network n').discovery? = some d) :
    keepsUnique C s'.catalogue d = true := by
  unfold Network.resume at h
  split at h
  · cases h
  · simp only [Option.some.injEq, Prod.mk.injEq] at h
    rw [discovery_nextNewChannel h.2] at hd
    cases hd
  · cases h
    cases hd
  · cases h
  · simp only [Option.some.injEq, Prod.mk.injEq] at h
    rw [discovery_nextNewChannel h.2] at hd
    cases hd
  · cases h
    cases hd
  · cases h
  · cases h
    cases hd
  · split at h <;> cases h <;> cases hd
    rfl
  · split at h
    · split at h <;> cases h <;> cases hd
      rfl
    · cases h
  · cases h
    cases hd
  · split at h <;> cases h <;> cases hd
    rfl
  · split at h
    · rename_i hrun
      cases h
      cases hd
      exact keepsUnique_resume hrun
    · simp only [Option.some.injEq, Prod.mk.injEq] at h
      rw [discovery_nextChannel h.2] at hd
      cases hd
    · cases h
    · cases h
  · cases h

theorem counted_knowledge : Knowledge C (Counted C) where
  timer s d hd := by cases hd
  discover s hash d hd := by
    cases hd
    rfl
  same s s' t h ht d hd := by
    rw [h.catalogue]
    exact ht d hd
  processed s s' t h ht d hd := by
    rw [keepsUnique_congr h.sameKeys]
    exact ht d hd
  resume s s' t r ts ht h t' ht' d hd := by
    cases t with
    | network n =>
      obtain ⟨⟨s₁, o⟩, hn, heq⟩ := Option.map_eq_some_iff.1 h
      cases heq
      obtain ⟨n', hn', rfl⟩ := List.mem_map.1 ht'
      rw [Outcome.mem_execs] at hn'
      subst hn'
      exact discovery_resume hn hd
    | discovery d₀ =>
      obtain ⟨⟨c, o⟩, hd₀, heq⟩ := Option.map_eq_some_iff.1 h
      cases heq
      obtain ⟨d', hd', rfl⟩ := List.mem_map.1 ht'
      cases hd
      rw [Outcome.mem_execs] at hd'
      subst hd'
      exact keepsUnique_resume hd₀

theorem alone_keepsCatalogue {s : St} (h : Alone (Counted C) s) (ev : Ev) : keepsCatalogue C s ev = true := by
  unfold keepsCatalogue
  split
  · rename_i d hd
    obtain ⟨t, ht, htd⟩ := Option.bind_eq_some_iff.1 hd
    exact h.knows t (mem_of_writer ht) d htd
  · rfl

theorem catalogue_unique_alone (db : Db) (c : Catalogue) (hc : c.Unique) (evs : List Ev) (s : St)
    (hr : ((lts C L (·.catalogue.Unique)).restrict fun s ev => alone s ev = true).Run (.init db c) evs s) :
    CatalogueUnique C L (.init db c) evs := by
  have hunique : (St.init db c).catalogue.Unique := hc
  have halone : Alone (Counted C) (St.init db c) := alone_init db c
  refine (unique_iff hunique hr.of_restrict).2 (hr.restrict_of (fun s ev s' h ha hs => ?_) halone)
  exact ⟨alone_step counted_knowledge h ha hs, alone_keepsCatalogue h ev⟩

/-! ## Whole runs -/

/-- A peer with one chaincode, and an orderer. -/
def onePeer : DiscoveryResults where
  peersByOrg := some [("Org1MSP", [⟨"Org1MSP", "peer0.org1:7051", [⟨"fabcar", "1.0"⟩]⟩])]
  orderers := some [("OrdererMSP", [⟨"orderer", 7050⟩])]

/-- The replies to a run that inserts all of it. -/
def insertAll : List Reply :=
  .discovered (some onePeer) :: List.replicate 8 .executed ++
    .instantiated [⟨"fabcar", "1.0", none⟩] :: List.replicate 4 .executed

/-- The replies to a run that finds all of it stored. -/
def insertNothing : List Reply :=
  .discovered (some onePeer) :: List.replicate 4 .executed ++
    .instantiated [⟨"fabcar", "1.0", none⟩] :: List.replicate 2 .executed

/-- Two runs, one after the other. -/
def discoverAgain : List Ev :=
  .discover "genesis" :: insertAll.map (.reply 0) ++ .discover "genesis" :: insertNothing.map (.reply 0)

/-- Two runs, each statement of one followed by the same of the other. -/
def discoverTwice : List Ev :=
  [.discover "genesis", .discover "genesis"] ++ insertAll.flatMap fun r => [.reply 0 r, .reply 0 r]

end NetworkConfig
end Explorer.Fabric
