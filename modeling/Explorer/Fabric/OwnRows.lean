import Explorer.Core.SharedStore
import Explorer.Fabric.NetworkConfig

/-!
# The rows of one network

In every table that the sync process writes, a row carries the name of its
network, and every statement has it in its condition or in the row it inserts.
So a step reads the rows of its own network only and changes no others, if
the transaction rows that its executions hold are its own (`Owned`).

* `Db.only`, `Catalogue.only`, `Store.only`: the rows of one network.
* `step_only`: a step depends on these alone.
* `step_others`: it leaves the rows of the other networks as they are.
-/
namespace Explorer.Fabric

open SharedStore

/-! ## The rows of one network -/

def Db.only (networkName : String) (db : Db) : Db where
  blocks := rowsOf BlockRow.networkName (some networkName) db.blocks
  transactions := rowsOf TransactionRow.networkName networkName db.transactions
  channel := rowsOf ChannelRow.networkName networkName db.channel
  chaincodes := rowsOf ChaincodeRow.networkName networkName db.chaincodes

def Catalogue.only (networkName : String) (c : Catalogue) : Catalogue where
  peer := rowsOf PeerRow.networkName networkName c.peer
  peerRefChannel := rowsOf PeerRefChannelRow.networkName networkName c.peerRefChannel
  chaincodes := rowsOf ChaincodeRow.networkName networkName c.chaincodes
  peerRefChaincode := rowsOf PeerRefChaincodeRow.networkName networkName c.peerRefChaincode

section
variable {networkName : String}

/-! ## Block processing -/

theorem countBlocks_only (block : BlockRow) (db : Db) :
    countBlocks networkName block (db.only networkName) = countBlocks networkName block db :=
  countP_rowsOf db.blocks fun _ h => (of_decide_eq_true h).2.2.2.1

theorem countTransactions_only (transaction : TransactionRow) (db : Db) :
    countTransactions networkName transaction (db.only networkName) = countTransactions networkName transaction db :=
  countP_rowsOf db.transactions fun _ h => (of_decide_eq_true h).2.2.2

theorem findMissingBlockNumber_only (hash : String) (maxHeight : Int) (db : Db) :
    findMissingBlockNumber networkName hash maxHeight (db.only networkName) =
      findMissingBlockNumber networkName hash maxHeight db := by
  unfold findMissingBlockNumber
  refine List.filter_congr fun id _ => congrArg _ ?_
  exact any_rowsOf db.blocks fun _ h => (of_decide_eq_true h).2.2

theorem within_insertBlock (block : BlockRow) : Within Db.only networkName (insertBlock networkName block) where
  self db := by simp only [insertBlock, Db.only, rowsOf_append_self]
  other db m hm := by
    simp only [insertBlock, Db.only]
    rw [rowsOf_append_other]
    exact fun h => hm (Option.some.inj h).symm

theorem within_insertTransaction {transaction : TransactionRow} (h : transaction.networkName = networkName) :
    Within Db.only networkName (insertTransaction transaction) where
  self db := by simp only [insertTransaction, Db.only, rowsOf_append_self _ h]
  other db m hm := by
    have hrow : transaction.networkName ≠ m := fun heq => hm (heq.symm.trans h)
    simp only [insertTransaction, Db.only, rowsOf_append_other _ hrow]

theorem within_updateChannel (hash : String) {set : ChannelRow → ChannelRow}
    (hset : ∀ r, (set r).networkName = r.networkName) :
    Within Db.only networkName (updateChannel networkName hash set) := by
  have hkeeps : ∀ r : ChannelRow, (if r.channelGenesisHash = hash ∧ r.networkName = networkName then set r
      else r).networkName = r.networkName := by
    intro r
    split
    · exact hset r
    · rfl
  refine ⟨fun db => ?_, fun db m hm => ?_⟩
  · simp only [updateChannel, Db.only]
    rw [rowsOf_map_self _ hkeeps]
  · simp only [updateChannel, Db.only]
    rw [rowsOf_map_other _ hkeeps fun r hr => if_neg fun h => hm (hr.symm.trans h.2)]

theorem within_updateTxcount (transaction : TransactionRow) :
    Within Db.only networkName (updateTxcount networkName transaction) := by
  have hkeeps : ∀ r : ChaincodeRow, (if r.channelGenesisHash = transaction.channelGenesisHash ∧
      r.networkName = networkName ∧ r.name = transaction.chaincodename then { r with txcount := r.txcount + 1 }
      else r).networkName = r.networkName := by
    intro r
    split <;> rfl
  refine ⟨fun db => ?_, fun db m hm => ?_⟩
  · simp only [updateTxcount, Db.only]
    rw [rowsOf_map_self _ hkeeps]
  · simp only [updateTxcount, Db.only]
    rw [rowsOf_map_other _ hkeeps fun r hr => if_neg fun h => hm (hr.symm.trans h.2.1)]

end

namespace SyncService

variable {C : Client} {L : Ledger}

/-- The transaction row that an execution holds is one of the network. -/
def Exec.Owned (networkName : String) (e : Exec) : Prop :=
  ∀ block i row stmt, e.pc = .saveTransaction block i row stmt → row.networkName = networkName

theorem within_write {e : Exec} (h : e.Owned C.networkName) : Within Db.only C.networkName (e.write C) := by
  unfold Exec.write
  cases hpc : e.pc with
  | timeStamp | blockHash => exact within_id _ _
  | saveTransaction block i row stmt =>
    cases stmt with
    | count => exact within_id _ _
    | insert => exact within_insertTransaction (h block i row _ hpc)
    | chaincodes => exact within_updateTxcount row
    | channel => exact within_updateChannel _ fun _ => rfl
  | saveBlock block stmt =>
    cases stmt with
    | count => exact within_id _ _
    | insert => exact within_insertBlock block
    | channel => exact within_updateChannel _ fun _ => rfl

/-- What is read are the rows of the network. -/
theorem outcome_only (e : Exec) (db : Db) :
    (e.resume C (db.only C.networkName)).2 = (e.resume C db).2 := by
  cases hpc : e.pc with
  | timeStamp | blockHash => simp only [Exec.resume, hpc]
  | saveTransaction block i row stmt =>
    rw [resume_saveTransaction hpc, resume_saveTransaction hpc]
    cases stmt with
    | count => simp only [SaveTransaction.run, countTransactions_only]
    | insert | chaincodes | channel => rfl
  | saveBlock block stmt =>
    rw [resume_saveBlock hpc, resume_saveBlock hpc]
    cases stmt with
    | count => simp only [SaveBlock.run, countBlocks_only]
    | insert | channel => rfl

theorem resume_only {e : Exec} (h : e.Owned C.networkName) (db : Db) :
    e.resume C (db.only C.networkName) = ((e.resume C db).1.only C.networkName, (e.resume C db).2) := by
  refine Prod.ext ?_ (outcome_only e db)
  rw [resume_db, resume_db, (within_write h).self]

theorem owned_nextTransaction {e e' : Exec} {block : BlockRow} {i : Nat}
    (h : e.nextTransaction C block i = .await e') : e'.Owned C.networkName := by
  unfold Exec.nextTransaction at h
  split at h
  · split at h
    · rename_i row hrow
      cases h
      rintro _ _ _ _ ⟨⟩
      exact (transactionRow_key hrow).1
    · cases h
  · cases h
    rintro _ _ _ _ ⟨⟩

theorem owned_resume {e e' : Exec} {db : Db} (h : e.Owned C.networkName) (hres : (e.resume C db).2 = .await e') :
    e'.Owned C.networkName := by
  cases hpc : e.pc with
  | timeStamp =>
    simp only [Exec.resume, hpc] at hres
    cases hres
    rintro _ _ _ _ ⟨⟩
  | blockHash =>
    simp only [Exec.resume, hpc] at hres
    split at hres
    · exact owned_nextTransaction hres
    · cases hres
  | saveTransaction block i row stmt =>
    rw [resume_saveTransaction hpc] at hres
    split at hres
    · cases hres
      rintro _ _ _ _ ⟨⟩
      exact h _ _ _ _ hpc
    · exact owned_nextTransaction hres
  | saveBlock block stmt =>
    rw [resume_saveBlock hpc] at hres
    split at hres
    · cases hres
      rintro _ _ _ _ ⟨⟩
    · cases hres

/-! ## The process -/

def St.only (networkName : String) (s : St) : St := { s with db := s.db.only networkName }

/-- All executions hold rows of the network. -/
def St.Owned (networkName : String) (s : St) : Prop := ∀ e ∈ s.execs, e.Owned networkName

theorem owned_start (block : Block) (firstTx : Envelope) : (Exec.start C block firstTx).Owned C.networkName := by
  rintro _ _ _ _ ⟨⟩

theorem owned_step {s s' : St} {ev : Ev} (h : s.Owned C.networkName) (hs : step C L s ev = some s') :
    s'.Owned C.networkName := by
  rcases step_cases hs with ⟨-, hm⟩ | ⟨-, hl⟩
  · cases hm with
    | quiet hq | held _ _ _ _ _ _ hq => exact fun e he => h e (hq.execs.mem_iff.1 he)
    | started _ block firstTx _ _ _ _ _ hexecs =>
      intro e he
      obtain rfl | he := List.mem_cons.1 (hexecs.mem_iff.1 he)
      · exact owned_start block firstTx
      · exact h e he
    | resumed e rest hp hdb hr =>
      intro a ha
      obtain ha | ha := List.mem_append.1 (hr.execs.mem_iff.1 ha)
      · exact owned_resume (h e (hp.mem_iff.2 List.mem_cons_self)) (Outcome.mem_execs.1 ha)
      · exact h a (hp.mem_iff.2 (List.mem_cons_of_mem _ ha))
  · cases hl with
    | quiet hq => exact fun e he => h e (hq.execs.mem_iff.1 he)
    | failed e rest hp _ _ hrest => exact fun a ha => h a (hp.mem_iff.2 (List.mem_cons_of_mem _ (hrest.mem_iff.1 ha)))
    | crashed _ _ hexecs =>
      intro e he
      rw [hexecs] at he
      cases he

theorem nextMissing_only (n : String) (s : St) (channelName : String) (ids : List Nat) :
    (s.only n).nextMissing C channelName ids = (s.nextMissing C channelName ids).only n := by
  cases ids <;> rfl

theorem returnTo_only (n : String) (s : St) (owner : Owner) :
    (s.only n).returnTo C owner = (s.returnTo C owner).only n := by
  cases owner with
  | listener => rfl
  | synchBlocks channelName rest => exact nextMissing_only n s channelName rest

theorem processBlockEvent_only (n : String) (s : St) (owner : Owner) (block : Block) :
    (s.only n).processBlockEvent C owner block = (s.processBlockEvent C owner block).only n := by
  cases hdata : block.data with
  | nil => simp only [St.processBlockEvent, hdata]
  | cons firstTx txs =>
    simp only [St.processBlockEvent, hdata]
    by_cases hkey : blockProKey firstTx.channelId block.header.number ∈ s.blocksInProcess
    · have hkey' : blockProKey firstTx.channelId block.header.number ∈ (s.only n).blocksInProcess := hkey
      rw [if_pos hkey, if_pos hkey']
      exact returnTo_only n { s with delivered := s.delivered ++ [(firstTx.channelId, block.header.number)] } owner
    · have hkey' : blockProKey firstTx.channelId block.header.number ∉ (s.only n).blocksInProcess := hkey
      rw [if_neg hkey, if_neg hkey']
      rfl

theorem settle_only (n : String) (s : St) (owner : Owner) (key : String) (outcome : Outcome Exec (List Notify)) :
    (s.only n).settle C owner key outcome = (s.settle C owner key outcome).only n := by
  cases outcome with
  | await e | thrown => rfl
  | done notes =>
    exact returnTo_only n { s with blocksInProcess := release s.blocksInProcess key, sent := s.sent ++ notes } owner

/-- **A step of block processing** depends on the rows of the network alone. -/
theorem step_only {s : St} {ev : Ev} (h : s.Owned C.networkName) (hev : ∀ row, ev ≠ .discovered row) :
    step C L (s.only C.networkName) ev = (step C L s ev).map (St.only C.networkName) := by
  cases ev with
  | blockEvent channelName n =>
    simp only [step]
    split
    · rfl
    · rw [Option.map_map]
      exact congrArg (fun f => Option.map f _) (funext fun block => processBlockEvent_only _ s .listener block)
  | synchBlocks channelName =>
    have hheld : (s.only C.networkName).synchInProcess = s.synchInProcess := rfl
    simp only [step, hheld]
    split <;> rfl
  | chainInfo i height =>
    have htasks : (s.only C.networkName).tasks = s.tasks := rfl
    simp only [step, htasks]
    split
    · cases height <;> rfl
    · rfl
  | queryBlock i found =>
    have htasks : (s.only C.networkName).tasks = s.tasks := rfl
    simp only [step, htasks]
    split
    · cases found with
      | true =>
        simp only [if_true, Option.map_map]
        exact congrArg (fun f => Option.map f _)
          (funext fun block => processBlockEvent_only _ { s with tasks := s.tasks.eraseIdx i } _ block)
      | false => exact congrArg some (nextMissing_only _ { s with tasks := s.tasks.eraseIdx i } _ _)
    · rfl
  | run i =>
    have htasks : (s.only C.networkName).tasks = s.tasks := rfl
    have hdb : (s.only C.networkName).db = s.db.only C.networkName := rfl
    simp only [step, htasks, hdb]
    split
    · rename_i owner e hi
      rw [resume_only (h e (mem_execs hi))]
      exact congrArg some (settle_only _ { s with db := (e.resume C s.db).1, tasks := s.tasks.eraseIdx i } owner
        e.key (e.resume C s.db).2)
    · rw [findMissingBlockNumber_only]
      exact congrArg some (nextMissing_only _ { s with tasks := s.tasks.eraseIdx i } _ _)
    · rfl
  | fail i took =>
    have htasks : (s.only C.networkName).tasks = s.tasks := rfl
    have hdb : (s.only C.networkName).db = s.db.only C.networkName := rfl
    simp only [step, htasks, hdb]
    split
    · rename_i owner e hi
      rw [resume_only (h e (mem_execs hi))]
      cases took <;> rfl
    · rfl
    · rfl
  | discovered row => exact absurd rfl (hev row)
  | crash => rfl

/-- **It writes no other.** -/
theorem step_others {s s' : St} {ev : Ev} (h : s.Owned C.networkName) (hev : ∀ row, ev ≠ .discovered row)
    (hs : step C L s ev = some s') {m : String} (hm : m ≠ C.networkName) : s'.db.only m = s.db.only m := by
  have hwrite : ∀ {i : Nat} {owner : Owner} {e : Exec}, s.tasks[i]? = some (.block owner e) →
      (e.resume C s.db).1.only m = s.db.only m := by
    intro i owner e hi
    rw [resume_db]
    exact (within_write (h e (mem_execs hi))).other _ _ hm
  cases step_next hs with
  | genesis | refused | called | noHeight | height | noMissing | crash => rfl
  | @delivered channelName n block => rw [db_processBlockEvent]
  | noBlock | missing => exact congrArg (Db.only m) (db_returnTo _ (.synchBlocks _ _))
  | @found i id channelName rest block => rw [db_processBlockEvent]
  | @resumed i owner e hi =>
    rw [db_settle]
    exact hwrite hi
  | @rejected i took owner e hi =>
    cases took with
    | true => exact hwrite hi
    | false => rfl
  | discovered row => exact absurd rfl (hev row)

end SyncService

/-! ## Discovery -/

section
variable {networkName : String}

section
variable {R : Type} {network : R → String} {same : R → Bool} {row : R} (hrow : network row = networkName)
include hrow

theorem saveRow_only (hsame : ∀ r, same r = true → network r = networkName) (table : List R) (stmt : SaveRow) :
    SaveRow.run same row (rowsOf network networkName table) stmt =
      (rowsOf network networkName (SaveRow.run same row table stmt).1, (SaveRow.run same row table stmt).2) := by
  cases stmt with
  | count => simp only [SaveRow.run, countP_rowsOf table hsame]
  | insert => simp only [SaveRow.run, rowsOf_append_self table hrow]

theorem saveRow_other (table : List R) (stmt : SaveRow) {m : String} (hm : m ≠ networkName) :
    rowsOf network m (SaveRow.run same row table stmt).1 = rowsOf network m table := by
  cases stmt with
  | count => rfl
  | insert => exact rowsOf_append_other table fun h => hm (h.symm.trans hrow)

end

theorem savePeer_only (peer : PeerRow) (table : List PeerRow) (stmt : SaveRow) :
    savePeer networkName peer (rowsOf PeerRow.networkName networkName table) stmt =
      (rowsOf PeerRow.networkName networkName (savePeer networkName peer table stmt).1,
        (savePeer networkName peer table stmt).2) :=
  saveRow_only rfl (fun _ h => (of_decide_eq_true h).2.1) table stmt

theorem savePeerChannelRef_only (ref : PeerRefChannelRow) (table : List PeerRefChannelRow) (stmt : SaveRow) :
    savePeerChannelRef networkName ref (rowsOf PeerRefChannelRow.networkName networkName table) stmt =
      (rowsOf PeerRefChannelRow.networkName networkName (savePeerChannelRef networkName ref table stmt).1,
        (savePeerChannelRef networkName ref table stmt).2) :=
  saveRow_only rfl (fun _ h => (of_decide_eq_true h).2.1) table stmt

theorem saveChaincode_only (chaincode : ChaincodeRow) (table : List ChaincodeRow) (stmt : SaveRow) :
    saveChaincode networkName chaincode (rowsOf ChaincodeRow.networkName networkName table) stmt =
      (rowsOf ChaincodeRow.networkName networkName (saveChaincode networkName chaincode table stmt).1,
        (saveChaincode networkName chaincode table stmt).2) :=
  saveRow_only rfl (fun _ h => (of_decide_eq_true h).2.2.1) table stmt

theorem saveChaincodPeerRef_only (ref : PeerRefChaincodeRow) (table : List PeerRefChaincodeRow) (stmt : SaveRow) :
    saveChaincodPeerRef networkName ref (rowsOf PeerRefChaincodeRow.networkName networkName table) stmt =
      (rowsOf PeerRefChaincodeRow.networkName networkName (saveChaincodPeerRef networkName ref table stmt).1,
        (saveChaincodPeerRef networkName ref table stmt).2) :=
  saveRow_only rfl (fun _ h => (of_decide_eq_true h).2.2.2.2) table stmt

theorem save_only (save : Save) (c : Catalogue) (stmt : SaveRow) :
    save.run networkName (c.only networkName) stmt =
      ((save.run networkName c stmt).1.only networkName, (save.run networkName c stmt).2) := by
  cases save with
  | peer row => simp only [Save.run, Catalogue.only, savePeer_only]
  | peerChannelRef row => simp only [Save.run, Catalogue.only, savePeerChannelRef_only]
  | chaincode row => simp only [Save.run, Catalogue.only, saveChaincode_only]
  | chaincodePeerRef row => simp only [Save.run, Catalogue.only, saveChaincodPeerRef_only]

theorem save_other (save : Save) (c : Catalogue) (stmt : SaveRow) {m : String} (hm : m ≠ networkName) :
    (save.run networkName c stmt).1.only m = c.only m := by
  cases save with
  | peer row =>
    simp only [Save.run, Catalogue.only, savePeer]
    rw [saveRow_other rfl c.peer stmt hm]
  | peerChannelRef row =>
    simp only [Save.run, Catalogue.only, savePeerChannelRef]
    rw [saveRow_other rfl c.peerRefChannel stmt hm]
  | chaincode row =>
    simp only [Save.run, Catalogue.only, saveChaincode]
    rw [saveRow_other rfl c.chaincodes stmt hm]
  | chaincodePeerRef row =>
    simp only [Save.run, Catalogue.only, saveChaincodPeerRef]
    rw [saveRow_other rfl c.peerRefChaincode stmt hm]

end

section
variable {C : DiscoveryClient}

theorem discovery_only (d : Discovery) (c : Catalogue) (reply : Reply) :
    d.resume C (c.only C.networkName) reply =
      (d.resume C c reply).map fun r => (r.1.only C.networkName, r.2) := by
  unfold Discovery.resume
  cases d.pc with
  | initializeChannelFromDiscover => cases reply <;> rfl
  | insertPeers results save stmt rest =>
    cases reply with
    | executed =>
      simp only [save_only]
      obtain ⟨c', next⟩ := save.run C.networkName c stmt
      cases next <;> rfl
    | _ => rfl
  | queryInstantiatedChaincodes results => cases reply <;> rfl
  | insertChaincodes save stmt rest =>
    cases reply with
    | executed =>
      simp only [save_only]
      obtain ⟨c', next⟩ := save.run C.networkName c stmt
      cases next <;> rfl
    | _ => rfl

theorem discovery_write_only (d : Discovery) (c : Catalogue) :
    NetworkConfig.Discovery.write C (c.only C.networkName) d =
      (NetworkConfig.Discovery.write C c d).only C.networkName := by
  unfold NetworkConfig.Discovery.write
  cases d.pc with
  | insertPeers results save stmt rest => exact congrArg Prod.fst (save_only save c stmt)
  | insertChaincodes save stmt rest => exact congrArg Prod.fst (save_only save c stmt)
  | _ => rfl

theorem discovery_write_other (d : Discovery) (c : Catalogue) {m : String} (hm : m ≠ C.networkName) :
    (NetworkConfig.Discovery.write C c d).only m = c.only m := by
  unfold NetworkConfig.Discovery.write
  cases d.pc with
  | insertPeers results save stmt rest => exact save_other save c stmt hm
  | insertChaincodes save stmt rest => exact save_other save c stmt hm
  | _ => rfl

end

namespace NetworkConfig

/-! ## Channels -/

section
variable {networkName : String}

theorem getChannel_only (channelName hash : String) (db : Db) :
    getChannel networkName channelName hash (db.only networkName) = getChannel networkName channelName hash db :=
  find?_rowsOf db.channel fun _ h => (of_decide_eq_true h).2.2

theorem existChannel_only (channelName : String) (db : Db) :
    existChannel networkName channelName (db.only networkName) = existChannel networkName channelName db :=
  countP_rowsOf db.channel fun _ h => (of_decide_eq_true h).2

theorem saveChannel_keeps (channel r : ChannelRow) :
    (if r.name = channel.name ∧ r.channelGenesisHash = channel.channelGenesisHash ∧ r.networkName = networkName then
        { r with blocks := channel.blocks, trans := channel.trans }
      else r).networkName = r.networkName := by
  split <;> rfl

theorem saveChannel_only (channel : ChannelRow) (db : Db) (stmt : SaveChannel) :
    stmt.run networkName channel (db.only networkName) =
      ((stmt.run networkName channel db).1.only networkName, (stmt.run networkName channel db).2) := by
  cases stmt with
  | count =>
    have hcount : (db.only networkName).channel.countP (fun r => r.name = channel.name ∧
        r.channelGenesisHash = channel.channelGenesisHash ∧ r.networkName = networkName) =
          db.channel.countP fun r => r.name = channel.name ∧
            r.channelGenesisHash = channel.channelGenesisHash ∧ r.networkName = networkName :=
      countP_rowsOf db.channel fun _ h => (of_decide_eq_true h).2.2
    simp only [SaveChannel.run, hcount]
  | insert => simp only [SaveChannel.run, Db.only, rowsOf_append_self]
  | update =>
    simp only [SaveChannel.run, Db.only]
    rw [rowsOf_map_self _ (saveChannel_keeps channel)]

theorem saveChannel_other (channel : ChannelRow) (db : Db) (stmt : SaveChannel) {m : String} (hm : m ≠ networkName) :
    (stmt.run networkName channel db).1.only m = db.only m := by
  cases stmt with
  | count => rfl
  | insert =>
    simp only [SaveChannel.run, Db.only]
    rw [rowsOf_append_other]
    exact Ne.symm hm
  | update =>
    simp only [SaveChannel.run, Db.only]
    rw [rowsOf_map_other _ (saveChannel_keeps channel) fun r hr => if_neg fun h => hm (hr.symm.trans h.2.2)]

end

/-! ## The process -/

/-- The tables. -/
structure Store where
  db : Db
  peer : List PeerRow
  peerRefChannel : List PeerRefChannelRow
  peerRefChaincode : List PeerRefChaincodeRow
  deriving DecidableEq, Repr

def Store.only (networkName : String) (d : Store) : Store where
  db := d.db.only networkName
  peer := rowsOf PeerRow.networkName networkName d.peer
  peerRefChannel := rowsOf PeerRefChannelRow.networkName networkName d.peerRefChannel
  peerRefChaincode := rowsOf PeerRefChaincodeRow.networkName networkName d.peerRefChaincode

def St.store (s : St) : Store := ⟨s.db, s.peer, s.peerRefChannel, s.peerRefChaincode⟩

def St.withStore (s : St) (d : Store) : St :=
  { s.withDb d.db with
    peer := d.peer
    peerRefChannel := d.peerRefChannel
    peerRefChaincode := d.peerRefChaincode }

def access : Access St Store where
  get := St.store
  put := St.withStore
  get_put _ _ := rfl
  put_get _ := rfl
  put_put _ _ _ := rfl

def St.only (networkName : String) (s : St) : St := s.withStore (s.store.only networkName)

section
variable {C : DiscoveryClient} {L : SyncService.Ledger}

theorem network_only (n : Network) (s : St) (reply : Reply) :
    n.resume C (s.only C.networkName) reply =
      (n.resume C s reply).map fun r => (r.1.only C.networkName, r.2) := by
  have hdb : (s.only C.networkName).db = s.db.only C.networkName := rfl
  obtain ⟨next, pc⟩ := n
  unfold Network.resume
  cases pc with
  | queryChannels =>
    cases reply with
    | queryChannels channels => cases channels <;> rfl
    | _ => rfl
  | newGenesisBlock channelName rest | genesisBlock channelName =>
    cases reply with
    | genesisBlock block => cases block <;> rfl
    | _ => rfl
  | newBlockHash channelName rest | blockHash channelName block | timeStamp channelName hash =>
    cases reply <;> rfl
  | getChannel channelName hash block =>
    cases reply with
    | executed =>
      simp only [hdb, getChannel_only]
      cases getChannel C.networkName channelName hash s.db <;> rfl
    | _ => rfl
  | existChannel channelName hash block =>
    cases reply with
    | executed =>
      simp only [hdb, existChannel_only]
      split
      · cases block.data <;> rfl
      · rfl
    | _ => rfl
  | saveChannel channelName hash stmt =>
    cases reply with
    | executed =>
      simp only [hdb, saveChannel_only]
      obtain ⟨db, next⟩ := stmt.run C.networkName (channelRow C channelName hash) s.db
      cases next <;> rfl
    | _ => rfl
  | discovery d =>
    have hcatalogue : (s.only C.networkName).catalogue = s.catalogue.only C.networkName := rfl
    simp only [hcatalogue, discovery_only]
    obtain _ | ⟨c, o⟩ := d.resume C s.catalogue reply
    · rfl
    · cases o <;> rfl

theorem task_only (t : Task) (s : St) (reply : Reply) :
    t.resume C (s.only C.networkName) reply =
      (t.resume C s reply).map fun r => (r.1.only C.networkName, r.2) := by
  have hcatalogue : (s.only C.networkName).catalogue = s.catalogue.only C.networkName := rfl
  cases t with
  | network n =>
    simp only [Task.resume, network_only, Option.map_map]
    rfl
  | discovery d =>
    simp only [Task.resume, hcatalogue, discovery_only, Option.map_map]
    rfl

theorem write_only (t : Task) (s : St) :
    t.write C (s.only C.networkName) = (t.write C s).only C.networkName := by
  have hdb : (s.only C.networkName).db = s.db.only C.networkName := rfl
  have hcatalogue : (s.only C.networkName).catalogue = s.catalogue.only C.networkName := rfl
  cases t with
  | network n =>
    simp only [Task.write, Network.write]
    cases n.pc with
    | saveChannel channelName hash stmt =>
      simp only [hdb, saveChannel_only]
      rfl
    | discovery d =>
      simp only [hcatalogue, discovery_write_only]
      rfl
    | _ => rfl
  | discovery d =>
    simp only [Task.write, hcatalogue, discovery_write_only]
    rfl

/-- Tables that are the same have the same rows of a network. -/
theorem Same.only {s s' : St} (h : Same s s') (m : String) : s'.store.only m = s.store.only m := by
  have hstore : s'.store = s.store := by
    obtain ⟨hdb, hcatalogue⟩ := h
    simp only [St.catalogue, Catalogue.mk.injEq] at hcatalogue
    obtain ⟨hpeer, hchannel, -, hchaincode⟩ := hcatalogue
    simp only [St.store, hdb, hpeer, hchannel, hchaincode]
  rw [hstore]

theorem catalogue_other {s : St} {c : Catalogue} {m : String} (h : c.only m = s.catalogue.only m) :
    (s.withCatalogue c).store.only m = s.store.only m := by
  simp only [Catalogue.only, Catalogue.mk.injEq] at h
  obtain ⟨hpeer, hchannel, hchaincodes, hchaincode⟩ := h
  simp only [Store.only, St.store, Db.only, db_withCatalogue, hchaincodes]
  simp only [St.withCatalogue, hpeer, hchannel, hchaincode]
  rfl

theorem write_other (t : Task) (s : St) {m : String} (hm : m ≠ C.networkName) :
    (t.write C s).store.only m = s.store.only m := by
  cases t with
  | network n =>
    simp only [Task.write, Network.write]
    cases n.pc with
    | saveChannel channelName hash stmt =>
      have hdb := saveChannel_other (channelRow C channelName hash) s.db stmt hm
      simp only [Store.only, St.store, db_withDb, hdb]
      rfl
    | discovery d => exact catalogue_other (discovery_write_other d s.catalogue hm)
    | _ => rfl
  | discovery d => exact catalogue_other (discovery_write_other d s.catalogue hm)

/-- **A step** depends on the rows of the network alone. -/
theorem step_only {s : St} {ev : Ev} (h : s.sync.Owned C.networkName) :
    step C L (s.only C.networkName) ev = (step C L s ev).map (St.only C.networkName) := by
  have htasks : (s.only C.networkName).tasks = s.tasks := rfl
  have hprocess : ∀ ev : SyncService.Ev, (∀ row, ev ≠ .discovered row) →
      SyncService.step C.toClient L (s.only C.networkName).sync ev =
        (SyncService.step C.toClient L s.sync ev).map (SyncService.St.only C.networkName) :=
    fun _ hev => SyncService.step_only h hev
  cases ev with
  | timer | discover channelGenesisHash | addChannel channelName => rfl
  | reply i r =>
    simp only [step, htasks]
    split
    · rw [task_only, Option.map_map, Option.map_map]
      rfl
    · rfl
  | fail i took =>
    simp only [step, htasks]
    split
    · cases took with
      | true =>
        simp only [if_true, write_only]
        rfl
      | false => rfl
    · rfl
  | process ev =>
    cases ev with
    | discovered row => rfl
    | crash => rfl
    | blockEvent | synchBlocks | chainInfo | queryBlock | run | fail =>
      simp only [step]
      rw [hprocess _ (by simp), Option.map_map, Option.map_map]
      rfl

/-- **It writes no other.** -/
theorem step_others {s s' : St} {ev : Ev} (h : s.sync.Owned C.networkName) (hs : step C L s ev = some s')
    {m : String} (hm : m ≠ C.networkName) : s'.store.only m = s.store.only m := by
  cases ev with
  | timer | discover | addChannel =>
    cases hs
    rfl
  | reply i r =>
    simp only [step] at hs
    split at hs
    · rename_i t ht
      obtain ⟨⟨s₁, ts⟩, hr, rfl⟩ := Option.map_eq_some_iff.1 hs
      refine ((resume_task hr).only m).trans ?_
      split
      · exact write_other t s hm
      · rfl
    · cases hs
  | fail i took =>
    simp only [step] at hs
    split at hs
    · rename_i t ht
      cases hs
      cases took with
      | true => exact write_other t s hm
      | false => rfl
    · cases hs
  | process ev =>
    have hp := processed hs
    have hdb : s'.db.only m = s.db.only m := by
      cases ev with
      | discovered row => cases hs
      | crash | blockEvent | synchBlocks | chainInfo | queryBlock | run | fail =>
        simp only [step] at hs
        obtain ⟨sync, hsync, rfl⟩ := Option.map_eq_some_iff.1 hs
        exact SyncService.step_others h (by simp) hsync hm
    simp only [Store.only, St.store, hdb, hp.peer, hp.peerRefChannel, hp.peerRefChaincode]

/-- The other runs leave block processing as it is. -/
structure Apart (s s' : St) : Prop where
  execs : s'.sync.execs = s.sync.execs
  held : s'.sync.blocksInProcess = s.sync.blocksInProcess
  blocks : s'.db.blocks = s.db.blocks
  transactions : s'.db.transactions = s.db.transactions

theorem Apart.refl (s : St) : Apart s s := ⟨rfl, rfl, rfl, rfl⟩

theorem Apart.trans {s s₁ s' : St} (h₁ : Apart s s₁) (h₂ : Apart s₁ s') : Apart s s' :=
  ⟨h₂.execs.trans h₁.execs, h₂.held.trans h₁.held, h₂.blocks.trans h₁.blocks, h₂.transactions.trans h₁.transactions⟩

theorem apart_saveChannel {s : St} (networkName : String) (channel : ChannelRow) (stmt : SaveChannel) :
    Apart s (s.withDb (stmt.run networkName channel s.db).1) := by
  cases stmt <;> exact ⟨rfl, rfl, rfl, rfl⟩

theorem apart_network {n : Network} {s s' : St} {reply : Reply} {o : Outcome Network Bool}
    (h : n.resume C s reply = some (s', o)) : Apart s s' := by
  obtain ⟨next, pc⟩ := n
  unfold Network.resume at h
  cases pc with
  | queryChannels =>
    cases reply with
    | queryChannels channels => cases channels <;> cases h <;> exact Apart.refl s
    | _ => cases h
  | newGenesisBlock channelName rest | genesisBlock channelName =>
    cases reply with
    | genesisBlock block => cases block <;> cases h <;> exact Apart.refl s
    | _ => cases h
  | newBlockHash channelName rest | blockHash channelName block | timeStamp channelName hash =>
    cases reply with
    | executed =>
      cases h
      exact ⟨rfl, rfl, rfl, rfl⟩
    | _ => cases h
  | getChannel channelName hash block =>
    cases reply with
    | executed =>
      simp only at h
      split at h <;> cases h <;> exact Apart.refl s
    | _ => cases h
  | existChannel channelName hash block =>
    cases reply with
    | executed =>
      simp only at h
      split at h
      · split at h <;> cases h <;> exact Apart.refl s
      · cases h
        exact Apart.refl s
    | _ => cases h
  | saveChannel channelName hash stmt =>
    cases reply with
    | executed =>
      have hrun := apart_saveChannel (s := s) C.networkName (channelRow C channelName hash) stmt
      simp only at h
      split at h
      · rename_i db stmt' heq
        cases h
        rw [heq] at hrun
        exact hrun
      · rename_i db heq
        cases h
        rw [heq] at hrun
        exact hrun
    | _ => cases h
  | discovery d =>
    simp only at h
    split at h <;> cases h <;> exact ⟨rfl, rfl, rfl, rfl⟩

theorem apart_task {t : Task} {s s' : St} {reply : Reply} {ts : List Task} (h : t.resume C s reply = some (s', ts)) :
    Apart s s' := by
  cases t with
  | network n =>
    obtain ⟨⟨s₁, o⟩, hn, heq⟩ := Option.map_eq_some_iff.1 h
    cases heq
    exact apart_network hn
  | discovery d =>
    obtain ⟨⟨c, o⟩, -, heq⟩ := Option.map_eq_some_iff.1 h
    cases heq
    exact ⟨rfl, rfl, rfl, rfl⟩

theorem apart_write (t : Task) (s : St) : Apart s (t.write C s) := by
  cases t with
  | network n =>
    simp only [Task.write, Network.write]
    split
    · exact apart_saveChannel _ _ _
    · exact ⟨rfl, rfl, rfl, rfl⟩
    · exact Apart.refl s
  | discovery d => exact ⟨rfl, rfl, rfl, rfl⟩

/-- A step of block processing, or of another run. -/
theorem step_sync {s s' : St} {ev : Ev} (hs : step C L s ev = some s') :
    (∃ ev', (∀ row, ev' ≠ .discovered row) ∧ SyncService.step C.toClient L s.sync ev' = some s'.sync) ∨
      Apart s s' := by
  cases ev with
  | timer | discover | addChannel =>
    cases hs
    exact .inr ⟨rfl, rfl, rfl, rfl⟩
  | reply i r =>
    simp only [step] at hs
    split at hs
    · obtain ⟨⟨s₁, ts⟩, hr, rfl⟩ := Option.map_eq_some_iff.1 hs
      exact .inr ((apart_task hr).trans ⟨rfl, rfl, rfl, rfl⟩)
    · cases hs
  | fail i took =>
    simp only [step] at hs
    split at hs
    · rename_i t ht
      cases hs
      cases took with
      | true => exact .inr ((apart_write t s).trans ⟨rfl, rfl, rfl, rfl⟩)
      | false => exact .inr ⟨rfl, rfl, rfl, rfl⟩
    · cases hs
  | process ev =>
    cases ev with
    | discovered row => cases hs
    | crash | blockEvent | synchBlocks | chainInfo | queryBlock | run | fail =>
      simp only [step] at hs
      obtain ⟨sync, hsync, rfl⟩ := Option.map_eq_some_iff.1 hs
      exact .inl ⟨_, by simp, hsync⟩

end

end NetworkConfig

end Explorer.Fabric
