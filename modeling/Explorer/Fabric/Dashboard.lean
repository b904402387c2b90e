import Explorer.Fabric.Mirror
import Explorer.Fabric.OrgTransactions

/-!
# What the dashboard shows of a ledger

The reads behind the dashboard, the charts and the block list, on tables that
are a copy of the ledger. The order of the rows in the tables is that of their
insertion and depends on the run; so an answer is either the same for every
order, or told up to it.

* `Copied`: the two tables of a channel, up to the order of their rows.
* `getStatus_copied`, `histograms_copied`, `getTxByOrgs_copied`,
  `getBlockAndTxList_copied`: one read each.
* `dashboard_shows_ledger`: all of them, after any run.
-/
namespace Explorer.Fabric.SyncService

open Query Reads

/-! ## The rows of a channel -/

theorem transactionsIn_eq (networkName : String) (t : Tables) (hash : String) :
    (transactionsIn networkName t hash).map TransactionRecord.toTransactionRow =
      transactionsOf networkName t.db hash := by
  rw [transactionsIn, transactionsOf, Tables.db, List.filter_map]
  rfl

/-- The tables have these rows for the channel. -/
structure Copied (networkName : String) (t : Tables) (hash : String) (blocks : List BlockRow)
    (transactions : List TransactionRow) : Prop where
  blocks : (blocksIn networkName t hash).Perm blocks
  transactions : ((transactionsIn networkName t hash).map TransactionRecord.toTransactionRow).Perm transactions

section
variable {networkName hash : String} {t : Tables} {blocks : List BlockRow} {transactions : List TransactionRow}

/-! ## Counts -/

theorem getStatus_copied (h : Copied networkName t hash blocks transactions) :
    getStatus networkName t hash = .row (some
      [("chaincodeCount", .num (chaincodesIn networkName t hash).length), ("txCount", .num transactions.length),
        ("latestBlock", .num blocks.length),
        ("peerCount", .num ((peersIn networkName t hash).filter fun r => r.peerType = "PEER").length)]) := by
  have htx : (transactionsIn networkName t hash).length = transactions.length := by
    rw [← h.transactions.length_eq, List.length_map]
  rw [getStatus, getStatusGenerate, htx, h.blocks.length_eq]
  rfl

/-- A histogram is the same for every order of the rows. -/
theorem perBucket_perm (T : Clock) (unit column backUnit : String) {createdt createdt' : List Nat}
    (h : createdt.Perm createdt') (back : Nat) :
    perBucket T unit column backUnit createdt back = perBucket T unit column backUnit createdt' back := by
  unfold perBucket
  congr 1
  apply List.map_congr_left
  intro datetime _
  rw [h.countP_eq]

theorem histograms_copied (h : Copied networkName t hash blocks transactions) (T : Clock)
    (unit column backUnit : String) (back : Nat) :
    txPer networkName t T unit column backUnit hash back =
        perBucket T unit column backUnit (transactions.map TransactionRow.createdt) back ∧
      blocksPer networkName t T unit column backUnit hash back =
        perBucket T unit column backUnit (blocks.map BlockRow.createdt) back := by
  refine ⟨?_, perBucket_perm T unit column backUnit (h.blocks.map _) back⟩
  have hp := h.transactions.map TransactionRow.createdt
  rw [List.map_map] at hp
  exact perBucket_perm T unit column backUnit hp back

theorem eraseDups_perm {values values' : List String} (h : values.Perm values') :
    values.eraseDups.Perm values'.eraseDups := by
  apply (List.perm_ext_iff_of_nodup (OrgTransactions.nodup_eraseDups values)
    (OrgTransactions.nodup_eraseDups values')).2
  intro value
  rw [List.mem_eraseDups, List.mem_eraseDups, h.mem_iff]

theorem getTxByOrgs_copied (h : Copied networkName t hash blocks transactions) :
    ∃ rows, getTxByOrgs networkName t hash = .rows rows ∧
      rows.Perm ((transactions.map TransactionRow.creatorMspId).eraseDups.map fun creator =>
        [("count", .num ((transactions.map TransactionRow.creatorMspId).count creator)),
          ("creator_msp_id", .text creator)]) := by
  have hp := h.transactions.map TransactionRow.creatorMspId
  rw [List.map_map] at hp
  refine ⟨_, rfl, ?_⟩
  have hcount : ∀ creator, ((transactionsIn networkName t hash).map fun t => t.creatorMspId).count creator =
      (transactions.map TransactionRow.creatorMspId).count creator := fun creator => hp.count_eq creator
  simp only [hcount]
  exact (eraseDups_perm hp).map _

/-! ## The block list -/

/-- The row of a block in the block list, with the hashes of its transactions. -/
def shownBlock (channelname : String) (r : BlockRow) (txhash : List String) : Record :=
  [("channelname", .text channelname), ("blocknum", .num r.blocknum), ("txcount", .num r.txcount),
    ("datahash", .text r.datahash), ("blockhash", .text r.blockhash), ("prehash", .text r.prehash),
    ("createdt", .num r.createdt), ("blksize", .num r.blksize), ("txhash", .texts txhash)]

/-- Different numbers leave one order. -/
theorem orderByDesc_perm {rows rows' : List BlockRow} (h : rows.Perm rows')
    (hsorted : rows'.Pairwise fun a b => a.blocknum < b.blocknum) :
    orderByDesc BlockRow.blocknum rows = rows'.reverse := by
  have hdesc : rows'.reverse.Pairwise fun a b => b.blocknum < a.blocknum := List.pairwise_reverse.2 hsorted
  have hdistinct : ∀ a ∈ rows'.reverse, ∀ b ∈ rows'.reverse, a.blocknum = b.blocknum → a = b := by
    intro a ha b hb heq
    have hnodup : (rows'.reverse.map BlockRow.blocknum).Nodup :=
      List.pairwise_map.2 (hdesc.imp fun hlt heq => by omega)
    exact List.inj_on_of_nodup_map hnodup ha hb heq
  have hp : (orderByDesc BlockRow.blocknum rows).Perm rows'.reverse :=
    (List.perm_insertionSort _ _).trans (h.trans (List.reverse_perm rows').symm)
  have hanti : ∀ a b, a ∈ orderByDesc BlockRow.blocknum rows → b ∈ rows'.reverse →
      b.blocknum ≤ a.blocknum → a.blocknum ≤ b.blocknum → a = b := fun a b ha hb hba hab =>
    hdistinct a (hp.mem_iff.1 ha) b hb (Nat.le_antisymm hab hba)
  exact List.Perm.eq_of_pairwise hanti (List.pairwise_insertionSort _ _) (hdesc.imp fun hlt => Nat.le_of_lt hlt) hp

/-- The conditions of the list on a transaction. -/
def listed (orgs : List String) («from» «to» : Nat) (r : TransactionRow) : Prop :=
  (orgs = [] ∨ r.creatorMspId ∈ orgs) ∧ «from» ≤ r.createdt ∧ r.createdt ≤ «to»

instance decidableListed (orgs : List String) («from» «to» : Nat) (r : TransactionRow) :
    Decidable (listed orgs «from» «to» r) := inferInstanceAs (Decidable (_ ∧ _ ∧ _))

/-- The hashes of the transactions of block `n`. -/
def hashesOf (transactions : List TransactionRow) (n : Nat) : List String :=
  (transactions.filter fun r => r.blockid = n).map TransactionRow.txhash

theorem txhashes_eq (rows : List TransactionRecord) (n : Nat) :
    txhashes rows n = arrayAgg (hashesOf (rows.map TransactionRecord.toTransactionRow) n) := by
  rw [txhashes, hashesOf, List.filter_map, List.map_map]
  rfl

theorem getBlockAndTxList_copied (h : Copied networkName t hash blocks transactions)
    (hsorted : blocks.Pairwise fun a b => a.blocknum < b.blocknum) {channel : ChannelRecord}
    (hchannel : channelIn networkName t hash = [channel]) («from» «to» : Nat) (orgs : List String) :
    ∃ txhash : Nat → List String,
      (∀ n, (txhash n).Perm (hashesOf (transactions.filter fun r => listed orgs «from» «to» r) n)) ∧
      getBlockAndTxList networkName t hash «from» «to» orgs =
        .rows (((blocks.filter fun r => «from» ≤ r.createdt ∧ r.createdt ≤ «to»).reverse.filter fun r =>
          txhash r.blocknum ≠ []).map fun r => shownBlock channel.name r (txhash r.blocknum)) := by
  have hrows : ((transactionsIn networkName t hash).filter fun t =>
      byOrgs orgs t ∧ «from» ≤ t.createdt ∧ t.createdt ≤ «to»).map TransactionRecord.toTransactionRow =
        ((transactionsIn networkName t hash).map TransactionRecord.toTransactionRow).filter fun r =>
          listed orgs «from» «to» r := by
    rw [List.filter_map]
    refine congrArg _ (List.filter_congr fun r _ => ?_)
    have hiff : byOrgs orgs r = true ∧ «from» ≤ r.createdt ∧ r.createdt ≤ «to» ↔
        listed orgs «from» «to» r.toTransactionRow := by
      simp only [byOrgs, listed, Bool.or_eq_true, decide_eq_true_eq]
    exact decide_eq_decide.2 hiff
  have hblocks := orderByDesc_perm (h.blocks.filter fun r => «from» ≤ r.createdt ∧ r.createdt ≤ «to»)
    (hsorted.filter _)
  refine ⟨hashesOf (((transactionsIn networkName t hash).map TransactionRecord.toTransactionRow).filter fun r =>
    listed orgs «from» «to» r), fun n => ((h.transactions.filter _).filter _).map _, ?_⟩
  have hscalar : ∀ rows : List BlockRow, scalar (if rows = [] then [] else channelIn networkName t hash) =
      .ok (if rows = [] then none else some channel) := by
    intro rows
    rw [hchannel]
    split <;> rfl
  simp only [getBlockAndTxList, hscalar, hblocks, txhashes_eq, hrows]
  have hnull : ∀ texts : List String, arrayAgg texts ≠ .null ↔ texts ≠ [] := by
    intro texts
    cases texts <;> simp [arrayAgg]
  simp only [hnull]
  refine congrArg Answer.rows (List.map_congr_left fun r hr => ?_)
  obtain ⟨hmem, hne⟩ := List.mem_filter.1 hr
  have hsome : (blocksIn networkName t hash).filter (fun r => «from» ≤ r.createdt ∧ r.createdt ≤ «to») ≠ [] := by
    refine List.ne_nil_of_mem (a := r) ?_
    exact (h.blocks.filter _).mem_iff.2 (List.mem_reverse.1 hmem)
  rw [if_neg hsome, arrayAgg, if_neg (of_decide_eq_true hne)]
  rfl

/-! ## The latest block -/

theorem getCurBlockNum_copied (h : Copied networkName t hash blocks transactions) {height : Nat}
    (hnums : blocks.map BlockRow.blocknum = List.range height) :
    getCurBlockNum networkName t hash = .value (.num (if height ≤ 1 then -1 else (height : Int) - 1)) := by
  have hp : ((blocksIn networkName t hash).map BlockRow.blocknum).Perm (List.range height) := by
    rw [← hnums]
    exact h.blocks.map _
  unfold getCurBlockNum
  cases height with
  | zero =>
    rw [List.perm_nil.1 hp]
    rfl
  | succ m =>
    have hmax : ((blocksIn networkName t hash).map BlockRow.blocknum).max? = some m := by
      apply List.max?_eq_some_iff.2
      refine ⟨hp.mem_iff.2 (List.mem_range.2 (by omega)), fun b hb => ?_⟩
      have hlt := List.mem_range.1 (hp.mem_iff.1 hb)
      omega
    rw [hmax]
    cases m with
    | zero => rfl
    | succ k =>
      rw [if_neg (by omega)]
      show Answer.value (.num ((k : Int) + 1)) = _
      congr 2
      omega

end

/-! ## After a run -/

section
variable {C : Client} {L : Ledger}

theorem copied_of_reachable {channelName hash : String} (hch : C.getChannelGenHash channelName = some hash)
    {height : Nat} {s : St} (hr : (lts C L (Fresh C)).Reachable s)
    (hnone : findMissingBlockNumber C.networkName hash ((height : Int) - 1) s.db = [])
    (hend : ∀ n, height ≤ n → L.block channelName n = none) {t : Tables} (ht : t.db = s.db) :
    Copied C.networkName t hash (blocksBelow C L channelName hash height)
        (transactionsBelow C L channelName hash height) ∧
      (blocksBelow C L channelName hash height).map BlockRow.blocknum = List.range height := by
  obtain ⟨hinv, hrows⟩ := fromEnvelopes_inductive.reachable s hr
  have hall := stored_of_findMissing hnone
  have hlt : ∀ {c n block}, L.block c n = some block → C.getChannelGenHash c = some hash → n < height := by
    intro c n block hblock hc
    obtain rfl : c = channelName := C.distinct _ _ _ hc hch
    by_contra hle
    rw [hend n (by omega)] at hblock
    cases hblock
  have hblocks : (blocksOf C.networkName s.db hash).filter (fun r => r.blocknum < height) =
      blocksOf C.networkName s.db hash := by
    refine List.filter_eq_self.2 fun r hr => decide_eq_true ?_
    obtain ⟨hmem, hcond⟩ := List.mem_filter.1 hr
    obtain ⟨hhash, hnet⟩ := of_decide_eq_true hcond
    obtain ⟨c, block, firstTx, hblock, -, hc, -⟩ := hinv.stored.origin r hmem hnet
    exact hlt hblock (hhash ▸ hc)
  have htransactions : (transactionsOf C.networkName s.db hash).filter (fun r => r.blockid < height) =
      transactionsOf C.networkName s.db hash := by
    refine List.filter_eq_self.2 fun r hr => decide_eq_true ?_
    obtain ⟨hmem, hcond⟩ := List.mem_filter.1 hr
    obtain ⟨hhash, hnet⟩ := of_decide_eq_true hcond
    obtain ⟨c, block, firstTx, hblock, -, hc, -⟩ := hrows r hmem hnet
    exact hlt hblock (hhash ▸ hc)
  refine ⟨⟨?_, ?_⟩, blocknums_blocksBelow hch hinv.stored hall⟩
  · show (blocksOf C.networkName t.db hash).Perm _
    rw [ht, ← hblocks]
    exact blocksOf_perm hch hinv.stored hall
  · rw [transactionsIn_eq, ht, ← htransactions]
    exact transactionsOf_perm hch hinv.stored hrows hall

/-- The answers on a channel with these blocks and transactions. -/
structure Dashboard (networkName : String) (t : Tables) (hash : String) (blocks : List BlockRow)
    (transactions : List TransactionRow) (height : Nat) : Prop where
  status : getStatus networkName t hash = .row (some
    [("chaincodeCount", .num (chaincodesIn networkName t hash).length), ("txCount", .num transactions.length),
      ("latestBlock", .num height),
      ("peerCount", .num ((peersIn networkName t hash).filter fun r => r.peerType = "PEER").length)])
  curBlockNum : getCurBlockNum networkName t hash = .value (.num (if height ≤ 1 then -1 else (height : Int) - 1))
  histograms : ∀ T unit column backUnit back,
    txPer networkName t T unit column backUnit hash back =
        perBucket T unit column backUnit (transactions.map TransactionRow.createdt) back ∧
      blocksPer networkName t T unit column backUnit hash back =
        perBucket T unit column backUnit (blocks.map BlockRow.createdt) back
  txByOrgs : ∃ rows, getTxByOrgs networkName t hash = .rows rows ∧
    rows.Perm ((transactions.map TransactionRow.creatorMspId).eraseDups.map fun creator =>
      [("count", .num ((transactions.map TransactionRow.creatorMspId).count creator)),
        ("creator_msp_id", .text creator)])
  blockAndTxList : ∀ channel «from» «to» orgs, channelIn networkName t hash = [channel] →
    ∃ txhash : Nat → List String,
      (∀ n, (txhash n).Perm (hashesOf (transactions.filter fun r => listed orgs «from» «to» r) n)) ∧
      getBlockAndTxList networkName t hash «from» «to» orgs =
        .rows (((blocks.filter fun r => «from» ≤ r.createdt ∧ r.createdt ≤ «to»).reverse.filter fun r =>
          txhash r.blocknum ≠ []).map fun r => shownBlock channel.name r (txhash r.blocknum))

/-- **The dashboard shows the ledger.** After any run, whatever has failed in
it: if no number below the height of the ledger is missing, the status, the
number of the latest block, every histogram and the counts of the
organisations are those of the ledger, and the block list has its blocks in
the asked range, newest first, with the hashes of their listed transactions. -/
theorem dashboard_shows_ledger (channelName hash : String) (hch : C.getChannelGenHash channelName = some hash)
    (height : Nat) (s : St) (hr : (lts C L (Fresh C)).Reachable s)
    (hnone : findMissingBlockNumber C.networkName hash ((height : Int) - 1) s.db = [])
    (hend : ∀ n, height ≤ n → L.block channelName n = none) (t : Tables) (ht : t.db = s.db) :
    Dashboard C.networkName t hash (blocksBelow C L channelName hash height)
      (transactionsBelow C L channelName hash height) height := by
  obtain ⟨hcopied, hnums⟩ := copied_of_reachable hch hr hnone hend ht
  have hlen : (blocksBelow C L channelName hash height).length = height := by
    rw [← List.length_map BlockRow.blocknum, hnums, List.length_range]
  have hsorted : (blocksBelow C L channelName hash height).Pairwise fun a b => a.blocknum < b.blocknum := by
    rw [← List.pairwise_map (f := BlockRow.blocknum) (R := (· < ·)), hnums]
    exact List.pairwise_lt_range
  have hstatus := getStatus_copied hcopied
  rw [hlen] at hstatus
  exact ⟨hstatus, getCurBlockNum_copied hcopied hnums, histograms_copied hcopied, getTxByOrgs_copied hcopied,
    fun channel «from» «to» orgs hchannel => getBlockAndTxList_copied hcopied hsorted hchannel «from» «to» orgs⟩

end

/-- The tables with SERIAL ids. -/
def numbered (db : Db) : Tables where
  blocks := db.blocks
  transactions := db.transactions.zipIdx.map fun (r, i) => ⟨r, i + 1⟩
  channel := db.channel.zipIdx.map fun (r, i) => ⟨r, i + 1, 0, ""⟩
  chaincodes := db.chaincodes
  peer := []
  peerRefChannel := []
  orderer := []

theorem db_numbered (db : Db) : (numbered db).db = db := by
  have htransactions : (numbered db).transactions.map TransactionRecord.toTransactionRow = db.transactions := by
    rw [numbered, List.map_map]
    exact List.zipIdx_map_fst 0 db.transactions
  have hchannel : (numbered db).channel.map ChannelRecord.toChannelRow = db.channel := by
    rw [numbered, List.map_map]
    exact List.zipIdx_map_fst 0 db.channel
  rw [Tables.db, htransactions, hchannel]
  rfl

theorem dashboard_shows_ledger_recovered :
    ∃ s, LTS.exec (step mychannel ledgerBoth) (init emptyChannel) recovered = some s ∧
      getStatus "first-network" (numbered s.db) "genesis" = .row (some
        [("chaincodeCount", .num (chaincodesIn "first-network" (numbered s.db) "genesis").length),
          ("txCount", .num 3), ("latestBlock", .num 2), ("peerCount", .num 0)]) := by
  have hrun : (LTS.exec (step mychannel ledgerBoth) (init emptyChannel) recovered).map
      (fun s => findMissingBlockNumber "first-network" "genesis" 1 s.db) = some [] := by
    decide +kernel
  obtain ⟨s, hs, hnone⟩ := Option.map_eq_some_iff.1 hrun
  have hfresh : Fresh mychannel emptyChannel := ⟨by simp [emptyChannel], by simp [emptyChannel]⟩
  have hend : ∀ n, 2 ≤ n → ledgerBoth.block "mychannel" n = none := by
    intro n hn
    rcases n with _ | _ | n
    · omega
    · omega
    · rfl
  have hthree : (transactionsBelow mychannel ledgerBoth "mychannel" "genesis" 2).length = 3 := by decide +kernel
  have hshows := dashboard_shows_ledger "mychannel" "genesis" rfl 2 s (LTS.reachable_of_exec ⟨_, hfresh, rfl⟩ hs)
    hnone hend (numbered s.db) (db_numbered s.db)
  have hstatus := hshows.status
  rw [hthree] at hstatus
  exact ⟨s, hs, hstatus⟩

end Explorer.Fabric.SyncService
