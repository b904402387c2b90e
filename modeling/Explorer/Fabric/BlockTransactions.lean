import Mathlib.Data.List.Dedup
import Explorer.Fabric.Complete

/-!
# The transactions of a stored block

`saveTransaction` looks for a row with the block's number and the tx id, so
that of several envelopes of a block with one tx id only the first gets a row,
while `txcount` is the number of envelopes.

* `length_transactionsOfBlock`: a stored block has one row for each tx id.
* `transactions_of_block_iff`: the blocks that have a row for each envelope.
-/
namespace Explorer.Fabric.SyncService

variable {C : Client} {L : Ledger}

/-- The transaction rows of one block. -/
def transactionsOfBlock (networkName : String) (db : Db) (channelGenesisHash : String) (n : Nat) :
    List TransactionRow :=
  db.transactions.filter fun r =>
    r.networkName = networkName ∧ r.channelGenesisHash = channelGenesisHash ∧ r.blockid = n

/-- Each envelope of the block has its row, and the block row counts them. -/
structure EnvelopesStored (networkName : String) (db : Db) (channelGenesisHash : String) (block : Block) :
    Prop where
  rows : (transactionsOfBlock networkName db channelGenesisHash block.header.number).length =
    block.data.length
  txcount : ∃ row, blockRows networkName db channelGenesisHash block.header.number = [row] ∧
    row.txcount = (transactionsOfBlock networkName db channelGenesisHash block.header.number).length

/-! ## Rows and tx ids -/

theorem mem_txhash {networkName : String} {db : Db} {hash txhash : String} {n : Nat} :
    txhash ∈ (transactionsOfBlock networkName db hash n).map TransactionRow.txhash ↔
      (hash, n, txhash) ∈ txKeys networkName db := by
  rw [mem_txKeys, List.mem_map]
  simp only [transactionsOfBlock, List.mem_filter, decide_eq_true_eq]
  constructor
  · rintro ⟨r, ⟨hr, hnet, hhash, hn⟩, htx⟩
    exact ⟨r, hr, hnet, hhash, hn, htx⟩
  · rintro ⟨r, hr, hnet, hhash, hn, htx⟩
    exact ⟨r, ⟨hr, hnet, hhash, hn⟩, htx⟩

/-- No two rows of a block have the same tx id. -/
theorem nodup_txhash {networkName : String} {db : Db} (h : (txKeys networkName db).Nodup) (hash : String)
    (n : Nat) : ((transactionsOfBlock networkName db hash n).map TransactionRow.txhash).Nodup := by
  have hsub : ((transactionsOfBlock networkName db hash n).map fun r =>
      (r.channelGenesisHash, r.blockid, r.txhash)).Sublist (txKeys networkName db) := by
    refine List.Sublist.map _ ?_
    have hfilter : transactionsOfBlock networkName db hash n =
        (db.transactions.filter fun r => r.networkName = networkName).filter fun r =>
          r.channelGenesisHash = hash ∧ r.blockid = n := by
      rw [transactionsOfBlock, List.filter_filter]
      refine List.filter_congr fun r _ => ?_
      simp only [Bool.decide_and, Bool.and_comm]
    rw [hfilter]
    exact List.filter_sublist
  have hnodup := h.sublist hsub
  have hkeys : ((transactionsOfBlock networkName db hash n).map fun r =>
      (r.channelGenesisHash, r.blockid, r.txhash)) =
        ((transactionsOfBlock networkName db hash n).map TransactionRow.txhash).map fun t => (hash, n, t) := by
    rw [List.map_map]
    refine List.map_congr_left fun r hr => ?_
    obtain ⟨-, hhash, hn⟩ : r.networkName = networkName ∧ r.channelGenesisHash = hash ∧ r.blockid = n := by
      simpa [transactionsOfBlock] using (List.mem_filter.1 hr).2
    simp only [Function.comp, hhash, hn]
  rw [hkeys] at hnodup
  exact hnodup.of_map _

/-- **One row for each tx id.** -/
theorem length_transactionsOfBlock {db : Db} (h : Stored C L db) {channelName hash : String} {n : Nat}
    {block : Block} (hblock : L.block channelName n = some block)
    (hch : C.getChannelGenHash channelName = some hash) (hstored : (hash, n) ∈ blockKeys C.networkName db) :
    (transactionsOfBlock C.networkName db hash n).length = (block.data.map Envelope.txId).dedup.length := by
  have hperm : ((transactionsOfBlock C.networkName db hash n).map TransactionRow.txhash).Perm
      (block.data.map Envelope.txId).dedup := by
    refine (List.perm_ext_iff_of_nodup (nodup_txhash h.transactions hash n) (List.nodup_dedup _)).2 ?_
    intro txhash
    rw [mem_txhash, List.mem_dedup, List.mem_map]
    constructor
    · intro hmem
      obtain ⟨name, b, hb, hname, txObj, htx, htxid⟩ := h.txOrigin hash n txhash hmem
      have hsame : name = channelName := C.distinct _ _ _ hname hch
      rw [hsame, hblock] at hb
      obtain rfl := Option.some.inj hb
      exact ⟨txObj, htx, htxid⟩
    · rintro ⟨txObj, htx, rfl⟩
      exact (h.complete channelName hash n block hblock hch hstored txObj htx).2
  simpa using hperm.length_eq

/-- The row of a stored block. -/
theorem blockRows_stored {db : Db} (h : Stored C L db) {channelName hash : String} {n : Nat} {block : Block}
    (hblock : L.block channelName n = some block) (hch : C.getChannelGenHash channelName = some hash)
    (hstored : (hash, n) ∈ blockKeys C.networkName db) :
    ∃ row, blockRows C.networkName db hash n = [row] ∧ row.txcount = block.data.length := by
  have hlen : (blockRows C.networkName db hash n).length = 1 := by
    rw [length_blockRows]
    exact List.count_eq_one_of_mem h.blocks hstored
  obtain ⟨row, hrow⟩ := List.length_eq_one_iff.1 hlen
  have hmem : row ∈ blockRows C.networkName db hash n := by rw [hrow]; exact List.mem_singleton_self row
  obtain ⟨hr, hcols⟩ := List.mem_filter.1 hmem
  simp only [decide_eq_true_eq] at hcols
  obtain ⟨hnet, hhash, hn⟩ := hcols
  obtain ⟨name, b, firstTx, hb, -, hname, hreq⟩ := h.origin row hr hnet
  have hsame : name = channelName := C.distinct _ _ _ hname (hhash ▸ hch)
  rw [hsame, hn, hblock] at hb
  obtain rfl := Option.some.inj hb
  refine ⟨row, hrow, ?_⟩
  rw [hreq]
  rfl

theorem envelopesStored_iff {db : Db} (h : Stored C L db) {channelName hash : String} {block : Block}
    (hblock : L.block channelName block.header.number = some block)
    (hch : C.getChannelGenHash channelName = some hash)
    (hstored : (hash, block.header.number) ∈ blockKeys C.networkName db) :
    EnvelopesStored C.networkName db hash block ↔ (block.data.map Envelope.txId).Nodup := by
  have hrows := length_transactionsOfBlock h hblock hch hstored
  obtain ⟨row, hrow, htxcount⟩ := blockRows_stored h hblock hch hstored
  constructor
  · intro hall
    have hlen := hall.rows
    rw [hrows, ← List.length_map Envelope.txId] at hlen
    exact List.dedup_eq_self.1 ((List.dedup_sublist _).eq_of_length hlen)
  · intro hnodup
    have hlen : (transactionsOfBlock C.networkName db hash block.header.number).length = block.data.length := by
      rw [hrows, hnodup.dedup, List.length_map]
    exact ⟨hlen, row, hrow, htxcount.trans hlen.symm⟩

/-! ## Later states -/

theorem blocks_step {s s' : St} {ev : Ev} (hs : step C L s ev = some s') :
    ∃ rows, s'.db.blocks = s.db.blocks ++ rows := by
  cases ev with
  | discovered row =>
    cases hs
    exact ⟨[], (List.append_nil _).symm⟩
  | blockEvent | synchBlocks | chainInfo | queryBlock | run | fail | crash =>
    rcases step_db hs (by simp) with hdb | ⟨e, hdb⟩
    · exact ⟨[], by rw [hdb, List.append_nil]⟩
    · exact ⟨_, by rw [hdb, resume_blocks]⟩

/-- A stored block stays stored. -/
theorem mem_blockKeys_step {s s' : St} {ev : Ev} {key : String × Nat}
    (h : key ∈ blockKeys C.networkName s.db) (hs : step C L s ev = some s') :
    key ∈ blockKeys C.networkName s'.db := by
  obtain ⟨rows, hrows⟩ := blocks_step hs
  obtain ⟨r, hr, hnet, hhash, hn⟩ := mem_blockKeys.1 h
  exact mem_blockKeys.2 ⟨r, hrows ▸ List.mem_append_left rows hr, hnet, hhash, hn⟩

/-- The listener is handed block 1; `n` of its statements are executed. -/
def processOne (n : Nat) : List Ev := .blockEvent "mychannel" 1 :: List.replicate n (.run 0)

theorem fresh_nothing : Fresh mychannel ⟨[], [], [], []⟩ := ⟨by simp, by simp⟩

/-- Two envelopes with one tx id; the peers have flagged the second
(`DUPLICATE_TXID`). -/
def blockDuplicate : Block := ⟨⟨1, "p0", "d1"⟩, [transfer "t1", transfer "t1"], [[0, 9]]⟩

def ledgerDuplicate : Ledger := oneBlock blockDuplicate rfl (by decide)

end Explorer.Fabric.SyncService
