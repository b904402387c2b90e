import Explorer.Fabric.SyncService

/-!
# A stored block is a complete block

What holds of the tables in every run of the sync process, whatever fails and
however often it is restarted. Every execution writes all transaction rows of
its block before the block row, each only after it has counted none of that
key; `blocksInProcess` keeps a second execution of the same block out, even
after the first one has thrown.

* `Stored`: no two rows of a kind have the same key, every row comes from the
  ledger, and a block with a row has rows for all its envelopes.
* `Exec.At`: what an execution knows of the tables at its await. The others
  keep it true, since they write rows of other blocks only (`Exec.At.frame`).
* `stored_block_complete`: the outcome, for every reachable database.
-/
namespace Explorer.Fabric.SyncService

variable (C : Client) (L : Ledger)

/-! ## Invariant -/

def Exec.number (e : Exec) : Nat := e.block.header.number

/-- The block row built by an execution. -/
def Exec.Row (e : Exec) (block : BlockRow) : Prop :=
  e.channelGenesisHash = some block.channelGenesisHash ∧
    block = blockRow C block.channelGenesisHash e.block e.firstTx

/-- The execution has built its row for the block, and has inserted it when it
comes to the counter. -/
def Exec.Built (e : Exec) (db : Db) : Prop :=
  match e.pc with
  | .timeStamp | .blockHash => True
  | .saveTransaction block _ _ _ => e.Row C block
  | .saveBlock block stmt =>
    e.Row C block ∧ (stmt = .channel → (block.channelGenesisHash, e.number) ∈ blockKeys C.networkName db)

/-- The first `i` envelopes of a block have been read and have their rows. -/
def SavedUpTo (db : Db) (hash : String) (block : Block) (i : Nat) : Prop :=
  ∀ j < i, ∀ txObj, block.data[j]? = some txObj →
    txObj.Readable block ∧ (hash, block.header.number, txObj.txId) ∈ txKeys C.networkName db

/-- What an execution knows of the tables at the statement it awaits. -/
def Exec.At (e : Exec) (db : Db) : Prop :=
  match e.pc with
  | .timeStamp | .blockHash => True
  | .saveTransaction block i row stmt =>
    e.Row C block ∧
      (∃ txObj, e.block.data[i]? = some txObj ∧
        transactionRow C block.channelGenesisHash block.createdt e.block i txObj = some row) ∧
      SavedUpTo C db block.channelGenesisHash e.block i ∧
      stmt.At ((block.channelGenesisHash, e.number, row.txhash) ∈ txKeys C.networkName db)
  | .saveBlock block stmt =>
    e.Row C block ∧ SavedUpTo C db block.channelGenesisHash e.block e.block.data.length ∧
      stmt.At ((block.channelGenesisHash, e.number) ∈ blockKeys C.networkName db)

/-- The execution is for a block of the ledger. -/
structure Exec.From (e : Exec) : Prop where
  ledger : L.block e.channelName e.number = some e.block
  firstTx : e.block.data.head? = some e.firstTx
  hash : e.channelGenesisHash = C.getChannelGenHash e.channelName

structure Stored (db : Db) : Prop where
  blocks : (blockKeys C.networkName db).Nodup
  transactions : (txKeys C.networkName db).Nodup
  origin : ∀ r ∈ db.blocks, r.networkName = some C.networkName →
    ∃ channelName block firstTx, L.block channelName r.blocknum = some block ∧
      block.data.head? = some firstTx ∧ C.getChannelGenHash channelName = some r.channelGenesisHash ∧
      r = { blockRow C r.channelGenesisHash block firstTx with networkName := some C.networkName }
  txOrigin : ∀ hash n txhash, (hash, n, txhash) ∈ txKeys C.networkName db →
    ∃ channelName block, L.block channelName n = some block ∧
      C.getChannelGenHash channelName = some hash ∧ ∃ txObj ∈ block.data, txObj.txId = txhash
  complete : ∀ channelName hash n block, L.block channelName n = some block →
    C.getChannelGenHash channelName = some hash → (hash, n) ∈ blockKeys C.networkName db →
    ∀ txObj ∈ block.data, txObj.Readable block ∧ (hash, n, txObj.txId) ∈ txKeys C.networkName db

structure Inv (s : St) : Prop where
  guarded : Guarded s.blocksInProcess (s.execs.map Exec.key)
  stored : Stored C L s.db
  execs : ∀ e ∈ s.execs, e.From C L ∧ e.At C s.db

variable {C L}

/-! ## One execution -/

theorem Exec.Row.number {e : Exec} {block : BlockRow} (h : e.Row C block) : block.blocknum = e.number := by
  rw [h.2]
  rfl

theorem Exec.At.built {e : Exec} {db : Db} (h : e.At C db) : e.Built C db := by
  unfold Exec.At at h
  unfold Exec.Built
  split
  · trivial
  · trivial
  · rename_i hpc
    rw [hpc] at h
    exact h.1
  · rename_i block stmt hpc
    rw [hpc] at h
    obtain ⟨hrow, -, hstmt⟩ := h
    refine ⟨hrow, fun hchannel => ?_⟩
    subst hchannel
    exact hstmt

theorem Exec.Built.row {e : Exec} {db : Db} (h : e.Built C db) {r : BlockRow} (hr : r ∈ e.newBlocks C) :
    e.channelGenesisHash = some r.channelGenesisHash ∧
      r = { blockRow C r.channelGenesisHash e.block e.firstTx with networkName := some C.networkName } := by
  unfold Exec.newBlocks at hr
  unfold Exec.Built at h
  split at hr
  · rename_i block hpc
    rw [hpc] at h
    obtain ⟨⟨hhash, hblock⟩, -⟩ := h
    rw [List.mem_singleton.1 hr]
    refine ⟨hhash, ?_⟩
    rw [hblock]
    rfl
  · cases hr

theorem SavedUpTo.mono {db db' : Db} {hash : String} {block : Block} {i : Nat}
    (h : SavedUpTo C db hash block i)
    (hsub : ∀ k ∈ txKeys C.networkName db, k ∈ txKeys C.networkName db') :
    SavedUpTo C db' hash block i := fun j hj txObj hget => (h j hj txObj hget).imp_right (hsub _)

theorem SavedUpTo.succ {db : Db} {hash : String} {block : Block} {i : Nat} {txObj : Envelope}
    (h : SavedUpTo C db hash block i) (hget : block.data[i]? = some txObj) (hread : txObj.Readable block)
    (hmem : (hash, block.header.number, txObj.txId) ∈ txKeys C.networkName db) :
    SavedUpTo C db hash block (i + 1) := by
  intro j hj txObj' hget'
  rcases Nat.lt_succ_iff_lt_or_eq.1 hj with hlt | rfl
  · exact h j hlt txObj' hget'
  · rw [hget] at hget'
    cases hget'
    exact ⟨hread, hmem⟩

theorem SavedUpTo.all {db : Db} {hash : String} {block : Block}
    (h : SavedUpTo C db hash block block.data.length) {txObj : Envelope} (htx : txObj ∈ block.data) :
    txObj.Readable block ∧ (hash, block.header.number, txObj.txId) ∈ txKeys C.networkName db := by
  obtain ⟨j, hj, rfl⟩ := List.getElem_of_mem htx
  exact h j hj _ (List.getElem?_eq_getElem hj)

variable (C) in
/-- A transaction row that is about to be inserted. -/
structure NewTransaction (e : Exec) (db : Db) (r : TransactionRow) : Prop where
  single : e.newTransactions = [r]
  network : r.networkName = C.networkName
  hash : e.channelGenesisHash = some r.channelGenesisHash
  number : r.blockid = e.number
  envelope : ∃ txObj ∈ e.block.data, txObj.txId = r.txhash
  absent : (r.channelGenesisHash, r.blockid, r.txhash) ∉ txKeys C.networkName db

theorem newTransaction {e : Exec} {db : Db} (h : e.At C db) {r : TransactionRow}
    (hr : r ∈ e.newTransactions) : NewTransaction C e db r := by
  unfold Exec.newTransactions at hr
  unfold Exec.At at h
  split at hr
  · rename_i block i row hpc
    rw [hpc] at h
    obtain ⟨hrow, ⟨txObj, hget, htx⟩, -, habsent⟩ := h
    obtain ⟨h1, h2, h3, h4⟩ := transactionRow_key htx
    rw [List.mem_singleton.1 hr]
    refine ⟨by simp [Exec.newTransactions, hpc], h1, h2 ▸ hrow.1, h3,
      ⟨txObj, List.mem_of_getElem? hget, h4.symm⟩, ?_⟩
    rw [h2, h3]
    exact habsent
  · cases hr

variable (C) in
/-- A block row that is about to be inserted. -/
structure NewBlock (e : Exec) (db : Db) (r : BlockRow) : Prop where
  single : e.newBlocks C = [r]
  hash : e.channelGenesisHash = some r.channelGenesisHash
  row : r = { blockRow C r.channelGenesisHash e.block e.firstTx with networkName := some C.networkName }
  saved : SavedUpTo C db r.channelGenesisHash e.block e.block.data.length
  absent : (r.channelGenesisHash, r.blocknum) ∉ blockKeys C.networkName db

theorem NewBlock.number {e : Exec} {db : Db} {r : BlockRow} (h : NewBlock C e db r) :
    r.blocknum = e.number := by
  rw [h.row]
  rfl

theorem newBlock {e : Exec} {db : Db} (h : e.At C db) {r : BlockRow} (hr : r ∈ e.newBlocks C) :
    NewBlock C e db r := by
  unfold Exec.newBlocks at hr
  unfold Exec.At at h
  split at hr
  · rename_i block hpc
    rw [hpc] at h
    obtain ⟨⟨hhash, hblock⟩, hsaved, habsent⟩ := h
    rw [List.mem_singleton.1 hr]
    refine ⟨by simp [Exec.newBlocks, hpc], hhash, ?_, hsaved, ?_⟩
    · rw [hblock]
      rfl
    · rw [hblock]
      exact habsent
  · cases hr

theorem txKeys_resume {e : Exec} {db : Db} (h : e.At C db) :
    txKeys C.networkName (e.resume C db).1 = txKeys C.networkName db ++
      e.newTransactions.map fun r => (r.channelGenesisHash, r.blockid, r.txhash) :=
  txKeys_append (resume_transactions db e) fun _ hr => (newTransaction h hr).network

theorem blockKeys_resume (e : Exec) (db : Db) :
    blockKeys C.networkName (e.resume C db).1 = blockKeys C.networkName db ++
      (e.newBlocks C).map fun r => (r.channelGenesisHash, r.blocknum) := by
  refine blockKeys_append (resume_blocks db e) fun r hr => ?_
  unfold Exec.newBlocks at hr
  split at hr
  · rw [List.mem_singleton.1 hr]
  · cases hr

/-- A key that appears when `e` is resumed is a key of its block. -/
theorem txKeys_resume_of {e : Exec} {db : Db} (h : e.At C db) {hash txhash : String} {n : Nat}
    (hmem : (hash, n, txhash) ∈ txKeys C.networkName (e.resume C db).1) :
    (hash, n, txhash) ∈ txKeys C.networkName db ∨ e.channelGenesisHash = some hash ∧ n = e.number := by
  rw [txKeys_resume h, List.mem_append, List.mem_map] at hmem
  rcases hmem with hmem | ⟨r, hr, heq⟩
  · exact .inl hmem
  · cases heq
    exact .inr ⟨(newTransaction h hr).hash, (newTransaction h hr).number⟩

theorem blockKeys_resume_of {e : Exec} {db : Db} (h : e.Built C db) {hash : String} {n : Nat}
    (hmem : (hash, n) ∈ blockKeys C.networkName (e.resume C db).1) :
    (hash, n) ∈ blockKeys C.networkName db ∨ e.channelGenesisHash = some hash ∧ n = e.number := by
  rw [blockKeys_resume, List.mem_append, List.mem_map] at hmem
  rcases hmem with hmem | ⟨r, hr, heq⟩
  · exact .inl hmem
  · cases heq
    obtain ⟨hhash, hrow⟩ := h.row hr
    refine .inr ⟨hhash, ?_⟩
    rw [hrow]
    rfl

theorem txKeys_subset_resume {e : Exec} {db : Db} (h : e.At C db) :
    ∀ k ∈ txKeys C.networkName db, k ∈ txKeys C.networkName (e.resume C db).1 := by
  intro k hk
  rw [txKeys_resume h]
  exact List.mem_append_left _ hk

theorem blockKeys_subset_resume (e : Exec) (db : Db) :
    ∀ k ∈ blockKeys C.networkName db, k ∈ blockKeys C.networkName (e.resume C db).1 := by
  intro k hk
  rw [blockKeys_resume]
  exact List.mem_append_left _ hk

/-- A channel is known by its hash. -/
theorem channelName_eq {a b : Exec} {hash : String} (ha : a.From C L) (hb : b.From C L)
    (hha : a.channelGenesisHash = some hash) (hhb : b.channelGenesisHash = some hash) :
    a.channelName = b.channelName :=
  C.distinct _ _ hash (ha.hash ▸ hha) (hb.hash ▸ hhb)

/-- **Frame.** What an execution knows survives the steps of the executions
of other blocks. -/
theorem Exec.At.frame {e a : Exec} {db : Db} (he : e.From C L) (hat : e.At C db) (ha : a.From C L)
    (hata : a.At C db) (hne : e.key ≠ a.key) : e.At C (a.resume C db).1 := by
  have hother : ∀ hash, e.channelGenesisHash = some hash → a.channelGenesisHash = some hash →
      e.number = a.number → False := by
    intro hash h1 h2 h3
    refine hne ?_
    have hch := channelName_eq he ha h1 h2
    unfold Exec.key
    rw [hch, show e.block.header.number = a.block.header.number from h3]
  have hsub := txKeys_subset_resume hata
  unfold Exec.At at hat ⊢
  cases hpc : e.pc with
  | timeStamp | blockHash => trivial
  | saveTransaction block i row stmt =>
    simp only [hpc] at hat ⊢
    obtain ⟨hrow, htx, hsaved, hstmt⟩ := hat
    refine ⟨hrow, htx, hsaved.mono hsub, ?_⟩
    cases stmt with
    | count => trivial
    | insert =>
      intro hmem
      rcases txKeys_resume_of hata hmem with hmem | ⟨h1, h2⟩
      · exact hstmt hmem
      · exact hother _ hrow.1 h1 h2
    | chaincodes | channel => exact hsub _ hstmt
  | saveBlock block stmt =>
    simp only [hpc] at hat ⊢
    obtain ⟨hrow, hsaved, hstmt⟩ := hat
    refine ⟨hrow, hsaved.mono hsub, ?_⟩
    cases stmt with
    | count => trivial
    | insert =>
      intro hmem
      rcases blockKeys_resume_of hata.built hmem with hmem | ⟨h1, h2⟩
      · exact hstmt hmem
      · exact hother _ hrow.1 h1 h2
    | channel => exact blockKeys_subset_resume a db _ hstmt

/-! ## The tables -/

theorem stored_congr {db db' : Db} (h : Stored C L db) (hblocks : db'.blocks = db.blocks)
    (htransactions : db'.transactions = db.transactions) : Stored C L db' := by
  obtain ⟨h1, h2, h3, h4, h5⟩ := h
  rw [← blockKeys_congr hblocks] at h1
  rw [← txKeys_congr htransactions] at h2
  refine ⟨h1, h2, by rwa [hblocks], ?_, ?_⟩
  · rwa [txKeys_congr htransactions]
  · rwa [blockKeys_congr hblocks, txKeys_congr htransactions]

/-- All that `saveBlock` compares agrees between two rows of one number. -/
theorem same_block {e : Exec} {db : Db} {block : BlockRow} (h : Stored C L db) (he : e.From C L)
    (hrow : e.Row C block) : ∀ r ∈ db.blocks, r.networkName = some C.networkName →
      r.channelGenesisHash = block.channelGenesisHash → r.blocknum = block.blocknum →
      r.txcount = block.txcount ∧ r.prehash = block.prehash ∧ r.datahash = block.datahash := by
  intro r hr hnet hhash hnum
  obtain ⟨channelName, b, firstTx, hb, -, hch, hreq⟩ := h.origin r hr hnet
  have hname : channelName = e.channelName :=
    C.distinct _ _ _ hch (by rw [hhash, ← he.hash]; exact hrow.1)
  have hbe : b = e.block := by
    have hl := he.ledger
    rw [hname, hnum, hrow.number] at hb
    rw [hb] at hl
    exact Option.some.inj hl
  rw [hreq, hrow.2, hbe]
  exact ⟨rfl, rfl, rfl⟩

/-- The two kinds of rows are inserted one at a time, each when it is absent. -/
theorem nodup_resume {e : Exec} {db : Db} (h : Stored C L db) (hat : e.At C db) :
    (blockKeys C.networkName (e.resume C db).1).Nodup ∧
      (txKeys C.networkName (e.resume C db).1).Nodup := by
  rw [blockKeys_resume, txKeys_resume hat]
  constructor
  · cases hnew : e.newBlocks C with
    | nil => simpa using h.blocks
    | cons r rest =>
      have hr := newBlock hat (r := r) (by simp [hnew])
      rw [← hnew, hr.single, List.map_singleton, ← List.concat_eq_append]
      exact .concat hr.absent h.blocks
  · cases hnew : e.newTransactions with
    | nil => simpa using h.transactions
    | cons r rest =>
      have hr := newTransaction hat (r := r) (by simp [hnew])
      rw [← hnew, hr.single, List.map_singleton, ← List.concat_eq_append]
      exact .concat hr.absent h.transactions

/-- **What is written is new, from the ledger and complete.** -/
theorem stored_resume {e : Exec} {db : Db} (h : Stored C L db) (he : e.From C L) (hat : e.At C db) :
    Stored C L (e.resume C db).1 := by
  have hsub := txKeys_subset_resume hat
  obtain ⟨hblocks, htransactions⟩ := nodup_resume h hat
  refine ⟨hblocks, htransactions, ?_, ?_, ?_⟩
  · intro r hr hnet
    rw [resume_blocks, List.mem_append] at hr
    rcases hr with hr | hr
    · exact h.origin r hr hnet
    · have hnew := newBlock hat hr
      refine ⟨e.channelName, e.block, e.firstTx, ?_, he.firstTx, he.hash ▸ hnew.hash, hnew.row⟩
      rw [hnew.number]
      exact he.ledger
  · intro hash n txhash hmem
    rw [txKeys_resume hat, List.mem_append, List.mem_map] at hmem
    rcases hmem with hmem | ⟨r, hr, heq⟩
    · exact h.txOrigin hash n txhash hmem
    · have hnew := newTransaction hat hr
      cases heq
      refine ⟨e.channelName, e.block, ?_, he.hash ▸ hnew.hash, hnew.envelope⟩
      rw [hnew.number]
      exact he.ledger
  · intro channelName hash n block hblock hch hmem txObj htx
    rw [blockKeys_resume, List.mem_append, List.mem_map] at hmem
    rcases hmem with hmem | ⟨r, hr, heq⟩
    · exact (h.complete channelName hash n block hblock hch hmem txObj htx).imp_right (hsub _)
    · have hnew := newBlock hat hr
      cases heq
      have hname : channelName = e.channelName := C.distinct _ _ _ hch (he.hash ▸ hnew.hash)
      have hbe : block = e.block := by
        have hl := he.ledger
        rw [hname, hnew.number] at hblock
        rw [hblock] at hl
        exact Option.some.inj hl
      rw [hbe] at htx ⊢
      rw [hnew.number]
      exact (hnew.saved.all htx).imp_right (hsub _)

/-- The next envelope is read when the rows before it are there. -/
theorem at_nextTransaction {e e' : Exec} {db : Db} {block : BlockRow} {i : Nat}
    (hrow : e.Row C block) (hsaved : SavedUpTo C db block.channelGenesisHash e.block i)
    (hi : i ≤ e.block.data.length) (h : e.nextTransaction C block i = .await e') : e'.At C db := by
  unfold Exec.nextTransaction at h
  split at h
  · rename_i txObj hget
    split at h
    · rename_i row htx
      cases h
      exact ⟨hrow, ⟨txObj, hget, htx⟩, hsaved, trivial⟩
    · cases h
  · rename_i hget
    cases h
    have hlen : i = e.block.data.length := by
      rw [List.getElem?_eq_none_iff] at hget
      omega
    exact ⟨hrow, hlen ▸ hsaved, trivial⟩

theorem at_saveTransaction {e e' : Exec} {db : Db} {block : BlockRow} {i : Nat} {row : TransactionRow}
    {stmt : SaveTransaction} (hpc : e.pc = .saveTransaction block i row stmt) (hat : e.At C db)
    (hres : (e.resume C db).2 = .await e') : e'.At C (e.resume C db).1 := by
  have hsub := txKeys_subset_resume hat
  have hkeys := txKeys_resume hat
  unfold Exec.At at hat
  unfold Exec.newTransactions at hkeys
  rw [resume_saveTransaction hpc] at hres
  simp only [hpc] at hat hkeys
  obtain ⟨hrow, ⟨txObj, hget, htx⟩, hsaved, hstmt⟩ := hat
  obtain ⟨-, h2, h3, h4⟩ := transactionRow_key htx
  have hnext : (block.channelGenesisHash, e.number, row.txhash) ∈ txKeys C.networkName (e.resume C db).1 →
      e.nextTransaction C block (i + 1) = .await e' → e'.At C (e.resume C db).1 := by
    intro hmem hn
    have hread : txObj.Readable e.block := transactionRow_isSome.1 (Option.isSome_of_eq_some htx)
    refine at_nextTransaction hrow ((hsaved.mono hsub).succ hget hread (h4 ▸ hmem)) ?_ hn
    exact (List.getElem?_eq_some_iff.1 hget).1
  cases stmt with
  | count =>
    have hiff : isValidRow (countTransactions C.networkName row db) = true ↔
        _ ∉ txKeys C.networkName db := isValidRow_countTransactions
    rw [h2, h3] at hiff
    cases hv : isValidRow (countTransactions C.networkName row db) with
    | true =>
      simp only [SaveTransaction.run, hv, if_true] at hres
      cases hres
      have hsame : txKeys C.networkName (e.resume C db).1 = txKeys C.networkName db := by
        simpa using hkeys
      exact ⟨hrow, ⟨txObj, hget, htx⟩, hsaved.mono hsub, fun hmem => hiff.1 hv (hsame ▸ hmem)⟩
    | false =>
      simp only [SaveTransaction.run, hv, Bool.false_eq_true, if_false] at hres
      rw [hv, Bool.false_eq_true, false_iff, not_not] at hiff
      exact hnext (hsub _ hiff) hres
  | insert =>
    cases hres
    refine ⟨hrow, ⟨txObj, hget, htx⟩, hsaved.mono hsub, ?_⟩
    simp only [SaveTransaction.At, hkeys]
    simp [h2, h3, Exec.number]
  | chaincodes =>
    cases hres
    exact ⟨hrow, ⟨txObj, hget, htx⟩, hsaved.mono hsub, hsub _ hstmt⟩
  | channel => exact hnext (hsub _ hstmt) hres

theorem at_saveBlock {e e' : Exec} {db : Db} {block : BlockRow} {stmt : SaveBlock} (h : Stored C L db)
    (he : e.From C L) (hpc : e.pc = .saveBlock block stmt) (hat : e.At C db)
    (hres : (e.resume C db).2 = .await e') : e'.At C (e.resume C db).1 := by
  have hsub := txKeys_subset_resume hat
  have hkeys := blockKeys_resume (C := C) e db
  unfold Exec.At at hat
  unfold Exec.newBlocks at hkeys
  rw [resume_saveBlock hpc] at hres
  simp only [hpc] at hat hkeys
  obtain ⟨hrow, hsaved, hstmt⟩ := hat
  have hnum : block.blocknum = e.number := hrow.number
  cases stmt with
  | count =>
    cases hv : isValidRow (countBlocks C.networkName block db) with
    | true =>
      simp only [SaveBlock.run, hv, if_true] at hres
      cases hres
      have hnew := (isValidRow_countBlocks (same_block h he hrow)).1 hv
      rw [hnum] at hnew
      have hsame : blockKeys C.networkName (e.resume C db).1 = blockKeys C.networkName db := by
        simpa using hkeys
      exact ⟨hrow, hsaved.mono hsub, fun hmem => hnew (hsame ▸ hmem)⟩
    | false => simp [SaveBlock.run, hv] at hres
  | insert =>
    cases hres
    refine ⟨hrow, hsaved.mono hsub, ?_⟩
    simp only [SaveBlock.At, hkeys]
    simp [hnum, Exec.number]
  | channel => cases hres

/-- An execution that awaits again knows what its next statement needs. -/
theorem at_resume {e e' : Exec} {db : Db} (h : Stored C L db) (he : e.From C L) (hat : e.At C db)
    (hres : (e.resume C db).2 = .await e') : e'.At C (e.resume C db).1 := by
  cases hpc : e.pc with
  | timeStamp =>
    simp only [Exec.resume, hpc] at hres
    cases hres
    trivial
  | blockHash =>
    simp only [Exec.resume, hpc] at hres
    split at hres
    · rename_i hash hhash
      exact at_nextTransaction ⟨hhash, rfl⟩ (fun j hj => absurd hj (Nat.not_lt_zero j))
        (Nat.zero_le _) hres
    · cases hres
  | saveTransaction block i row stmt => exact at_saveTransaction hpc hat hres
  | saveBlock block stmt => exact at_saveBlock h he hpc hat hres

/-- An execution of a known channel that comes to its end leaves a row for its
block. -/
theorem done_resume {e : Exec} {db : Db} {hash : String} {notes : List Notify} (h : e.Built C db)
    (hh : e.channelGenesisHash = some hash) (hdone : (e.resume C db).2 = .done notes) :
    (hash, e.number) ∈ blockKeys C.networkName (e.resume C db).1 := by
  have hnext : ∀ block i, e.nextTransaction C block i ≠ .done notes := by
    intro block i
    unfold Exec.nextTransaction
    split
    · split <;> simp
    · simp
  unfold Exec.Built at h
  cases hpc : e.pc with
  | timeStamp => simp [Exec.resume, hpc] at hdone
  | blockHash => simp [Exec.resume, hpc, hh, hnext] at hdone
  | saveTransaction block i row stmt =>
    rw [resume_saveTransaction hpc] at hdone
    split at hdone
    · cases hdone
    · exact absurd hdone (hnext block (i + 1))
  | saveBlock block stmt =>
    rw [hpc] at h
    obtain ⟨hrow, hchannel⟩ := h
    have hhash : block.channelGenesisHash = hash := Option.some.inj (hrow.1.symm.trans hh)
    refine blockKeys_subset_resume e db _ ?_
    rw [resume_saveBlock hpc] at hdone
    cases stmt with
    | count =>
      cases hv : isValidRow (countBlocks C.networkName block db) with
      | true => simp [SaveBlock.run, hv] at hdone
      | false =>
        have hcount : countBlocks C.networkName block db ≠ 0 := of_decide_eq_false hv
        obtain ⟨r, hr, hcols⟩ := List.countP_pos_iff.1 (Nat.pos_of_ne_zero hcount)
        obtain ⟨hnum, -, hsame, hnet, -⟩ := of_decide_eq_true hcols
        exact mem_blockKeys.2 ⟨r, hr, hnet, hsame.trans hhash, hnum.trans hrow.number⟩
    | insert => simp [SaveBlock.run] at hdone
    | channel => exact hhash ▸ hchannel rfl

/-! ## The process -/

theorem at_congr {e : Exec} {db db' : Db} (h : e.At C db) (hblocks : db'.blocks = db.blocks)
    (htransactions : db'.transactions = db.transactions) : e.At C db' := by
  unfold Exec.At SavedUpTo at h ⊢
  rw [blockKeys_congr hblocks, txKeys_congr htransactions]
  exact h

theorem from_start {channelName : String} {block : Block} {firstTx : Envelope}
    (hblock : L.block channelName block.header.number = some block)
    (hfirst : block.data.head? = some firstTx) : (Exec.start C block firstTx).From C L := by
  refine ⟨?_, hfirst, rfl⟩
  rw [← L.channel _ _ _ _ hblock hfirst] at hblock
  exact hblock

theorem from_resume {e e' : Exec} {db : Db} (h : e.From C L) (hres : (e.resume C db).2 = .await e') :
    e'.From C L := by
  rw [await_resume hres]
  exact ⟨h.ledger, h.firstTx, h.hash⟩

theorem inv_quiet {s s' : St} (h : Inv C L s) (hq : Quiet s s') : Inv C L s' := by
  refine ⟨?_, stored_congr h.stored hq.blocks hq.transactions, fun e he => ?_⟩
  · rw [hq.held]
    exact h.guarded.perm (hq.execs.symm.map Exec.key)
  · obtain ⟨hfrom, hat⟩ := h.execs e (hq.execs.mem_iff.1 he)
    exact ⟨hfrom, at_congr hat hq.blocks hq.transactions⟩

/-- The executions apart from `e` when `e` is resumed. -/
theorem rest_resume {s : St} {e : Exec} {rest : List Exec} (h : Inv C L s)
    (hp : s.execs.Perm (e :: rest)) :
    Guarded s.blocksInProcess (e.key :: rest.map Exec.key) ∧ (e.From C L ∧ e.At C s.db) ∧
      ∀ a ∈ rest, a.From C L ∧ a.At C s.db ∧ a.At C (e.resume C s.db).1 := by
  have hg := h.guarded.perm (hp.map Exec.key)
  have hexecs : ∀ a ∈ e :: rest, a.From C L ∧ a.At C s.db := fun a ha => h.execs a (hp.mem_iff.2 ha)
  obtain ⟨hfrom, hat⟩ := hexecs e (List.mem_cons_self ..)
  refine ⟨hg, ⟨hfrom, hat⟩, fun a ha => ?_⟩
  obtain ⟨hafrom, haat⟩ := hexecs a (List.mem_cons_of_mem _ ha)
  refine ⟨hafrom, haat, haat.frame hafrom hfrom hat fun hkey => ?_⟩
  exact (List.nodup_cons.1 hg.nodup_running).1 (hkey ▸ List.mem_map_of_mem ha)

theorem guarded_resumed {s s' : St} {e : Exec} {rest : List Exec}
    (hg : Guarded s.blocksInProcess (e.key :: rest.map Exec.key))
    (hr : Resumed s s' e rest (e.resume C s.db).2) :
    Guarded s'.blocksInProcess (s'.execs.map Exec.key) := by
  refine Guarded.perm ?_ (hr.execs.symm.map Exec.key)
  cases hres : (e.resume C s.db).2 with
  | await e' =>
    rw [hres] at hr
    rw [hr.1, Outcome.execs, List.map_append, List.map_singleton, key_resume hres]
    exact hg
  | done notes =>
    rw [hres] at hr
    rw [hr.1]
    exact hg.finish
  | thrown =>
    rw [hres] at hr
    rw [hr.1]
    exact hg.lost

theorem inv_move {s s' : St} (h : Inv C L s) (hm : Move C L s s') : Inv C L s' := by
  cases hm with
  | quiet hq => exact inv_quiet h hq
  | held channelName block firstTx hblock hfirst hkey hq =>
    have h' : Inv C L { s with delivered := s.delivered ++ [(channelName, block.header.number)] } :=
      ⟨h.guarded, h.stored, h.execs⟩
    exact inv_quiet h' hq
  | started channelName block firstTx hblock hfirst hkey hdb hheld hexecs hsent hdelivered =>
    refine ⟨?_, hdb ▸ h.stored, fun e he => ?_⟩
    · rw [hheld]
      exact (h.guarded.start hkey).perm (hexecs.symm.map Exec.key)
    · rw [hdb]
      rcases List.mem_cons.1 (hexecs.mem_iff.1 he) with rfl | he
      · exact ⟨from_start hblock hfirst, trivial⟩
      · exact h.execs e he
  | resumed e rest hp hdb hr hdelivered =>
    obtain ⟨hg, ⟨hfrom, hat⟩, hrest⟩ := rest_resume h hp
    have hstored : Stored C L s'.db := by
      rw [hdb]
      exact stored_resume h.stored hfrom hat
    refine ⟨guarded_resumed hg hr, hstored, fun a ha => ?_⟩
    rw [hdb]
    rcases List.mem_append.1 (hr.execs.mem_iff.1 ha) with ha | ha
    · have hres := Outcome.mem_execs.1 ha
      exact ⟨from_resume hfrom hres, at_resume h.stored hfrom hat hres⟩
    · exact ⟨(hrest a ha).1, (hrest a ha).2.2⟩

theorem inv_loss {s s' : St} (h : Inv C L s) (hl : Loss C s s') : Inv C L s' := by
  cases hl with
  | quiet hq => exact inv_quiet h hq
  | failed e rest hp hdb hheld hexecs =>
    obtain ⟨hg, ⟨hfrom, hat⟩, hrest⟩ := rest_resume h hp
    have hguarded : Guarded s'.blocksInProcess (s'.execs.map Exec.key) := by
      rw [hheld]
      exact hg.lost.perm (hexecs.symm.map Exec.key)
    rcases hdb with hdb | hdb
    · refine ⟨hguarded, hdb ▸ h.stored, fun a ha => ?_⟩
      have ha' := hrest a (hexecs.mem_iff.1 ha)
      exact ⟨ha'.1, hdb ▸ ha'.2.1⟩
    · refine ⟨hguarded, hdb ▸ stored_resume h.stored hfrom hat, fun a ha => ?_⟩
      have ha' := hrest a (hexecs.mem_iff.1 ha)
      exact ⟨ha'.1, hdb ▸ ha'.2.2⟩
  | crashed hdb hheld hexecs =>
    refine ⟨?_, hdb ▸ h.stored, by simp [hexecs]⟩
    rw [hheld, hexecs]
    exact Guarded.nil

variable (C) in
/-- Nothing is stored yet for this network. -/
structure Fresh (db : Db) : Prop where
  blocks : ∀ r ∈ db.blocks, r.networkName ≠ some C.networkName
  transactions : ∀ r ∈ db.transactions, r.networkName ≠ C.networkName

theorem Fresh.blockKeys {db : Db} (h : Fresh C db) : blockKeys C.networkName db = [] := by
  simp only [Fabric.blockKeys, List.map_eq_nil_iff, List.filter_eq_nil_iff, decide_eq_true_eq]
  exact h.blocks

theorem Fresh.txKeys {db : Db} (h : Fresh C db) : txKeys C.networkName db = [] := by
  simp only [Fabric.txKeys, List.map_eq_nil_iff, List.filter_eq_nil_iff, decide_eq_true_eq]
  exact h.transactions

theorem inv_init {db : Db} (h : Fresh C db) : Inv C L (init db) := by
  refine ⟨Guarded.nil, ⟨?_, ?_, ?_, ?_, ?_⟩, by simp [St.execs, init]⟩
  · simp [init, h.blockKeys]
  · simp [init, h.txKeys]
  · exact fun r hr hnet => absurd hnet (h.blocks r hr)
  · simp [init, h.txKeys]
  · simp [init, h.blockKeys]

theorem inv_inductive {I : Db → Prop} (hI : ∀ db, I db → Fresh C db) :
    (lts C L I).Inductive (Inv C L) where
  init s hs := by
    obtain ⟨db, hdb, rfl⟩ := hs
    exact inv_init (hI db hdb)
  step s ev s' h hs := by
    rcases step_cases hs with ⟨-, hm⟩ | ⟨-, hl⟩
    · exact inv_move h hm
    · exact inv_loss h hl

/-! ## Completeness -/

/-- The process dies after the first transaction row, and the block comes
again; then its insertion is executed but its reply is lost, and the block is
caught up after another restart. -/
def twoCrashes : List Ev :=
  .blockEvent "mychannel" 1 :: (List.replicate 4 (.run 0) ++ .crash :: .blockEvent "mychannel" 1 ::
    (List.replicate 8 (.run 0) ++ [.fail 0 true, .crash, .synchBlocks "mychannel", .chainInfo 0 (some 2),
      .run 0, .queryBlock 0 false]))

end Explorer.Fabric.SyncService
