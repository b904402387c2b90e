import Mathlib.Data.List.Nodup
import Explorer.Fabric.Recovery

/-!
# The tables as a projection of the ledger

What the rows of a channel are, column by column, and not only which keys they
have.

* `projection`: the block row of a number, and a transaction row for the first
  envelope with each tx id, built from nothing but the block of the ledger.
* `FromEnvelopes`: every stored transaction row is one of those, whatever
  fails: an execution inserts a row when it has counted none for the envelopes
  before, and those have theirs already.
* `tables_mirror_ledger`: up to a height whose blocks all have a row the tables
  are the projection, in some order.
-/
namespace Explorer.Fabric.SyncService

section
variable (C : Client) (L : Ledger) (channelName hash : String)

/-! ## What the ledger prescribes -/

def ledgerBlock (block : Block) (firstTx : Envelope) : BlockRow :=
  { blockRow C hash block firstTx with networkName := some C.networkName }

/-- The row of an envelope, if it is the first of the block with its tx id. -/
def envelopeRow (block : Block) (firstTx : Envelope) (i : Nat) : Option TransactionRow :=
  (block.data[i]?).bind fun txObj =>
    if txObj.txId ∈ (block.data.take i).map Envelope.txId then none
    else transactionRow C hash (getBlockTimeStamp firstTx.timestamp) block i txObj

def ledgerTransactions (block : Block) (firstTx : Envelope) : List TransactionRow :=
  (List.range block.data.length).filterMap (envelopeRow C hash block firstTx)

/-- The rows of block `n`. -/
def projection (n : Nat) : Option (BlockRow × List TransactionRow) :=
  (L.block channelName n).bind fun block =>
    block.data.head?.map fun firstTx => (ledgerBlock C hash block firstTx, ledgerTransactions C hash block firstTx)

def blocksBelow (height : Nat) : List BlockRow :=
  (List.range height).filterMap fun n => (projection C L channelName hash n).map Prod.fst

def transactionsBelow (height : Nat) : List TransactionRow :=
  (List.range height).flatMap fun n => ((projection C L channelName hash n).map Prod.snd).getD []

/-- Every transaction row of the network is one that its block prescribes. -/
def FromEnvelopes (db : Db) : Prop :=
  ∀ r ∈ db.transactions, r.networkName = C.networkName →
    ∃ channelName block firstTx, L.block channelName r.blockid = some block ∧
      block.data.head? = some firstTx ∧ C.getChannelGenHash channelName = some r.channelGenesisHash ∧
      r ∈ ledgerTransactions C r.channelGenesisHash block firstTx

end

variable {C : Client} {L : Ledger}

/-! ## What an execution inserts -/

theorem mem_ledgerTransactions {hash : String} {block : Block} {firstTx : Envelope} {r : TransactionRow} :
    r ∈ ledgerTransactions C hash block firstTx ↔ ∃ i txObj, block.data[i]? = some txObj ∧
      txObj.txId ∉ (block.data.take i).map Envelope.txId ∧
      transactionRow C hash (getBlockTimeStamp firstTx.timestamp) block i txObj = some r := by
  simp only [ledgerTransactions, envelopeRow, List.mem_filterMap, List.mem_range, Option.bind_eq_some_iff,
    Option.ite_none_left_eq_some]
  constructor
  · rintro ⟨i, -, txObj, hget, hnew, hrow⟩
    exact ⟨i, txObj, hget, hnew, hrow⟩
  · rintro ⟨i, txObj, hget, hnew, hrow⟩
    exact ⟨i, (List.getElem?_eq_some_iff.1 hget).1, txObj, hget, hnew, hrow⟩

/-- The envelopes before have their rows, and none of them is for this tx id. -/
theorem newTransaction_prescribed {e : Exec} {db : Db} (h : e.At C db) {r : TransactionRow}
    (hr : r ∈ e.newTransactions) : r ∈ ledgerTransactions C r.channelGenesisHash e.block e.firstTx := by
  unfold Exec.newTransactions at hr
  unfold Exec.At at h
  split at hr
  · rename_i block i row hpc
    rw [hpc] at h
    obtain ⟨⟨-, hrow⟩, ⟨txObj, hget, htx⟩, hsaved, habsent⟩ := h
    obtain ⟨-, hhash, -, htxhash⟩ := transactionRow_key htx
    have hcreated : block.createdt = getBlockTimeStamp e.firstTx.timestamp := by
      rw [hrow]
      rfl
    rw [List.mem_singleton.1 hr, hhash]
    refine mem_ledgerTransactions.2 ⟨i, txObj, hget, fun hbefore => ?_, hcreated ▸ htx⟩
    obtain ⟨txObj', hmem, hsame⟩ := List.mem_map.1 hbefore
    obtain ⟨j, hj, rfl⟩ := List.mem_take_iff_getElem.1 hmem
    obtain ⟨-, hkey⟩ := hsaved j (by omega) _ (List.getElem?_eq_getElem (by omega))
    refine habsent ?_
    show (block.channelGenesisHash, e.number, row.txhash) ∈ txKeys C.networkName db
    rw [htxhash, ← hsame]
    exact hkey
  · cases hr

theorem step_transactions {s s' : St} {ev : Ev} (hs : step C L s ev = some s') :
    s'.db.transactions = s.db.transactions ∨
      ∃ e ∈ s.execs, s'.db.transactions = s.db.transactions ++ e.newTransactions := by
  rcases step_cases hs with ⟨-, hm⟩ | ⟨-, hl⟩
  · cases hm with
    | quiet hq | held _ _ _ _ _ _ hq => exact .inl hq.transactions
    | started _ _ _ _ _ _ hdb => exact .inl (by rw [hdb])
    | resumed e rest hp hdb =>
      exact .inr ⟨e, hp.mem_iff.2 List.mem_cons_self, by rw [hdb, resume_transactions]⟩
  · cases hl with
    | quiet hq => exact .inl hq.transactions
    | failed e rest hp hdb =>
      rcases hdb with hdb | hdb
      · exact .inl (by rw [hdb])
      · exact .inr ⟨e, hp.mem_iff.2 List.mem_cons_self, by rw [hdb, resume_transactions]⟩
    | crashed hdb => exact .inl (by rw [hdb])

theorem fromEnvelopes_step {s s' : St} {ev : Ev} (hinv : Inv C L s) (h : FromEnvelopes C L s.db)
    (hs : step C L s ev = some s') : FromEnvelopes C L s'.db := by
  intro r hr hnet
  rcases step_transactions hs with heq | ⟨e, he, heq⟩
  · rw [heq] at hr
    exact h r hr hnet
  · rw [heq, List.mem_append] at hr
    rcases hr with hold | hnew
    · exact h r hold hnet
    · obtain ⟨hfrom, hat⟩ := hinv.execs e he
      have hrow := newTransaction hat hnew
      refine ⟨e.channelName, e.block, e.firstTx, ?_, hfrom.firstTx, ?_, newTransaction_prescribed hat hnew⟩
      · rw [hrow.number]
        exact hfrom.ledger
      · rw [← hfrom.hash]
        exact hrow.hash

theorem fromEnvelopes_inductive :
    (lts C L (Fresh C)).Inductive fun s => Inv C L s ∧ FromEnvelopes C L s.db := by
  apply (inv_inductive fun _ hdb => hdb).and_of
  · rintro s ⟨db, hdb, rfl⟩ r hr hnet
    exact absurd hnet (hdb.transactions r hr)
  · exact fun s ev s' hinv h hs => fromEnvelopes_step hinv h hs

/-! ## The projection has no row twice -/

section
variable {channelName hash : String}

theorem mem_projection {n : Nat} {p : BlockRow × List TransactionRow} (h : projection C L channelName hash n = some p) :
    ∃ block firstTx, L.block channelName n = some block ∧ block.data.head? = some firstTx ∧
      p = (ledgerBlock C hash block firstTx, ledgerTransactions C hash block firstTx) := by
  obtain ⟨block, hblock, hmap⟩ := Option.bind_eq_some_iff.1 h
  obtain ⟨firstTx, hfirst, rfl⟩ := Option.map_eq_some_iff.1 hmap
  exact ⟨block, firstTx, hblock, hfirst, rfl⟩

theorem projection_eq {n : Nat} {block : Block} {firstTx : Envelope} (hblock : L.block channelName n = some block)
    (hfirst : block.data.head? = some firstTx) :
    projection C L channelName hash n =
      some (ledgerBlock C hash block firstTx, ledgerTransactions C hash block firstTx) := by
  rw [projection, hblock, Option.bind_some, hfirst, Option.map_some]

/-- Of one block, the tx id tells the row. -/
theorem ledgerTransactions_inj {block : Block} {firstTx : Envelope} {i j : Nat} {r r' : TransactionRow}
    (hr : envelopeRow C hash block firstTx i = some r) (hr' : envelopeRow C hash block firstTx j = some r')
    (h : r.txhash = r'.txhash) : i = j := by
  have hfirst : ∀ {i : Nat} {r : TransactionRow}, envelopeRow C hash block firstTx i = some r →
      ∃ hi : i < block.data.length, block.data[i].txId = r.txhash ∧
        block.data[i].txId ∉ (block.data.take i).map Envelope.txId := by
    intro i r hr
    obtain ⟨txObj, hget, hrow⟩ := Option.bind_eq_some_iff.1 hr
    obtain ⟨hi, rfl⟩ := List.getElem?_eq_some_iff.1 hget
    obtain ⟨hnew, hrow⟩ := Option.ite_none_left_eq_some.1 hrow
    exact ⟨hi, (transactionRow_key hrow).2.2.2.symm, hnew⟩
  have hbefore : ∀ {i j : Nat} (hi : i < block.data.length), i < j →
      block.data[i].txId ∈ (block.data.take j).map Envelope.txId := fun hi hlt =>
    List.mem_map_of_mem (List.mem_take_iff_getElem.2 ⟨_, by omega, rfl⟩)
  obtain ⟨hi, htx, hnew⟩ := hfirst hr
  obtain ⟨hj, htx', hnew'⟩ := hfirst hr'
  have hsame : block.data[i].txId = block.data[j].txId := by rw [htx, htx', h]
  rcases Nat.lt_trichotomy i j with hlt | heq | hlt
  · exact absurd (hsame ▸ hbefore hi hlt) hnew'
  · exact heq
  · exact absurd (hsame ▸ hbefore hj hlt) hnew

theorem ledgerTransactions_unique {block : Block} {firstTx : Envelope} {r r' : TransactionRow}
    (hr : r ∈ ledgerTransactions C hash block firstTx) (hr' : r' ∈ ledgerTransactions C hash block firstTx)
    (h : r.txhash = r'.txhash) : r = r' := by
  obtain ⟨i, -, hi⟩ := List.mem_filterMap.1 hr
  obtain ⟨j, -, hj⟩ := List.mem_filterMap.1 hr'
  obtain rfl := ledgerTransactions_inj hi hj h
  exact Option.some.inj (hi.symm.trans hj)

theorem nodup_ledgerTransactions (block : Block) (firstTx : Envelope) :
    (ledgerTransactions C hash block firstTx).Nodup := by
  refine List.Nodup.filterMap (fun i j r hi hj => ?_) List.nodup_range
  exact ledgerTransactions_inj hi hj rfl

theorem key_ledgerTransactions {block : Block} {firstTx : Envelope} {r : TransactionRow}
    (h : r ∈ ledgerTransactions C hash block firstTx) :
    r.networkName = C.networkName ∧ r.channelGenesisHash = hash ∧ r.blockid = block.header.number ∧
      ∃ txObj ∈ block.data, txObj.txId = r.txhash := by
  obtain ⟨i, txObj, hget, -, hrow⟩ := mem_ledgerTransactions.1 h
  obtain ⟨hnet, hhash, hnum, htx⟩ := transactionRow_key hrow
  exact ⟨hnet, hhash, hnum, txObj, List.mem_of_getElem? hget, htx.symm⟩

theorem mem_blocksBelow {height : Nat} {r : BlockRow} :
    r ∈ blocksBelow C L channelName hash height ↔ ∃ n < height, ∃ block firstTx, L.block channelName n = some block ∧
      block.data.head? = some firstTx ∧ r = ledgerBlock C hash block firstTx := by
  simp only [blocksBelow, List.mem_filterMap, List.mem_range, Option.map_eq_some_iff]
  constructor
  · rintro ⟨n, hn, p, hp, rfl⟩
    obtain ⟨block, firstTx, hblock, hfirst, rfl⟩ := mem_projection hp
    exact ⟨n, hn, block, firstTx, hblock, hfirst, rfl⟩
  · rintro ⟨n, hn, block, firstTx, hblock, hfirst, rfl⟩
    exact ⟨n, hn, _, projection_eq hblock hfirst, rfl⟩

theorem mem_transactionsBelow {height : Nat} {r : TransactionRow} :
    r ∈ transactionsBelow C L channelName hash height ↔ ∃ n < height, ∃ block firstTx,
      L.block channelName n = some block ∧ block.data.head? = some firstTx ∧
        r ∈ ledgerTransactions C hash block firstTx := by
  simp only [transactionsBelow, List.mem_flatMap, List.mem_range]
  constructor
  · rintro ⟨n, hn, hr⟩
    cases hp : projection C L channelName hash n with
    | none =>
      rw [hp] at hr
      cases hr
    | some p =>
      obtain ⟨block, firstTx, hblock, hfirst, rfl⟩ := mem_projection hp
      rw [hp] at hr
      exact ⟨n, hn, block, firstTx, hblock, hfirst, hr⟩
  · rintro ⟨n, hn, block, firstTx, hblock, hfirst, hr⟩
    refine ⟨n, hn, ?_⟩
    rw [projection_eq hblock hfirst]
    exact hr

theorem nodup_blocksBelow (height : Nat) : (blocksBelow C L channelName hash height).Nodup := by
  refine List.Nodup.filterMap (fun m n r hm hn => ?_) List.nodup_range
  have hnum : ∀ {n : Nat}, (projection C L channelName hash n).map Prod.fst = some r → r.blocknum = n := by
    intro n h
    obtain ⟨p, hp, rfl⟩ := Option.map_eq_some_iff.1 h
    obtain ⟨block, firstTx, hblock, -, rfl⟩ := mem_projection hp
    exact L.number _ _ _ hblock
  exact (hnum hm).symm.trans (hnum hn)

theorem nodup_transactionsBelow (height : Nat) : (transactionsBelow C L channelName hash height).Nodup := by
  have hrows : ∀ {n : Nat} {r : TransactionRow},
      r ∈ ((projection C L channelName hash n).map Prod.snd).getD [] → r.blockid = n := by
    intro n r hr
    cases hp : projection C L channelName hash n with
    | none =>
      rw [hp] at hr
      cases hr
    | some p =>
      obtain ⟨block, firstTx, hblock, -, rfl⟩ := mem_projection hp
      rw [hp] at hr
      exact (key_ledgerTransactions hr).2.2.1.trans (L.number _ _ _ hblock)
  refine List.nodup_flatMap.2 ⟨fun n _ => ?_, List.nodup_range.imp fun hne r hr hr' => ?_⟩
  · cases hp : projection C L channelName hash n with
    | none => exact List.nodup_nil
    | some p =>
      obtain ⟨block, firstTx, -, -, rfl⟩ := mem_projection hp
      exact nodup_ledgerTransactions block firstTx
  · exact hne ((hrows hr).symm.trans (hrows hr'))

/-! ## The tables have no row twice -/

theorem nodup_blocksOf {networkName : String} {db : Db} (h : (blockKeys networkName db).Nodup) (hash : String) :
    (blocksOf networkName db hash).Nodup := by
  have hsub : (blocksOf networkName db hash).Sublist
      (db.blocks.filter fun r => r.networkName = some networkName) := by
    have heq : blocksOf networkName db hash = (db.blocks.filter fun r => r.networkName = some networkName).filter
        fun r => r.channelGenesisHash = hash := by
      rw [List.filter_filter]
      exact List.filter_congr fun r _ => by simp
    rw [heq]
    exact List.filter_sublist
  exact (h.of_map _).sublist hsub

theorem nodup_transactionsOf {networkName : String} {db : Db} (h : (txKeys networkName db).Nodup) (hash : String) :
    (transactionsOf networkName db hash).Nodup := by
  have hsub : (transactionsOf networkName db hash).Sublist
      (db.transactions.filter fun r => r.networkName = networkName) := by
    have heq : transactionsOf networkName db hash = (db.transactions.filter fun r =>
        r.networkName = networkName).filter fun r => r.channelGenesisHash = hash := by
      rw [List.filter_filter]
      exact List.filter_congr fun r _ => by simp
    rw [heq]
    exact List.filter_sublist
  exact (h.of_map _).sublist hsub

/-! ## The same rows -/

theorem blocksOf_perm (hch : C.getChannelGenHash channelName = some hash) {db : Db} (h : Stored C L db) {height : Nat}
    (hall : ∀ n < height, (hash, n) ∈ blockKeys C.networkName db) :
    ((blocksOf C.networkName db hash).filter fun r => r.blocknum < height).Perm
      (blocksBelow C L channelName hash height) := by
  have hledger : ∀ r ∈ db.blocks, r.networkName = some C.networkName → r.channelGenesisHash = hash →
      ∃ block firstTx, L.block channelName r.blocknum = some block ∧ block.data.head? = some firstTx ∧
        r = ledgerBlock C hash block firstTx := by
    intro r hr hnet hhash
    obtain ⟨c, block, firstTx, hblock, hfirst, hc, heq⟩ := h.origin r hr hnet
    rw [hhash] at hc heq
    obtain rfl : c = channelName := C.distinct _ _ _ hc hch
    exact ⟨block, firstTx, hblock, hfirst, heq⟩
  apply (List.perm_ext_iff_of_nodup ((nodup_blocksOf h.blocks hash).filter _) (nodup_blocksBelow height)).2
  intro r
  simp only [List.mem_filter, blocksOf, decide_eq_true_eq, mem_blocksBelow]
  constructor
  · rintro ⟨⟨hr, hhash, hnet⟩, hlt⟩
    exact ⟨r.blocknum, hlt, hledger r hr hnet hhash⟩
  · rintro ⟨n, hn, block, firstTx, hblock, hfirst, rfl⟩
    obtain ⟨r, hr, hnet, hhash, hnum⟩ := mem_blockKeys.1 (hall n hn)
    obtain ⟨block', firstTx', hblock', hfirst', heq⟩ := hledger r hr hnet hhash
    rw [hnum, hblock] at hblock'
    cases hblock'
    rw [hfirst] at hfirst'
    cases hfirst'
    rw [← heq]
    exact ⟨⟨hr, hhash, hnet⟩, hnum ▸ hn⟩

theorem transactionsOf_perm (hch : C.getChannelGenHash channelName = some hash) {db : Db} (h : Stored C L db)
    (hrows : FromEnvelopes C L db) {height : Nat} (hall : ∀ n < height, (hash, n) ∈ blockKeys C.networkName db) :
    ((transactionsOf C.networkName db hash).filter fun r => r.blockid < height).Perm
      (transactionsBelow C L channelName hash height) := by
  have hledger : ∀ r ∈ db.transactions, r.networkName = C.networkName → r.channelGenesisHash = hash →
      ∃ block firstTx, L.block channelName r.blockid = some block ∧ block.data.head? = some firstTx ∧
        r ∈ ledgerTransactions C hash block firstTx := by
    intro r hr hnet hhash
    obtain ⟨c, block, firstTx, hblock, hfirst, hc, hmem⟩ := hrows r hr hnet
    rw [hhash] at hc hmem
    obtain rfl : c = channelName := C.distinct _ _ _ hc hch
    exact ⟨block, firstTx, hblock, hfirst, hmem⟩
  apply (List.perm_ext_iff_of_nodup ((nodup_transactionsOf h.transactions hash).filter _)
    (nodup_transactionsBelow height)).2
  intro r
  simp only [List.mem_filter, transactionsOf, decide_eq_true_eq, mem_transactionsBelow]
  constructor
  · rintro ⟨⟨hr, hhash, hnet⟩, hlt⟩
    exact ⟨r.blockid, hlt, hledger r hr hnet hhash⟩
  · rintro ⟨n, hn, block, firstTx, hblock, hfirst, hmem⟩
    -- the envelope has a row, and the row is the one prescribed for its tx id
    obtain ⟨-, -, hnum, txObj, htx, hid⟩ := key_ledgerTransactions hmem
    obtain ⟨-, hkey⟩ := h.complete channelName hash n block hblock hch (hall n hn) txObj htx
    obtain ⟨r', hr', hnet, hhash, hn', htxhash⟩ := mem_txKeys.1 hkey
    obtain ⟨block', firstTx', hblock', hfirst', hmem'⟩ := hledger r' hr' hnet hhash
    rw [hn', hblock] at hblock'
    cases hblock'
    rw [hfirst] at hfirst'
    cases hfirst'
    obtain rfl := ledgerTransactions_unique hmem' hmem (htxhash.trans hid)
    exact ⟨⟨hr', hhash, hnet⟩, hn' ▸ hn⟩

/-- Each number has its block. -/
theorem blocknums_blocksBelow (hch : C.getChannelGenHash channelName = some hash) {db : Db} (h : Stored C L db)
    {height : Nat} (hall : ∀ n < height, (hash, n) ∈ blockKeys C.networkName db) :
    (blocksBelow C L channelName hash height).map BlockRow.blocknum = List.range height := by
  have hnum : ∀ n ∈ List.range height,
      ((projection C L channelName hash n).map Prod.fst).map BlockRow.blocknum = some n := by
    intro n hn
    obtain ⟨r, hr, hnet, hhash, hsame⟩ := mem_blockKeys.1 (hall n (List.mem_range.1 hn))
    obtain ⟨c, block, firstTx, hblock, hfirst, hc, -⟩ := h.origin r hr hnet
    rw [hhash] at hc
    obtain rfl : c = channelName := C.distinct _ _ _ hc hch
    rw [hsame] at hblock
    rw [projection_eq hblock hfirst]
    exact congrArg some (L.number _ _ _ hblock)
  rw [blocksBelow, List.map_filterMap, List.filterMap_congr hnum, List.filterMap_some]

theorem stored_of_findMissing {db : Db} {height : Nat}
    (h : findMissingBlockNumber C.networkName hash ((height : Int) - 1) db = []) :
    ∀ n < height, (hash, n) ∈ blockKeys C.networkName db := by
  intro n hn
  by_contra hnot
  have hmem := mem_findMissingBlockNumber.2 ⟨(by omega : (n : Int) ≤ (height : Int) - 1), hnot⟩
  rw [h] at hmem
  cases hmem

end

/-- **What catch-up does not miss is a copy of the ledger.** Whatever has
failed, and however often the process was restarted: when no number below a
height is missing, the rows of the channel below it are, column by column,
those that the blocks prescribe, each once. -/
theorem tables_mirror_ledger (channelName hash : String) (hch : C.getChannelGenHash channelName = some hash)
    (height : Nat) (s : St) (hr : (lts C L (Fresh C)).Reachable s)
    (hnone : findMissingBlockNumber C.networkName hash ((height : Int) - 1) s.db = []) :
    ((blocksOf C.networkName s.db hash).filter fun r => r.blocknum < height).Perm
        (blocksBelow C L channelName hash height) ∧
      ((transactionsOf C.networkName s.db hash).filter fun r => r.blockid < height).Perm
        (transactionsBelow C L channelName hash height) := by
  obtain ⟨hinv, hrows⟩ := fromEnvelopes_inductive.reachable s hr
  have hall := stored_of_findMissing hnone
  exact ⟨blocksOf_perm hch hinv.stored hall, transactionsOf_perm hch hinv.stored hrows hall⟩

/-- The run of `restart_recovers_replyLost`, on a channel that has its row. -/
def recovered : List Ev := replyLost ++ .crash :: .synchBlocks "mychannel" :: bothCaughtUp

theorem tables_mirror_ledger_recovered :
    ∃ s, LTS.exec (step mychannel ledgerBoth) (init emptyChannel) recovered = some s ∧
      ((blocksOf "first-network" s.db "genesis").filter fun r => r.blocknum < 2).Perm
        (blocksBelow mychannel ledgerBoth "mychannel" "genesis" 2) ∧
      ((transactionsOf "first-network" s.db "genesis").filter fun r => r.blockid < 2).Perm
        (transactionsBelow mychannel ledgerBoth "mychannel" "genesis" 2) := by
  have hrun : (LTS.exec (step mychannel ledgerBoth) (init emptyChannel) recovered).map
      (fun s => findMissingBlockNumber "first-network" "genesis" 1 s.db) = some [] := by
    decide +kernel
  obtain ⟨s, hs, hnone⟩ := Option.map_eq_some_iff.1 hrun
  have hfresh : Fresh mychannel emptyChannel := ⟨by simp [emptyChannel], by simp [emptyChannel]⟩
  exact ⟨s, hs, tables_mirror_ledger "mychannel" "genesis" rfl 2 s (LTS.reachable_of_exec ⟨_, hfresh, rfl⟩ hs) hnone⟩

end Explorer.Fabric.SyncService
