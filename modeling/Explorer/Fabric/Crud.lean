import Mathlib.Tactic.Tauto
import Explorer.Fabric.Block

/-!
# `CRUDService.saveBlock` and `saveTransaction`

The four tables that block processing reads and writes, and the statements
it sends. No column is UNIQUE and no SQL transaction spans two statements:
`saveBlock` and `saveTransaction` count, insert if there is nothing yet, and
then count up. `SaveBlock` and `SaveTransaction` are the awaits at which they
can stand, and `run` executes the statement awaited there and goes on to the
next await, or to the answer (`Sum`).

Rows are lists in insertion order, without their SERIAL ids. A count is read
as a number; the texts spliced into a statement are taken as the literals
they stand for, which holds where they are plain (`SavedStatements`).
-/
namespace Explorer.Fabric

structure ChannelRow where
  name : String
  blocks : Nat
  trans : Nat
  channelGenesisHash : String
  networkName : String
  deriving DecidableEq, Repr

structure ChaincodeRow where
  name : String
  version : String
  path : String
  txcount : Nat
  channelGenesisHash : String
  networkName : String
  deriving DecidableEq, Repr

structure Db where
  blocks : List BlockRow
  transactions : List TransactionRow
  channel : List ChannelRow
  chaincodes : List ChaincodeRow
  deriving DecidableEq, Repr

/-- mirrors app/persistence/fabric/CRUDService.js:481-489 -/
def isValidRow (c : Nat) : Bool := c = 0

/-! ## Statements -/

def countBlocks (networkName : String) (block : BlockRow) (db : Db) : Nat :=
  db.blocks.countP fun r =>
    r.blocknum = block.blocknum ∧ r.txcount = block.txcount ∧
      r.channelGenesisHash = block.channelGenesisHash ∧ r.networkName = some networkName ∧
      r.prehash = block.prehash ∧ r.datahash = block.datahash

def insertBlock (networkName : String) (block : BlockRow) (db : Db) : Db :=
  { db with blocks := db.blocks ++ [{ block with networkName := some networkName }] }

/-- `update channel set … where channel_genesis_hash = … and network_name = …` -/
def updateChannel (networkName channelGenesisHash : String) (set : ChannelRow → ChannelRow)
    (db : Db) : Db :=
  { db with channel := db.channel.map fun r =>
      if r.channelGenesisHash = channelGenesisHash ∧ r.networkName = networkName then set r else r }

def countTransactions (networkName : String) (transaction : TransactionRow) (db : Db) : Nat :=
  db.transactions.countP fun r =>
    r.blockid = transaction.blockid ∧ r.txhash = transaction.txhash ∧
      r.channelGenesisHash = transaction.channelGenesisHash ∧ r.networkName = networkName

def insertTransaction (transaction : TransactionRow) (db : Db) : Db :=
  { db with transactions := db.transactions ++ [transaction] }

def updateTxcount (networkName : String) (transaction : TransactionRow) (db : Db) : Db :=
  { db with chaincodes := db.chaincodes.map fun r =>
      if r.channelGenesisHash = transaction.channelGenesisHash ∧ r.networkName = networkName ∧
          r.name = transaction.chaincodename then
        { r with txcount := r.txcount + 1 }
      else r }

/-- mirrors app/persistence/fabric/MetricService.js:637-642 -/
def findMissingBlockNumber (networkName channelGenesisHash : String) (maxHeight : Int) (db : Db) :
    List Nat :=
  (List.range (maxHeight + 1).toNat).filter fun id => !db.blocks.any fun r =>
    r.blocknum = id ∧ r.channelGenesisHash = channelGenesisHash ∧ r.networkName = some networkName

/-! ## Saving -/

inductive SaveBlock where
  | count
  | insert
  | channel
  deriving DecidableEq, Repr

/-- mirrors app/persistence/fabric/CRUDService.js:207-230 -/
def SaveBlock.run (networkName : String) (block : BlockRow) (db : Db) : SaveBlock → Db × (SaveBlock ⊕ Bool)
  | .count => (db, if isValidRow (countBlocks networkName block db) then .inl .insert else .inr false)
  | .insert => (insertBlock networkName block db, .inl .channel)
  | .channel =>
    (updateChannel networkName block.channelGenesisHash (fun r => { r with blocks := r.blocks + 1 }) db,
      .inr true)

inductive SaveTransaction where
  | count
  | insert
  | chaincodes
  | channel
  deriving DecidableEq, Repr

/-- mirrors app/persistence/fabric/CRUDService.js:241-268 -/
def SaveTransaction.run (networkName : String) (transaction : TransactionRow) (db : Db) :
    SaveTransaction → Db × (SaveTransaction ⊕ Bool)
  | .count =>
    (db, if isValidRow (countTransactions networkName transaction db) then .inl .insert else .inr false)
  | .insert => (insertTransaction transaction db, .inl .chaincodes)
  | .chaincodes => (updateTxcount networkName transaction db, .inl .channel)
  | .channel =>
    (updateChannel networkName transaction.channelGenesisHash
        (fun r => { r with trans := r.trans + 1 }) db,
      .inr true)

/-- What is known at an await of `saveBlock`, where `stored` says that the
block has a row. -/
def SaveBlock.At (stored : Prop) : SaveBlock → Prop
  | .count => True
  | .insert => ¬ stored
  | .channel => stored

def SaveTransaction.At (stored : Prop) : SaveTransaction → Prop
  | .count => True
  | .insert => ¬ stored
  | .chaincodes | .channel => stored

/-! ## What is stored -/

section
variable (networkName : String) (db : Db)

/-- The genesis hash and the number of every block row of a network. -/
def blockKeys : List (String × Nat) :=
  (db.blocks.filter fun r => r.networkName = some networkName).map fun r =>
    (r.channelGenesisHash, r.blocknum)

/-- The genesis hash, block number and tx id of every transaction row of a
network. -/
def txKeys : List (String × Nat × String) :=
  (db.transactions.filter fun r => r.networkName = networkName).map fun r =>
    (r.channelGenesisHash, r.blockid, r.txhash)

def blockRows (channelGenesisHash : String) (n : Nat) : List BlockRow :=
  db.blocks.filter fun r =>
    r.networkName = some networkName ∧ r.channelGenesisHash = channelGenesisHash ∧ r.blocknum = n

/-- The rows of one channel of a network, in the three tables. -/
def blocksOf (channelGenesisHash : String) : List BlockRow :=
  db.blocks.filter fun r =>
    r.channelGenesisHash = channelGenesisHash ∧ r.networkName = some networkName

def transactionsOf (channelGenesisHash : String) : List TransactionRow :=
  db.transactions.filter fun r =>
    r.channelGenesisHash = channelGenesisHash ∧ r.networkName = networkName

def channelRows (channelGenesisHash : String) : List ChannelRow :=
  db.channel.filter fun r =>
    r.channelGenesisHash = channelGenesisHash ∧ r.networkName = networkName

def transactionRows (channelGenesisHash : String) (n : Nat) (txhash : String) : List TransactionRow :=
  db.transactions.filter fun r =>
    r.networkName = networkName ∧ r.channelGenesisHash = channelGenesisHash ∧ r.blockid = n ∧
      r.txhash = txhash

end

variable {networkName : String} {db : Db}

theorem mem_blockKeys {hash : String} {n : Nat} :
    (hash, n) ∈ blockKeys networkName db ↔ ∃ r ∈ db.blocks, r.networkName = some networkName ∧
      r.channelGenesisHash = hash ∧ r.blocknum = n := by
  simp [blockKeys, and_assoc]

theorem mem_txKeys {hash txhash : String} {n : Nat} :
    (hash, n, txhash) ∈ txKeys networkName db ↔ ∃ r ∈ db.transactions, r.networkName = networkName ∧
      r.channelGenesisHash = hash ∧ r.blockid = n ∧ r.txhash = txhash := by
  simp [txKeys, and_assoc]

theorem length_blockRows (hash : String) (n : Nat) :
    (blockRows networkName db hash n).length = (blockKeys networkName db).count (hash, n) := by
  rw [blockKeys, List.count, List.countP_map, List.countP_filter, blockRows, ← List.countP_eq_length_filter]
  refine List.countP_congr fun r _ => ?_
  simp only [decide_eq_true_eq, Function.comp, Bool.and_eq_true, beq_iff_eq, Prod.mk.injEq]
  tauto

theorem length_transactionRows (hash : String) (n : Nat) (txhash : String) :
    (transactionRows networkName db hash n txhash).length =
      (txKeys networkName db).count (hash, n, txhash) := by
  rw [txKeys, List.count, List.countP_map, List.countP_filter, transactionRows,
    ← List.countP_eq_length_filter]
  refine List.countP_congr fun r _ => ?_
  simp only [decide_eq_true_eq, Function.comp, Bool.and_eq_true, beq_iff_eq, Prod.mk.injEq]
  tauto

theorem blockKeys_append {db' : Db} {rows : List BlockRow} (h : db'.blocks = db.blocks ++ rows)
    (hrows : ∀ r ∈ rows, r.networkName = some networkName) :
    blockKeys networkName db' =
      blockKeys networkName db ++ rows.map fun r => (r.channelGenesisHash, r.blocknum) := by
  have hall : rows.filter (fun r => r.networkName = some networkName) = rows :=
    List.filter_eq_self.2 fun r hr => by simpa using hrows r hr
  rw [blockKeys, h, List.filter_append, hall, List.map_append]
  rfl

theorem txKeys_append {db' : Db} {rows : List TransactionRow}
    (h : db'.transactions = db.transactions ++ rows) (hrows : ∀ r ∈ rows, r.networkName = networkName) :
    txKeys networkName db' =
      txKeys networkName db ++ rows.map fun r => (r.channelGenesisHash, r.blockid, r.txhash) := by
  have hall : rows.filter (fun r => r.networkName = networkName) = rows :=
    List.filter_eq_self.2 fun r hr => by simpa using hrows r hr
  rw [txKeys, h, List.filter_append, hall, List.map_append]
  rfl

/-- The keys depend on the rows of their own table only. -/
theorem blockKeys_congr {db' : Db} (h : db'.blocks = db.blocks) :
    blockKeys networkName db' = blockKeys networkName db := by
  rw [blockKeys, blockKeys, h]

theorem txKeys_congr {db' : Db} (h : db'.transactions = db.transactions) :
    txKeys networkName db' = txKeys networkName db := by
  rw [txKeys, txKeys, h]

theorem isValidRow_countTransactions {transaction : TransactionRow} :
    isValidRow (countTransactions networkName transaction db) = true ↔
      (transaction.channelGenesisHash, transaction.blockid, transaction.txhash) ∉
        txKeys networkName db := by
  simp only [isValidRow, countTransactions, decide_eq_true_eq, List.countP_eq_zero, mem_txKeys,
    not_exists, not_and]
  refine forall_congr' fun r => forall_congr' fun _ => ?_
  tauto

/-- A block is new when no row has its number; a row with its number and
other data does not count. -/
theorem isValidRow_countBlocks {block : BlockRow}
    (hsame : ∀ r ∈ db.blocks, r.networkName = some networkName →
      r.channelGenesisHash = block.channelGenesisHash → r.blocknum = block.blocknum →
      r.txcount = block.txcount ∧ r.prehash = block.prehash ∧ r.datahash = block.datahash) :
    isValidRow (countBlocks networkName block db) = true ↔
      (block.channelGenesisHash, block.blocknum) ∉ blockKeys networkName db := by
  simp only [isValidRow, countBlocks, decide_eq_true_eq, List.countP_eq_zero, mem_blockKeys,
    not_exists, not_and]
  refine forall_congr' fun r => forall_congr' fun hr => ?_
  have := hsame r hr
  tauto

/-- A number up to `maxHeight` that is not missing has a row. -/
theorem mem_findMissingBlockNumber {hash : String} {maxHeight : Int} {n : Nat} :
    n ∈ findMissingBlockNumber networkName hash maxHeight db ↔
      (n : Int) ≤ maxHeight ∧ (hash, n) ∉ blockKeys networkName db := by
  simp only [findMissingBlockNumber, List.mem_filter, List.mem_range, Bool.not_eq_true',
    List.any_eq_false, decide_eq_true_eq, mem_blockKeys, not_exists, not_and]
  refine and_congr (by omega) (forall_congr' fun r => forall_congr' fun _ => ?_)
  tauto

end Explorer.Fabric
