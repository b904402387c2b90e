import Mathlib.Algebra.Ring.Nat
import Explorer.Iroha.Lists
import Explorer.Iroha.Projection

/-!
# The transaction table

`applyBlock` stores a transaction twice: inside the protobuf of its block, and
as a row of its own with the next index. After a chain of blocks both are the
same list (`applyBlocks_log`).

* `numbered_logTransactions`: the rows of one block continue the numbering.
* `map_parseTransaction`: the objects made of the rows are those made of the
  blocks.
-/
namespace Explorer.Iroha

variable {Bytes : Type}

/-- The transactions of a chain with their blocks, in order. -/
def chainTransactions (blocks : List Block) : List (Block × Transaction) :=
  blocks.flatMap fun block => block.transactions.map fun transaction => (block, transaction)

def mkTransaction (W : Wire Bytes) (index : Nat) (x : Block × Transaction) : TransactionRow Bytes :=
  transactionRow W x.1 index x.2

theorem numbered_logTransactions (W : Wire Bytes) (block : Block) (xs : List (Block × Transaction))
    (transactions : List Transaction) :
    logTransactions W block (numbered (mkTransaction W) xs) transactions =
      numbered (mkTransaction W) (xs ++ transactions.map fun transaction => (block, transaction)) := by
  induction transactions generalizing xs with
  | nil => simp [logTransactions]
  | cons transaction transactions ih =>
    have hcons : logTransactions W block (numbered (mkTransaction W) xs) (transaction :: transactions) =
        logTransactions W block
          (appendNumbered (mkTransaction W) (numbered (mkTransaction W) xs) (some (block, transaction)))
          transactions := rfl
    rw [hcons, appendNumbered_numbered, ih]
    simp

/-- **Both copies of a chain.** -/
theorem applyBlocks_log {W : Wire Bytes} {blocks : List Block} {db : Db Bytes}
    (h : applyBlocks W .empty blocks = .ok db) :
    db.block.rows = blocks.map (blockRow W) ∧
      db.transaction.rows = numbered (mkTransaction W) (chainTransactions blocks) := by
  refine applyBlocks_induct (P := fun done db => db.block.rows = done.map (blockRow W) ∧
    db.transaction.rows = numbered (mkTransaction W) (chainTransactions done)) ⟨rfl, rfl⟩ ?_ h
  rintro done block db db' ⟨hb, ht⟩ hs
  obtain ⟨-, hb', ht', -⟩ := applyBlock_spec hs
  refine ⟨by rw [hb', hb, List.map_append]; rfl, ?_⟩
  rw [ht', ht, numbered_logTransactions]
  simp [chainTransactions]

/-! ## Reading both copies back -/

theorem parseBlock_blockRow (W : Wire Bytes) (block : Block) :
    parseBlock W (blockRow W block) = block := W.block.roundTrip block

theorem parseTransaction_row (W : Wire Bytes) (block : Block) (index : Nat) (i : Option Nat)
    (transaction : Transaction) :
    parseTransaction W i (transactionRow W block index transaction) =
      ⟨i, transaction, block.createdTime, blockHeight block⟩ := by
  simp [parseTransaction, transactionRow, W.transaction.roundTrip]

theorem map_parseTransaction (W : Wire Bytes) (blocks : List Block) :
    (numbered (mkTransaction W) (chainTransactions blocks)).map (parseTransaction W none) =
      blocks.flatMap getBlockTransactions := by
  rw [map_numbered _ _ (fun x => ⟨none, x.2, x.1.createdTime, blockHeight x.1⟩)
    (fun i x => parseTransaction_row W x.1 i none x.2), chainTransactions, List.map_flatMap]
  refine List.flatMap_congr fun block _ => ?_
  rw [List.map_map]
  rfl

/-! ## The columns of a row -/

theorem find?_of_unique {A : Type} {p : A → Bool} {xs : List A} {x : A} (hx : x ∈ xs)
    (hp : p x = true) (huniq : ∀ y ∈ xs, p y = true → y = x) : xs.find? p = some x := by
  cases h : xs.find? p with
  | none => exact absurd hp (List.find?_eq_none.1 h x hx)
  | some y => rw [huniq y (List.mem_of_find?_eq_some h) (List.find?_some h)]

/-- Each row is that of a transaction of a block of the chain. -/
theorem exists_transactionRow {W : Wire Bytes} {blocks : List Block} {db : Db Bytes}
    (h : applyBlocks W .empty blocks = .ok db) {row : TransactionRow Bytes}
    (hrow : row ∈ db.transaction.rows) :
    ∃ block ∈ blocks, ∃ transaction ∈ block.transactions,
      row = transactionRow W block row.index transaction := by
  rw [(applyBlocks_log h).2] at hrow
  obtain ⟨i, x, hx, rfl⟩ := mem_numbered hrow
  simp only [chainTransactions, List.mem_flatMap, List.mem_map] at hx
  obtain ⟨block, hblock, transaction, htx, rfl⟩ := hx
  exact ⟨block, hblock, transaction, htx, rfl⟩

theorem hash_parseTransaction {W : Wire Bytes} {blocks : List Block} {db : Db Bytes}
    (h : applyBlocks W .empty blocks = .ok db) {row : TransactionRow Bytes}
    (hrow : row ∈ db.transaction.rows) (i : Option Nat) :
    transactionHash W (parseTransaction W i row).protobuf = row.hash := by
  obtain ⟨block, -, transaction, -, e⟩ := exists_transactionRow h hrow
  rw [e, parseTransaction_row]
  rfl

/-! ## The rows in order -/

theorem mem_transactionList {W : Wire Bytes} {db : Db Bytes} {timeAfter timeBefore : Option Nat}
    {creatorId : Option String} {after : Option Nat} {count : Nat} {item : TransactionObject}
    (h : item ∈ (transactionList W db timeAfter timeBefore creatorId after count).items) :
    ∃ row ∈ db.transaction.rows, item = parseTransaction W (some row.index) row := by
  obtain ⟨row, hrow, rfl⟩ := List.mem_map.1 h
  exact ⟨row, mem_of_mem_selectRows hrow, rfl⟩

theorem orderBy_height {W : Wire Bytes} {blocks : List Block} {db : Db Bytes}
    (hord : (blocks.map blockHeight).Pairwise (· < ·))
    (h : applyBlocks W .empty blocks = .ok db) :
    orderBy BlockRow.height db.block.rows = blocks.map (blockRow W) := by
  rw [(applyBlocks_log h).1]
  exact orderBy_of_sorted (List.pairwise_map.2 (List.pairwise_map.1 hord))

theorem numbered_of_eq {A Row : Type} {mk : Nat → A → Row} {index : Row → Nat} {rows : List Row}
    {xs : List A} (h : rows = numbered mk xs) (hmk : ∀ i x, index (mk i x) = i) :
    Numbered index rows := by
  rw [h]
  exact numbered_index mk index hmk xs

theorem transaction_numbered {W : Wire Bytes} {blocks : List Block} {db : Db Bytes}
    (h : applyBlocks W .empty blocks = .ok db) :
    Numbered TransactionRow.index db.transaction.rows :=
  numbered_of_eq (applyBlocks_log h).2 fun _ _ => rfl

end Explorer.Iroha
