import Explorer.Iroha.Loaders

/-!
# One `Transaction` object, whichever way it is read

A `Transaction` object comes from the protobuf of its block
(`Block.transactions`), or from its own row, through the loader
(`transactionByHash`) or a page (`transactionList`). Both copies are written by
`applyBlock`, and are the same list.

* `transactionsByHash_row`: the loader finds the row of a stored hash, whatever
  else is in the batch and in whatever order the rows come back.
* `transaction_table_flattens`: the table is the flattening of the blocks, and
  the three ways to a `Transaction` object resolve to the same fields.
-/
namespace Explorer.Iroha

variable {Bytes V : Type} {W : Wire Bytes} {blocks : List Block} {db : Db Bytes}

/-- The other keys of the batch find what they find: `get` reads a member of
the object that `keyBy` has made before anything else. -/
theorem transactionsByHash_row (R : Loader.Runtime V) (h : applyBlocks W .empty blocks = .ok db)
    {row : TransactionRow Bytes} (hrow : row ∈ db.transaction.rows) {hashes : List String}
    {answer : List (TransactionRow Bytes)} (hanswer : answer.Perm (Loader.selectTransactions db hashes)) {i : Nat}
    (hi : hashes[i]? = some row.hash) :
    (Loader.transactionsByHash R W hashes answer)[i]? =
      some (some (R.transaction (parseTransaction W none row))) := by
  have hdb := Loader.stored_applyBlocks h
  have hstored : Loader.storedTransaction R W db row.hash = some (R.transaction (parseTransaction W none row)) := by
    have hfind : db.transaction.rows.find? (fun r => r.hash = row.hash) = some row :=
      find?_of_unique hrow (by simp) fun r hr hhash => Loader.unique_hash hr hrow (of_decide_eq_true hhash)
    rw [Loader.storedTransaction, Loader.storedRow, hfind]
    rfl
  have hiff : R.get (fun key => (keyBy (fun x => transactionHash W x.protobuf)
      (answer.map (parseTransaction W none)) key).map R.transaction) row.hash =
        Loader.storedTransaction R W db row.hash ↔
      Loader.CleanKey R (Loader.storedTransaction R W db) hashes row.hash := by
    refine Loader.get_answer_iff (fun _ ha _ hb => Loader.unique_hash ha hb) ?_ (fun _ => Loader.anyOrOne_iff)
      hanswer (List.mem_of_getElem? hi)
    exact fun r hr => hdb.hash r hr none
  have hget := hiff.2 fun hnone => absurd (hstored.symm.trans hnone) (by simp)
  rw [Loader.transactionsByHash, Loader.byKeys, List.getElem?_map, hi, Option.map_some, hget]
  exact congrArg some hstored

/-- **The transaction table is the flattening of the block table.** For
blocks applied to the empty database in increasing height order: the block
rows are those of the blocks; the transaction rows by index are the
transactions of the blocks by height, each with the time and height of its
block, numbered from 1; the block table counts as many as there are; and the
`Transaction` objects of `Block.transactions`, `transactionByHash` and
`transactionList` resolve to the same fields. -/
theorem transaction_table_flattens (R : Loader.Runtime V) (W : Wire Bytes) (blocks : List Block) (db : Db Bytes)
    (hord : (blocks.map blockHeight).Pairwise (· < ·))
    (h : applyBlocks W .empty blocks = .ok db) :
    db.block.rows = blocks.map (blockRow W) ∧
    (orderBy TransactionRow.index db.transaction.rows).map (parseTransaction W none) =
      (orderBy BlockRow.height db.block.rows).flatMap
        (fun row => getBlockTransactions (parseBlock W row)) ∧
    (orderBy TransactionRow.index db.transaction.rows).map TransactionRow.index =
      List.range' 1 db.transactionCount ∧
    (db.block.rows.map BlockRow.transactionCount).sum = db.transactionCount ∧
    ∀ row ∈ db.transaction.rows, ∃ block ∈ db.block.rows,
      row.blockHeight = block.height ∧ row.time = block.createdTime ∧
      ∃ transaction ∈ getBlockTransactions (parseBlock W block),
        (resolveTransaction W transaction).hash = row.hash ∧
        (∀ (hashes : List String) (answer : List (TransactionRow Bytes)) (i : Nat),
          answer.Perm (Loader.selectTransactions db hashes) → hashes[i]? = some row.hash →
          ∃ found, (Loader.transactionsByHash R W hashes answer)[i]? = some (some (R.transaction found)) ∧
            resolveTransaction W found = resolveTransaction W transaction) ∧
        ∀ timeAfter timeBefore creatorId after count,
          ∀ item ∈ (transactionList W db timeAfter timeBefore creatorId after count).items,
            item.index = some row.index →
              resolveTransaction W item = resolveTransaction W transaction := by
  obtain ⟨hblock, htx⟩ := applyBlocks_log h
  have hnum := transaction_numbered h
  have hsorted : orderBy TransactionRow.index db.transaction.rows = db.transaction.rows :=
    orderBy_of_sorted hnum.sorted
  refine ⟨hblock, ?_, ?_, ?_, ?_⟩
  · rw [hsorted, orderBy_height hord h, htx, map_parseTransaction, List.flatMap_map]
    exact List.flatMap_congr fun block _ => by rw [parseBlock_blockRow]
  · rw [hsorted]; exact hnum
  · rw [hblock, Db.transactionCount, Table.count, htx, length_numbered, chainTransactions,
      List.length_flatMap, List.map_map]
    congr 1
    exact List.map_congr_left fun block _ => by simp [blockRow]
  · intro row hrow
    obtain ⟨block, hmem, transaction, htxmem, e⟩ := exists_transactionRow h hrow
    refine ⟨blockRow W block, by rw [hblock]; exact List.mem_map_of_mem hmem, by rw [e]; rfl,
      by rw [e]; rfl, parseTransaction W none row, ?_, hash_parseTransaction h hrow none, ?_, ?_⟩
    · rw [parseBlock_blockRow, e, parseTransaction_row]
      exact List.mem_map_of_mem htxmem
    · intro hashes answer i hanswer hi
      exact ⟨_, transactionsByHash_row R h hrow hanswer hi, rfl⟩
    · intro timeAfter timeBefore creatorId after count item hitem hindex
      obtain ⟨r, hr, rfl⟩ := mem_transactionList hitem
      have hi : r.index = row.index := Option.some.inj hindex
      rw [Table.eq_of_clash hr hrow (decide_eq_true (.inl hi)) (decide_eq_true (.inl hi.symm))]
      rfl

/-- Two blocks, the second empty, the third with two transactions. -/
def threeBlocks : List Block :=
  let transaction (time : Nat) : Transaction := ⟨⟨"", time, 1, []⟩, []⟩
  [⟨1, 10, "", [transaction 0]⟩, ⟨2, 20, "", []⟩, ⟨3, 30, "", [transaction 1, transaction 2]⟩]

/-- Three block rows and three transaction rows. -/
theorem transaction_table_flattens_threeBlocks :
    ∃ db, applyBlocks plainWire .empty threeBlocks = .ok db ∧
      db.block.rows.map (fun row => (row.height, row.transactionCount)) = [(1, 1), (2, 0), (3, 2)] ∧
      (orderBy TransactionRow.index db.transaction.rows).map TransactionRow.index = [1, 2, 3] ∧
      ((orderBy TransactionRow.index db.transaction.rows).map (parseTransaction plainWire none)).map
        (fun x => (x.blockHeight, x.time)) = [(1, 10), (3, 30), (3, 30)] := by
  obtain ⟨db, h⟩ := exists_of_isOk (x := applyBlocks plainWire .empty threeBlocks)
    (by decide +kernel)
  obtain ⟨hblock, hflat, hindex, hsum, -⟩ :=
    transaction_table_flattens Loader.node plainWire threeBlocks db (by decide) h
  have hcount : db.transactionCount = 3 := by
    rw [← hsum, hblock]
    decide
  refine ⟨db, h, by rw [hblock]; decide, by rw [hindex, hcount]; decide, ?_⟩
  rw [hflat, hblock]
  decide +kernel

end Explorer.Iroha
