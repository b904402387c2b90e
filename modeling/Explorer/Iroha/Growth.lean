import Explorer.Iroha.TransactionLog

/-!
# How the tables grow

What every reachable database has and what a further block does to it, seen
from a reader: the five numbered tables stay numbered from 1, rows are only
added behind the others, and the rows that were there keep their `index` and
all their other columns, except that an account's quorum, roles and
permissions change.

* `indexed_of_applyBlocks`: the numbering.
* `applyBlock_grows`: the growth.
-/
namespace Explorer.Iroha

variable {Bytes : Type}

structure Indexed (db : Db Bytes) : Prop where
  transaction : Numbered TransactionRow.index db.transaction.rows
  account : Numbered AccountRow.index db.account.rows
  peer : Numbered PeerRow.index db.peer.rows
  role : Numbered RoleRow.index db.role.rows
  domain : Numbered DomainRow.index db.domain.rows

theorem indexed_of_applyBlocks {W : Wire Bytes} {blocks : List Block} {db : Db Bytes}
    (h : applyBlocks W .empty blocks = .ok db) : Indexed db := by
  obtain ⟨hd, hr, hp, ha⟩ := entities_eq_numbered (applyBlocks_refines h)
  have hids : Numbered Prod.fst ((entities db).account.map fun a => (a.index, a.id)) :=
    numbered_of_eq ha fun _ _ => rfl
  rw [numbered_map] at hids
  exact ⟨transaction_numbered h, hids, numbered_of_eq hp fun _ _ => rfl,
    numbered_of_eq hr fun _ _ => rfl, numbered_of_eq hd fun _ _ => rfl⟩

theorem appendNumbered_grows {A B : Type} (mk : Nat → A → B) (rows : List B) (x : Option A) :
    rows <+: appendNumbered mk rows x := by
  cases x with
  | none => exact List.prefix_refl rows
  | some x => exact List.prefix_append rows _

theorem projectAll_grows {e e' : Entities} {xs : List Issued} (h : projectAll e xs = some e') :
    e.peer <+: e'.peer ∧ e.role <+: e'.role ∧ e.domain <+: e'.domain := by
  induction xs using List.reverseRecOn generalizing e' with
  | nil => cases h; exact ⟨List.prefix_refl _, List.prefix_refl _, List.prefix_refl _⟩
  | append_singleton xs x ih =>
    obtain ⟨e₁, h₁, hx⟩ := foldlM_concat_eq_some.1 h
    obtain ⟨hp, hr, hd⟩ := ih h₁
    obtain ⟨hp', hr', hd', -⟩ := project_eq_some hx
    rw [hp', hr', hd']
    exact ⟨hp.trans (appendNumbered_grows _ _ _), hr.trans (appendNumbered_grows _ _ _),
      hd.trans (appendNumbered_grows _ _ _)⟩

theorem logTransactions_grows (W : Wire Bytes) (block : Block) (transactions : List Transaction) :
    ∀ rows : List (TransactionRow Bytes), rows <+: logTransactions W block rows transactions := by
  induction transactions with
  | nil => intro rows; exact List.prefix_refl rows
  | cons transaction transactions ih =>
    intro rows
    exact (List.prefix_append rows _).trans (ih _)

/-- **Rows are only added behind the others.** -/
theorem applyBlock_grows {W : Wire Bytes} {db db' : Db Bytes} {block : Block}
    (h : applyBlock W db block = .ok db') :
    db.transaction.rows <+: db'.transaction.rows ∧
      db.account.rows.map (evolveAll (blockCommands block)) <+: db'.account.rows ∧
      db.peer.rows <+: db'.peer.rows ∧ db.role.rows <+: db'.role.rows ∧
      db.domain.rows <+: db'.domain.rows := by
  obtain ⟨-, -, ht, hproj⟩ := applyBlock_spec h
  obtain ⟨new, ha⟩ := projectAll_account hproj
  refine ⟨?_, ⟨new, ha.symm⟩, projectAll_grows hproj⟩
  rw [ht]
  exact logTransactions_grows W block block.transactions _

end Explorer.Iroha
