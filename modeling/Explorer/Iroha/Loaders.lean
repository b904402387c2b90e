import Std.Data.String.ToInt
import Explorer.Core.Lodash
import Explorer.Iroha.TransactionLog

/-!
# The batch functions of the loaders

`blocksByHeight`, `transactionsByHash`, `accountsById`, `peersByPublicKey`,
`rolesByName` and `domainsById`: a query for the rows of the keys, in whatever
order they come back, and `byKeys`, which brings them into the order of the
keys through `keyBy` and `get`.

`get` reads more than the members that `keyBy` has made: a key that is not
stored can be the name of a member of `Object.prototype` (`constructor`), or a
path into the row of another key (`a@b.id` next to `a@b`).

* `Stored`: the columns that `applyBlock` computes from the message it stores.
* `byKeys_eq_iff`: when `byKeys` gives every key its own row or null.
* `batch_loading_iff`: the six functions.
-/
namespace Explorer.Iroha.Loader

variable {Bytes V : Type}

/-- The rows and messages as JavaScript values. -/
structure Runtime (V : Type) extends Lodash V where
  block : Block → V
  transaction : TransactionObject → V
  account : AccountRow → V
  peer : PeerRow → V
  role : RoleRow → V
  domain : DomainRow → V

/-- `column = (key)` for one key, `column = ANY(keys)` for the others.
mirrors iroha/src/iroha-db.ts:19 -/
def anyOrOne {K : Type} [DecidableEq K] (keys : List K) (column : K) : Bool :=
  match keys with
  | [key] => column = key
  | keys => column ∈ keys

variable (R : Runtime V)

/-- mirrors iroha/src/iroha-db.ts:23-26 -/
def byKeys {T : Type} (toJs : T → V) (keyOf : T → String) (keys : List String) (items : List T) :
    List (Option V) :=
  keys.map (R.get fun key => (keyBy keyOf items key).map toJs)

/-- `byKeys` with numbers for keys, which `keyBy` turns into texts. -/
def byNumbers {T : Type} (toJs : T → V) (keyOf : T → Int) (keys : List Int) (items : List T) :
    List (Option V) :=
  keys.map (R.getNumber fun key => (keyBy (fun item => toString (keyOf item)) items key).map toJs)

/-! ## The queries and what is made of their rows -/

variable (W : Wire Bytes) (db : Db Bytes)

def selectBlocks (heights : List Int) : List (BlockRow Bytes) :=
  db.block.rows.filter fun row => anyOrOne heights (row.height : Int)

def selectTransactions (hashes : List String) : List (TransactionRow Bytes) :=
  db.transaction.rows.filter fun row => anyOrOne hashes row.hash

def selectAccounts (ids : List String) : List AccountRow := db.account.rows.filter fun row => anyOrOne ids row.id

def selectPeers (publicKeys : List String) : List PeerRow :=
  db.peer.rows.filter fun row => anyOrOne publicKeys row.publicKey

def selectRoles (names : List String) : List RoleRow := db.role.rows.filter fun row => anyOrOne names row.name

def selectDomains (ids : List String) : List DomainRow := db.domain.rows.filter fun row => anyOrOne ids row.id

/-- mirrors iroha/src/iroha-db.ts:266-272 -/
def blocksByHeight (heights : List Int) (rows : List (BlockRow Bytes)) : List (Option V) :=
  byNumbers R R.block (fun block => (blockHeight block : Int)) heights (rows.map (parseBlock W))

/-- mirrors iroha/src/iroha-db.ts:274-280 -/
def transactionsByHash (hashes : List String) (rows : List (TransactionRow Bytes)) : List (Option V) :=
  byKeys R R.transaction (fun x => transactionHash W x.protobuf) hashes (rows.map (parseTransaction W none))

/-- mirrors iroha/src/iroha-db.ts:282-288 -/
def accountsById (ids : List String) (rows : List AccountRow) : List (Option V) :=
  byKeys R R.account AccountRow.id ids rows

/-- mirrors iroha/src/iroha-db.ts:290-296 -/
def peersByPublicKey (publicKeys : List String) (rows : List PeerRow) : List (Option V) :=
  byKeys R R.peer PeerRow.publicKey publicKeys rows

/-- mirrors iroha/src/iroha-db.ts:298-304 -/
def rolesByName (names : List String) (rows : List RoleRow) : List (Option V) :=
  byKeys R R.role RoleRow.name names rows

/-- mirrors iroha/src/iroha-db.ts:306-312 -/
def domainsById (ids : List String) (rows : List DomainRow) : List (Option V) :=
  byKeys R R.domain DomainRow.id ids rows

/-! ## The stored row of a key -/

/-- The row whose column is `key`, as a value. -/
def storedRow {Row K : Type} [DecidableEq K] (toJs : Row → V) (column : Row → K) (rows : List Row) (key : K) :
    Option V :=
  (rows.find? fun row => column row = key).map toJs

def storedBlock (height : Int) : Option V :=
  storedRow (fun row => R.block (parseBlock W row)) (fun row => (row.height : Int)) db.block.rows height

def storedTransaction (hash : String) : Option V :=
  storedRow (fun row => R.transaction (parseTransaction W none row)) TransactionRow.hash db.transaction.rows hash

def storedAccount (id : String) : Option V := storedRow R.account AccountRow.id db.account.rows id

def storedPeer (publicKey : String) : Option V := storedRow R.peer PeerRow.publicKey db.peer.rows publicKey

def storedRole (name : String) : Option V := storedRow R.role RoleRow.name db.role.rows name

def storedDomain (id : String) : Option V := storedRow R.domain DomainRow.id db.domain.rows id

/-- The keys of a batch that are not stored find nothing: they name no member
of `Object.prototype`, and as paths lead to nothing from there or from the row
of another key of the batch. -/
def Clean (stored : String → Option V) (keys : List String) : Prop :=
  ∀ key ∈ keys, stored key = none → R.Nothing (fun k => if k ∈ keys then stored k else none) key

/-- The same for one key of the batch. -/
def CleanKey (stored : String → Option V) (keys : List String) (key : String) : Prop :=
  stored key = none → R.Nothing (fun k => if k ∈ keys then stored k else none) key

/-- The columns `height` and `hash` are those of the stored message. -/
structure Stored : Prop where
  height : ∀ row ∈ db.block.rows, blockHeight (parseBlock W row) = row.height
  hash : ∀ row ∈ db.transaction.rows, ∀ i, transactionHash W (parseTransaction W i row).protobuf = row.hash

variable {R} {W} {db}

/-- `applyBlock` writes such columns. -/
theorem stored_applyBlocks {blocks : List Block} (h : applyBlocks W .empty blocks = .ok db) : Stored W db where
  height row hrow := by
    rw [(applyBlocks_log h).1] at hrow
    obtain ⟨block, -, rfl⟩ := List.mem_map.1 hrow
    rw [parseBlock_blockRow]
    rfl
  hash row hrow i := hash_parseTransaction h hrow i

theorem anyOrOne_iff {K : Type} [DecidableEq K] {keys : List K} {column : K} :
    anyOrOne keys column = true ↔ column ∈ keys := by
  unfold anyOrOne
  split <;> simp

section
variable {Row T : Type} {column : Row → String} {item : Row → T} {keyOf : T → String} {toJs : T → V}
  {table rows : List Row} {p : Row → Bool} {keys : List String}

/-- What `keyBy` makes of the answer, in whatever order its rows come. -/
theorem keyBy_answer (huniq : ∀ a ∈ table, ∀ b ∈ table, column a = column b → a = b)
    (hkey : ∀ row ∈ table, keyOf (item row) = column row)
    (hp : ∀ row, p row = true ↔ column row ∈ keys) (hrows : rows.Perm (table.filter p)) (key : String) :
    (keyBy keyOf (rows.map item) key).map toJs =
      if key ∈ keys then storedRow (fun row => toJs (item row)) column table key else none := by
  have hmem : ∀ row, row ∈ rows ↔ row ∈ table ∧ column row ∈ keys := fun row => by
    rw [hrows.mem_iff, List.mem_filter, hp]
  have hitems : ∀ a ∈ rows.map item, ∀ b ∈ rows.map item, keyOf a = keyOf b → a = b := by
    intro a ha b hb hab
    obtain ⟨x, hx, rfl⟩ := List.mem_map.1 ha
    obtain ⟨y, hy, rfl⟩ := List.mem_map.1 hb
    have hxt := ((hmem x).1 hx).1
    have hyt := ((hmem y).1 hy).1
    rw [hkey x hxt, hkey y hyt] at hab
    rw [huniq x hxt y hyt hab]
  have hstored : ∀ row ∈ table, column row = key → column row ∈ keys →
      keyBy keyOf (rows.map item) key = some (item row) := by
    intro row hrow hcol hin
    refine (keyBy_eq_some hitems).2 ⟨List.mem_map_of_mem ((hmem row).2 ⟨hrow, hin⟩), ?_⟩
    rw [hkey row hrow, hcol]
  cases hby : keyBy keyOf (rows.map item) key with
  | some x =>
    obtain ⟨hx, hxkey⟩ := (keyBy_eq_some hitems).1 hby
    obtain ⟨row, hrow, rfl⟩ := List.mem_map.1 hx
    obtain ⟨htable, hin⟩ := (hmem row).1 hrow
    have hcol : column row = key := (hkey row htable).symm.trans hxkey
    have hfind : table.find? (fun row => column row = key) = some row := by
      refine find?_of_unique htable (decide_eq_true hcol) fun y hy hy' => ?_
      exact huniq y hy row htable ((of_decide_eq_true hy').trans hcol.symm)
    rw [if_pos (hcol ▸ hin), storedRow, hfind]
    rfl
  | none =>
    split
    · rename_i hin
      rw [storedRow]
      cases hfind : table.find? (fun row => column row = key) with
      | none => rfl
      | some row =>
        have hcol : column row = key := by simpa using List.find?_some hfind
        rw [hstored row (List.mem_of_find?_eq_some hfind) hcol (hcol ▸ hin)] at hby
        cases hby
    · rfl

/-- A stored key gets its row; a key that is not stored gets null if and only
if it finds nothing else. -/
theorem get_answer_iff (huniq : ∀ a ∈ table, ∀ b ∈ table, column a = column b → a = b)
    (hkey : ∀ row ∈ table, keyOf (item row) = column row)
    (hp : ∀ row, p row = true ↔ column row ∈ keys) (hrows : rows.Perm (table.filter p)) {key : String}
    (hin : key ∈ keys) :
    R.get (fun key => (keyBy keyOf (rows.map item) key).map toJs) key =
        storedRow (fun row => toJs (item row)) column table key ↔
      CleanKey R (storedRow (fun row => toJs (item row)) column table) keys key := by
  have hobject : (fun key => (keyBy keyOf (rows.map item) key).map toJs) =
      fun key => if key ∈ keys then storedRow (fun row => toJs (item row)) column table key else none :=
    funext (keyBy_answer huniq hkey hp hrows)
  rw [hobject, CleanKey]
  have hown : (if key ∈ keys then storedRow (fun row => toJs (item row)) column table key else none) =
      storedRow (fun row => toJs (item row)) column table key := if_pos hin
  cases hstored : storedRow (fun row => toJs (item row)) column table key with
  | some v =>
    refine iff_of_true (Lodash.get_member ?_) (by simp)
    rw [hown, hstored]
  | none =>
    rw [Lodash.get_eq_none_iff (by rw [hown, hstored])]
    simp only [forall_const]

/-- **Each key its own row.** -/
theorem byKeys_eq_iff (huniq : ∀ a ∈ table, ∀ b ∈ table, column a = column b → a = b)
    (hkey : ∀ row ∈ table, keyOf (item row) = column row)
    (hp : ∀ row, p row = true ↔ column row ∈ keys) (hrows : rows.Perm (table.filter p)) :
    byKeys R toJs keyOf keys (rows.map item) =
        keys.map (storedRow (fun row => toJs (item row)) column table) ↔
      Clean R (storedRow (fun row => toJs (item row)) column table) keys := by
  rw [byKeys, List.map_inj_left]
  exact forall₂_congr fun key hin => get_answer_iff huniq hkey hp hrows hin

/-- A number is no path and names nothing inherited. -/
theorem byNumbers_eq {number : Row → Int} {numberOf : T → Int} {heights : List Int}
    (huniq : ∀ a ∈ table, ∀ b ∈ table, number a = number b → a = b)
    (hkey : ∀ row ∈ table, numberOf (item row) = number row)
    (hp : ∀ row, p row = true ↔ number row ∈ heights) (hrows : rows.Perm (table.filter p)) :
    byNumbers R toJs numberOf heights (rows.map item) =
      heights.map (storedRow (fun row => toJs (item row)) number table) := by
  have hinj : ∀ a b : Int, toString a = toString b ↔ a = b := fun a b => Int.repr_inj
  refine List.map_congr_left fun height hin => ?_
  have hanswer : (keyBy (fun x => toString (numberOf x)) (rows.map item) (toString height)).map toJs =
      if toString height ∈ heights.map toString then
        storedRow (fun row => toJs (item row)) (fun row => toString (number row)) table (toString height)
      else none := by
    refine keyBy_answer (fun a ha b hb hab => huniq a ha b hb ((hinj _ _).1 hab))
      (fun row hrow => by rw [hkey row hrow]) (fun row => ?_) hrows (toString height)
    rw [hp, List.mem_map]
    simp
  rw [Lodash.getNumber_eq, hanswer, if_pos (List.mem_map_of_mem hin), storedRow, storedRow]
  simp only [hinj]

end

/-! ## Columns that are UNIQUE -/

theorem unique_hash {a b : TransactionRow Bytes} (ha : a ∈ db.transaction.rows) (hb : b ∈ db.transaction.rows)
    (hab : a.hash = b.hash) : a = b :=
  Table.eq_of_clash ha hb (decide_eq_true (.inr hab)) (decide_eq_true (.inr hab.symm))

theorem unique_height {a b : BlockRow Bytes} (ha : a ∈ db.block.rows) (hb : b ∈ db.block.rows)
    (hab : (a.height : Int) = b.height) : a = b :=
  Table.eq_of_clash ha hb (decide_eq_true (Int.ofNat.inj hab)) (decide_eq_true (Int.ofNat.inj hab).symm)

theorem transactionsByHash_iff (hdb : Stored W db) {hashes : List String} {rows : List (TransactionRow Bytes)}
    (hrows : rows.Perm (selectTransactions db hashes)) :
    transactionsByHash R W hashes rows = hashes.map (storedTransaction R W db) ↔
      Clean R (storedTransaction R W db) hashes :=
  byKeys_eq_iff (fun _ ha _ hb => unique_hash ha hb) (fun row hrow => hdb.hash row hrow none)
    (fun _ => anyOrOne_iff) hrows

/-! ## The six functions -/

/-- `byKeys` on the rows themselves. -/
theorem byKeys_rows_iff {Row : Type} {column : Row → String} {toJs : Row → V} {table rows : List Row}
    {keys : List String} (huniq : ∀ a ∈ table, ∀ b ∈ table, column a = column b → a = b)
    (hrows : rows.Perm (table.filter fun row => anyOrOne keys (column row))) :
    byKeys R toJs column keys rows = keys.map (storedRow toJs column table) ↔
      Clean R (storedRow toJs column table) keys := by
  have hiff : byKeys R toJs column keys (rows.map id) = keys.map (storedRow toJs column table) ↔
      Clean R (storedRow toJs column table) keys := byKeys_eq_iff huniq (fun _ _ => rfl) (fun _ => anyOrOne_iff) hrows
  rwa [List.map_id] at hiff

/-- **Batch loading.** Whatever rows the tables hold and in whatever order
they come back: numbers always get their own block or null; a list of texts
gets its own rows and nulls if and only if those of them that are not stored
find nothing else. -/
theorem batch_loading_iff (R : Runtime V) (W : Wire Bytes) (db : Db Bytes) (hdb : Stored W db) :
    (∀ heights rows, rows.Perm (selectBlocks db heights) →
      blocksByHeight R W heights rows = heights.map (storedBlock R W db)) ∧
    (∀ hashes rows, rows.Perm (selectTransactions db hashes) →
      (transactionsByHash R W hashes rows = hashes.map (storedTransaction R W db) ↔
        Clean R (storedTransaction R W db) hashes)) ∧
    (∀ ids rows, rows.Perm (selectAccounts db ids) →
      (accountsById R ids rows = ids.map (storedAccount R db) ↔ Clean R (storedAccount R db) ids)) ∧
    (∀ publicKeys rows, rows.Perm (selectPeers db publicKeys) →
      (peersByPublicKey R publicKeys rows = publicKeys.map (storedPeer R db) ↔
        Clean R (storedPeer R db) publicKeys)) ∧
    (∀ names rows, rows.Perm (selectRoles db names) →
      (rolesByName R names rows = names.map (storedRole R db) ↔ Clean R (storedRole R db) names)) ∧
    (∀ ids rows, rows.Perm (selectDomains db ids) →
      (domainsById R ids rows = ids.map (storedDomain R db) ↔ Clean R (storedDomain R db) ids)) := by
  refine ⟨fun heights rows hrows => ?_, fun hashes rows hrows => ?_, fun ids rows hrows => ?_,
    fun publicKeys rows hrows => ?_, fun names rows hrows => ?_, fun ids rows hrows => ?_⟩
  · refine byNumbers_eq (fun _ ha _ hb => unique_height ha hb) (fun row hrow => ?_) (fun _ => anyOrOne_iff) hrows
    rw [hdb.height row hrow]
  · exact transactionsByHash_iff hdb hrows
  · refine byKeys_rows_iff (fun a ha b hb hab => ?_) hrows
    exact Table.eq_of_clash ha hb (decide_eq_true (.inr hab)) (decide_eq_true (.inr hab.symm))
  · refine byKeys_rows_iff (fun a ha b hb hab => ?_) hrows
    exact Table.eq_of_clash ha hb (decide_eq_true (.inr (.inr hab))) (decide_eq_true (.inr (.inr hab.symm)))
  · refine byKeys_rows_iff (fun a ha b hb hab => ?_) hrows
    exact Table.eq_of_clash ha hb (decide_eq_true (.inr hab)) (decide_eq_true (.inr hab.symm))
  · refine byKeys_rows_iff (fun a ha b hb hab => ?_) hrows
    exact Table.eq_of_clash ha hb (decide_eq_true (.inr hab)) (decide_eq_true (.inr hab.symm))

/-! ## Keys that find something -/

/-- The values the runs below meet. -/
inductive JsValue where
  | block (block : Block)
  | transaction (transaction : TransactionObject)
  | account (row : AccountRow)
  | peer (row : PeerRow)
  | role (row : RoleRow)
  | domain (row : DomainRow)
  | text (s : String)
  | function (name : String)
  deriving DecidableEq, Repr

/-- The members of `Object.prototype`. -/
def objectPrototype : List String :=
  ["constructor", "__defineGetter__", "__defineSetter__", "hasOwnProperty", "__lookupGetter__",
    "__lookupSetter__", "isPrototypeOf", "propertyIsEnumerable", "toString", "valueOf", "__proto__",
    "toLocaleString"]

/-- A number has no letter in it. -/
theorem digits_toString (n : Int) : ∀ c ∈ (toString n).toList, c.isDigit = true ∨ c = '-' := by
  have hnat : ∀ k : Nat, ∀ c ∈ k.repr.toList, c.isDigit = true := by
    intro k c hc
    rw [Nat.repr, String.toList_ofList] at hc
    exact Nat.isDigit_of_mem_toDigits (by decide) (by decide) hc
  intro c hc
  rw [Int.toString_eq_repr, Int.repr_eq_if] at hc
  split at hc
  · exact .inl (hnat _ c hc)
  · rw [String.toList_append, List.mem_append] at hc
    obtain hc | hc := hc
    · exact .inr (by simpa using hc)
    · exact .inl (hnat _ c hc)

theorem number_not_inherited (n : Int) : toString n ∉ objectPrototype := by
  have hletter : objectPrototype.all (fun key => key.toList.any fun c => !(c.isDigit || c == '-')) = true := by
    decide
  intro h
  obtain ⟨c, hc, hno⟩ := List.any_eq_true.1 (List.all_eq_true.1 hletter _ h)
  have hdigit : (c.isDigit || c == '-') = true := by simpa using digits_toString n c hc
  rw [hdigit] at hno
  cases hno

/-- The members that the keys below ask for. -/
def node : Runtime JsValue where
  member
    | .account row, "id" => some (.text row.id)
    | _, _ => none
  inherited key := if key ∈ objectPrototype then some (.function key) else none
  toPath key := (key.toList.splitOn '.').map String.ofList
  inherited_number n := if_neg (number_not_inherited n)
  block := .block
  transaction := .transaction
  account := .account
  peer := .peer
  role := .role
  domain := .domain

/-- Two accounts, of the domains `b` and `b.id`; the second is not stored. -/
def accountsDb : Db (Block ⊕ Transaction) :=
  { Db.empty with account := ⟨[⟨1, "a@b", 1, ["user"], []⟩], List.pairwise_singleton _ _⟩ }

theorem batch_loading_iff_accounts :
    accountsById node ["c@b", "a@b", "c@b"] accountsDb.account.rows =
      [none, some (.account ⟨1, "a@b", 1, ["user"], []⟩), none] := by
  have hdb : Stored plainWire accountsDb := by
    refine ⟨fun row hrow => ?_, fun row hrow => ?_⟩ <;> cases hrow
  have hclean : Clean node (storedAccount node accountsDb) ["c@b", "a@b", "c@b"] := by
    intro key hkey hnone
    have hother : key = "c@b" := by
      simp only [List.mem_cons, List.not_mem_nil, or_false] at hkey
      obtain rfl | rfl | rfl := hkey
      · rfl
      · cases hnone
      · rfl
    subst hother
    exact Lodash.nothing_of_plain (by decide) (by decide) (by decide)
  obtain ⟨-, -, haccounts, -⟩ := batch_loading_iff node plainWire accountsDb hdb
  refine ((haccounts ["c@b", "a@b", "c@b"] accountsDb.account.rows (by decide)).2 hclean).trans ?_
  decide

/-- `a@b.id` leads into the row of `a@b`, and `constructor` is inherited. -/
theorem batch_loading_fails :
    accountsById node ["a@b", "a@b.id"] (selectAccounts accountsDb ["a@b", "a@b.id"]) =
        [some (.account ⟨1, "a@b", 1, ["user"], []⟩), some (.text "a@b")] ∧
      ["a@b", "a@b.id"].map (storedAccount node accountsDb) =
        [some (.account ⟨1, "a@b", 1, ["user"], []⟩), none] ∧
      accountsById node ["constructor"] (selectAccounts accountsDb ["constructor"]) =
        [some (.function "constructor")] ∧
      ["constructor"].map (storedAccount node accountsDb) = [none] := by
  decide

end Explorer.Iroha.Loader
