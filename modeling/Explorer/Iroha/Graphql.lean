import Explorer.Iroha.Db

/-!
# GraphQL resolvers

The objects the resolvers of `graphql.ts` start from. A `Transaction` object
comes from the protobuf of its block (`Block.transactions`) or from its own row
(`transactionByHash`, `transactionList`); an `Account` is its row, whose JSON
texts the driver has parsed.
-/
namespace Explorer.Iroha

variable {Bytes : Type}

/-! ## Objects -/

/-- `interface Transaction`; only `transactionList` selects `index`.
mirrors iroha/src/iroha-db.ts:38-43 -/
structure TransactionObject where
  index : Option Nat
  protobuf : Transaction
  time : Nat
  blockHeight : Nat
  deriving DecidableEq, Repr

/-- mirrors iroha/src/iroha-db.ts:66-71 -/
def getBlockTransactions (block : Block) : List TransactionObject :=
  block.transactions.map fun protobuf => ⟨none, protobuf, block.createdTime, blockHeight block⟩

/-- mirrors iroha/src/iroha-db.ts:73 -/
def parseBlock (W : Wire Bytes) (row : BlockRow Bytes) : Block :=
  W.block.deserializeBinary row.protobuf

/-- `index` is the selected column, if it is one.
mirrors iroha/src/iroha-db.ts:75-80 -/
def parseTransaction (W : Wire Bytes) (index : Option Nat) (row : TransactionRow Bytes) :
    TransactionObject where
  index := index
  protobuf := W.transaction.deserializeBinary row.protobuf
  time := row.time
  blockHeight := row.blockHeight

/-! ## Resolvers -/

/-- The fields of the GraphQL type `Transaction`. `createdBy` is the id the
account is loaded by. -/
structure GraphqlTransaction where
  hash : String
  time : Nat
  createdBy : String
  blockHeight : Nat
  signatories : List String
  commands : List Command
  deriving DecidableEq, Repr

/-- `commandsJson` is the JSON text of `commands`.
mirrors iroha/src/graphql.ts:21-30 -/
def resolveTransaction (W : Wire Bytes) (transaction : TransactionObject) : GraphqlTransaction where
  hash := transactionHash W transaction.protobuf
  time := transaction.time
  createdBy := transaction.protobuf.payload.creatorAccountId
  blockHeight := transaction.blockHeight
  signatories := transaction.protobuf.signatures
  commands := transaction.protobuf.payload.commands

/-- `account.permissions_granted` as the driver reads it. -/
def permissionsGranted (account : AccountRow) : List PermissionGranted :=
  account.permissionsGranted.filterMap PermissionGranted.parse

/-- mirrors iroha/src/graphql.ts:37 -/
def permissionsGrantedBy (account : AccountRow) : List PermissionGranted :=
  (permissionsGranted account).filter fun x => x.by = some account.id

/-- mirrors iroha/src/graphql.ts:38 -/
def permissionsGrantedTo (account : AccountRow) : List PermissionGranted :=
  (permissionsGranted account).filter fun x => x.to = account.id

end Explorer.Iroha
