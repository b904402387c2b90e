import Explorer.Core.Schema
import Explorer.Iroha.Lists
import Explorer.Iroha.Histogram
import Explorer.Iroha.Loaders

/-!
# The GraphQL schema and its resolvers

`Field` lists the fields of the object types of `graphql.gql`, the fields of
`Query` with their arguments, and `fieldType` how each is declared. `resolve`
is `graphql.ts`; a field it has no resolver for is the property of that name.

Cursors and counts are as in `Lists`. The texts `toISOString` and
`JSON.stringify` make, and the names of permissions by their numbers in the
enums of `iroha-helpers`, are parameters.
-/
namespace Explorer.Iroha.Graphql

open Explorer.Schema

variable {Bytes : Type}

/-! ## Types and fields (iroha/files/graphql.gql) -/

inductive ObjectType where
  | block
  | blockList
  | transaction
  | transactionList
  | account
  | permissionGranted
  | accountList
  | peer
  | peerList
  | role
  | roleList
  | domain
  | domainList
  | countPerDomain
  | query
  deriving DecidableEq, Repr

abbrev FieldType := OutType ObjectType

inductive BlockField where
  | height
  | hash
  | transactionCount
  | time
  | transactions
  | previousBlockHash
  deriving DecidableEq, Repr

def BlockField.type : BlockField → FieldType
  | height => .nonNull .int
  | hash => .nonNull .string
  | transactionCount => .nonNull .int
  | time => .nonNull .string
  | transactions => .nonNullList (.object .transaction)
  | previousBlockHash => .nonNull .string

inductive TransactionField where
  | hash
  | createdBy
  | time
  | blockHeight
  | signatories
  | commandsJson
  deriving DecidableEq, Repr

def TransactionField.type : TransactionField → FieldType
  | hash => .nonNull .string
  | createdBy => .object .account
  | time => .nonNull .string
  | blockHeight => .nonNull .int
  | signatories => .nonNullList .string
  | commandsJson => .nonNull .string

inductive AccountField where
  | id
  | quorum
  | roles
  | permissions
  | permissionsGrantedBy
  | permissionsGrantedTo
  deriving DecidableEq, Repr

def AccountField.type : AccountField → FieldType
  | id => .nonNull .string
  | quorum => .nonNull .int
  | roles => .nonNullList (.object .role)
  | permissions => .nonNullList .string
  | permissionsGrantedBy => .nonNullList (.object .permissionGranted)
  | permissionsGrantedTo => .nonNullList (.object .permissionGranted)

inductive PermissionGrantedField where
  | «by»
  | «to»
  | permission
  deriving DecidableEq, Repr

def PermissionGrantedField.type (_ : PermissionGrantedField) : FieldType := .nonNull .string

inductive PeerField where
  | address
  | publicKey
  deriving DecidableEq, Repr

def PeerField.type (_ : PeerField) : FieldType := .nonNull .string

inductive RoleField where
  | name
  | permissions
  deriving DecidableEq, Repr

def RoleField.type : RoleField → FieldType
  | name => .nonNull .string
  | permissions => .nonNullList .string

inductive DomainField where
  | id
  | defaultRole
  deriving DecidableEq, Repr

def DomainField.type : DomainField → FieldType
  | id => .nonNull .string
  | defaultRole => .nonNull (.object .role)

/-- The fields of the six paginated lists. -/
inductive ListField where
  | items
  | nextAfter
  deriving DecidableEq, Repr

def ListField.type (item : ObjectType) : ListField → FieldType
  | items => .nonNullList (.object item)
  | nextAfter => .nonNull .int

inductive CountPerDomainField where
  | domain
  | count
  deriving DecidableEq, Repr

def CountPerDomainField.type : CountPerDomainField → FieldType
  | domain => .nonNull .string
  | count => .nonNull .int

inductive QueryField where
  | blockCount
  | transactionCount
  | accountCount
  | peerCount
  | roleCount
  | domainCount
  | blockByHeight (height : Int)
  | transactionByHash (hash : String)
  | accountById (id : String)
  | peerByPublicKey (publicKey : String)
  | roleByName (name : String)
  | domainById (id : String)
  | blockList (after : Option Nat) (count : Nat) (reverse : Bool) (timeAfter timeBefore : Option Nat)
  | transactionList (after : Option Nat) (count : Nat) (timeAfter timeBefore : Option Nat)
      (creatorId : Option String)
  | accountList (after : Option Nat) (count : Nat) (id : Option String)
  | peerList (after : Option Nat) (count : Nat)
  | roleList (after : Option Nat) (count : Nat)
  | domainList (after : Option Nat) (count : Nat)
  | transactionCountPerMinute (count : Nat)
  | transactionCountPerHour (count : Nat)
  | blockCountPerMinute (count : Nat)
  | blockCountPerHour (count : Nat)
  | transactionCountPerDomain
  deriving DecidableEq, Repr

def QueryField.type : QueryField → FieldType
  | blockCount | transactionCount | accountCount | peerCount | roleCount | domainCount => .nonNull .int
  | blockByHeight .. => .object .block
  | transactionByHash .. => .object .transaction
  | accountById .. => .object .account
  | peerByPublicKey .. => .object .peer
  | roleByName .. => .object .role
  | domainById .. => .object .domain
  | blockList .. => .nonNull (.object .blockList)
  | transactionList .. => .nonNull (.object .transactionList)
  | accountList .. => .nonNull (.object .accountList)
  | peerList .. => .nonNull (.object .peerList)
  | roleList .. => .nonNull (.object .roleList)
  | domainList .. => .nonNull (.object .domainList)
  | transactionCountPerMinute .. | transactionCountPerHour .. | blockCountPerMinute ..
  | blockCountPerHour .. => .nonNullList .int
  | transactionCountPerDomain => .nonNullList (.object .countPerDomain)

def Field : ObjectType → Type
  | .block => BlockField
  | .transaction => TransactionField
  | .account => AccountField
  | .permissionGranted => PermissionGrantedField
  | .peer => PeerField
  | .role => RoleField
  | .domain => DomainField
  | .blockList | .transactionList | .accountList | .peerList | .roleList | .domainList => ListField
  | .countPerDomain => CountPerDomainField
  | .query => QueryField

def fieldType : (type : ObjectType) → Field type → FieldType
  | .block => BlockField.type
  | .transaction => TransactionField.type
  | .account => AccountField.type
  | .permissionGranted => PermissionGrantedField.type
  | .peer => PeerField.type
  | .role => RoleField.type
  | .domain => DomainField.type
  | .blockList => ListField.type .block
  | .transactionList => ListField.type .transaction
  | .accountList => ListField.type .account
  | .peerList => ListField.type .peer
  | .roleList => ListField.type .role
  | .domainList => ListField.type .domain
  | .countPerDomain => CountPerDomainField.type
  | .query => QueryField.type

/-! ## Objects -/

/-- What resolvers are called with. -/
inductive Object where
  | query
  | block (block : Block)
  | transaction (transaction : TransactionObject)
  | account (account : AccountRow)
  | permissionGranted (permissionGranted : PermissionGranted)
  | peer (peer : Peer)
  | role (role : Role)
  | domain (domain : Domain)
  | blockList (list : PagedList Block)
  | transactionList (list : PagedList TransactionObject)
  | accountList (list : PagedList AccountRow)
  | peerList (list : PagedList Peer)
  | roleList (list : PagedList Role)
  | domainList (list : PagedList Domain)
  | countPerDomain (domain : Option String) (count : Nat)

def Object.type : Object → ObjectType
  | .query => .query
  | .block _ => .block
  | .transaction _ => .transaction
  | .account _ => .account
  | .permissionGranted _ => .permissionGranted
  | .peer _ => .peer
  | .role _ => .role
  | .domain _ => .domain
  | .blockList _ => .blockList
  | .transactionList _ => .transactionList
  | .accountList _ => .accountList
  | .peerList _ => .peerList
  | .roleList _ => .roleList
  | .domainList _ => .domainList
  | .countPerDomain _ _ => .countPerDomain

abbrev Js := Value Object

/-- What the resolvers use besides the database. -/
structure Server (Bytes : Type) where
  wire : Wire Bytes
  lodash : Lodash Js
  rolePermissionName : Nat → Option String
  grantablePermissionName : Nat → Option String
  lower : List Char → List Char
  toISOString : Nat → String
  stringify : List Command → String

/-- What one call of a resolver finds: the clock, and for each loader the
other keys that come into the same batch. -/
structure Call where
  now : Int
  blocks : List Int
  transactions : List String
  accounts : List String
  peers : List String
  roles : List String
  domains : List String

/-! ## Loaders -/

variable (S : Server Bytes) (db : Db Bytes) (call : Call)

/-- Rows and messages as the objects above. -/
def runtime : Loader.Runtime Js where
  toLodash := S.lodash
  block block := .object (.block block)
  transaction transaction := .object (.transaction transaction)
  account row := .object (.account row)
  peer row := .object (.peer (peerFields row))
  role row := .object (.role (roleFields row))
  domain row := .object (.domain (domainFields row))

/-- One key of a batch. -/
def load {K : Type} (batch : List K → List (Option Js)) (others : List K) (key : K) : Js :=
  .ofOption (batch (key :: others)).head?.join

/-- All keys come into one batch. -/
def loadMany {K : Type} (batch : List K → List (Option Js)) (others keys : List K) : List Js :=
  keys.map (load batch (keys ++ others))

def blockLoader (heights : List Int) : List (Option Js) :=
  Loader.blocksByHeight (runtime S) S.wire heights (Loader.selectBlocks db heights)

def transactionLoader (hashes : List String) : List (Option Js) :=
  Loader.transactionsByHash (runtime S) S.wire hashes (Loader.selectTransactions db hashes)

def accountLoader (ids : List String) : List (Option Js) :=
  Loader.accountsById (runtime S) ids (Loader.selectAccounts db ids)

def peerLoader (publicKeys : List String) : List (Option Js) :=
  Loader.peersByPublicKey (runtime S) publicKeys (Loader.selectPeers db publicKeys)

def roleLoader (names : List String) : List (Option Js) :=
  Loader.rolesByName (runtime S) names (Loader.selectRoles db names)

def domainLoader (ids : List String) : List (Option Js) :=
  Loader.domainsById (runtime S) ids (Loader.selectDomains db ids)

/-! ## Resolvers (iroha/src/graphql.ts) -/

def objects {A : Type} (toObject : A → Object) (as : List A) : Js := .list (as.map fun a => .object (toObject a))

def numbers (ns : List Nat) : Js := .list (ns.map fun n : Nat => .int n)

def texts (ss : List String) : Js := .list (ss.map .text)

/-- mirrors iroha/src/graphql.ts:13-20 -/
def resolveBlock (block : Block) : BlockField → Js
  | .height => .int (blockHeight block)
  | .hash => .text (blockHash S.wire block)
  | .transactionCount => .int block.transactions.length
  | .time => .text (S.toISOString block.createdTime)
  | .transactions => objects .transaction (getBlockTransactions block)
  | .previousBlockHash => .text block.prevBlockHash

/-- `creatorId && accountLoader.load(creatorId)` is the empty text for an
empty `creatorId`.
mirrors iroha/src/graphql.ts:21-30 -/
def resolveTransactionField (transaction : TransactionObject) : TransactionField → Js
  | .hash => .text (transactionHash S.wire transaction.protobuf)
  | .createdBy =>
    let creatorId := transaction.protobuf.payload.creatorAccountId
    if creatorId = "" then .text creatorId else load (accountLoader S db) call.accounts creatorId
  | .time => .text (S.toISOString transaction.time)
  | .blockHeight => .int transaction.blockHeight
  | .signatories => texts transaction.protobuf.signatures
  | .commandsJson => .text (S.stringify transaction.protobuf.payload.commands)

/-- `prop('permissions')`, as `flatMap` takes it: without such a property, one
`undefined`. -/
def propPermissions : Js → List (Option Nat)
  | .object (.role role) => role.permissions.map some
  | _ => [none]

/-- mirrors iroha/src/graphql.ts:31-39 -/
def resolveAccount (account : AccountRow) : AccountField → Js
  | .id => .text account.id
  | .quorum => .int account.quorum
  | .roles => .list (loadMany (roleLoader S db) call.roles account.roles)
  | .permissions =>
    .list ((((loadMany (roleLoader S db) call.roles account.roles).flatMap propPermissions).eraseDups).map
      fun permission => .ofText (permission.bind S.rolePermissionName))
  | .permissionsGrantedBy => objects .permissionGranted (permissionsGrantedBy account)
  | .permissionsGrantedTo => objects .permissionGranted (permissionsGrantedTo account)

/-- mirrors iroha/src/graphql.ts:40-42 -/
def resolvePermissionGranted (p : PermissionGranted) : PermissionGrantedField → Js
  | .by => .ofText p.by
  | .to => .text p.to
  | .permission => .ofText (S.grantablePermissionName p.permission)

/-- mirrors iroha/src/graphql.ts:43-45 -/
def resolvePeer (peer : Peer) : PeerField → Js
  | .address => .text peer.address
  | .publicKey => .text peer.publicKey

/-- mirrors iroha/src/graphql.ts:46-48 -/
def resolveRole (role : Role) : RoleField → Js
  | .name => .text role.name
  | .permissions => .list (role.permissions.map fun permission => .ofText (S.rolePermissionName permission))

/-- mirrors iroha/src/graphql.ts:49-51 -/
def resolveDomain (domain : Domain) : DomainField → Js
  | .id => .text domain.id
  | .defaultRole => load (roleLoader S db) call.roles domain.defaultRole

def resolveList {A : Type} (toObject : A → Object) (list : PagedList A) : ListField → Js
  | .items => objects toObject list.items
  | .nextAfter => .int list.nextAfter

def resolveCountPerDomain (domain : Option String) (count : Nat) : CountPerDomainField → Js
  | .domain => .ofText domain
  | .count => .int count

/-- `GROUP BY creator_domain`; the rows without one are a group too.
mirrors iroha/src/iroha-db.ts:416-421 -/
def transactionCountPerDomain : List (Option String × Nat) :=
  (db.transaction.rows.map TransactionRow.creatorDomain).dedup.map fun domain =>
    (domain, (db.transaction.rows.filter fun row => row.creatorDomain = domain).length)

/-- mirrors iroha/src/graphql.ts:52-80 -/
def resolveQuery : QueryField → Js
  | .blockCount => .int db.blockCount
  | .transactionCount => .int db.transactionCount
  | .accountCount => .int db.accountCount
  | .peerCount => .int db.peerCount
  | .roleCount => .int db.roleCount
  | .domainCount => .int db.domainCount
  | .blockByHeight height => load (blockLoader S db) call.blocks height
  | .transactionByHash hash => load (transactionLoader S db) call.transactions hash
  | .accountById id => load (accountLoader S db) call.accounts id
  | .peerByPublicKey publicKey => load (peerLoader S db) call.peers publicKey
  | .roleByName name => load (roleLoader S db) call.roles name
  | .domainById id => load (domainLoader S db) call.domains id
  | .blockList after count reverse timeAfter timeBefore =>
    .object (.blockList (blockList S.wire db timeAfter timeBefore reverse after count))
  | .transactionList after count timeAfter timeBefore creatorId =>
    .object (.transactionList (transactionList S.wire db timeAfter timeBefore creatorId after count))
  | .accountList after count id => .object (.accountList (accountList S.lower db id after count))
  | .peerList after count => .object (.peerList (peerList db after count))
  | .roleList after count => .object (.roleList (roleList db after count))
  | .domainList after count => .object (.domainList (domainList db after count))
  | .transactionCountPerMinute count => numbers (transactionCountPerMinute count call.now db)
  | .transactionCountPerHour count => numbers (transactionCountPerHour count call.now db)
  | .blockCountPerMinute count => numbers (blockCountPerMinute count call.now db)
  | .blockCountPerHour count => numbers (blockCountPerHour count call.now db)
  | .transactionCountPerDomain =>
    objects (fun group => .countPerDomain group.1 group.2) (transactionCountPerDomain db)

def resolve : (o : Object) → Field o.type → Js
  | .query => resolveQuery S db call
  | .block block => resolveBlock S block
  | .transaction transaction => resolveTransactionField S db call transaction
  | .account account => resolveAccount S db call account
  | .permissionGranted p => resolvePermissionGranted S p
  | .peer peer => resolvePeer peer
  | .role role => resolveRole S role
  | .domain domain => resolveDomain S db call domain
  | .blockList list => resolveList .block list
  | .transactionList list => resolveList .transaction list
  | .accountList list => resolveList .account list
  | .peerList list => resolveList .peer list
  | .roleList list => resolveList .role list
  | .domainList list => resolveList .domain list
  | .countPerDomain domain count => resolveCountPerDomain domain count

end Explorer.Iroha.Graphql
