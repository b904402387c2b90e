import Explorer.Iroha.References
import Explorer.Iroha.Resolvers

/-!
# Answers that fit the schema

A request starts at `Query` and asks the objects it is answered with in turn.
Every answer fits its declared type if and only if every transaction of the
chain has a creator with a domain (`answers_fit_iff`). A transaction without
one makes `transactionCountPerDomain` answer a null domain; if it has no
creator at all, `createdBy` is an empty text, and the permissions it granted
have a null `by`.

`createdBy`, `roles`, `permissions` and `defaultRole` look up keys that are
stored; the fields of `Query` that look up a key take any. What a key finds
that is not stored and not clean is the subject of `Loader.batch_loading_iff`.

* `load_row`, `load_block`: what a loader answers for one key.
* `Genuine`: the objects that the answers of an accepted chain contain.
* `fits_resolve`: one answer; `genuine_of_met`: a whole request.
* `met_stored`: requests meet everything that is stored.
-/
namespace Explorer.Iroha.Graphql

open Explorer.Schema

variable {Bytes : Type}

/-! ## Requests -/

/-- The key that a field of `Query` looks up is clean. -/
def CleanLookup (S : Server Bytes) (db : Db Bytes) (call : Call) : QueryField → Prop
  | .transactionByHash hash =>
    Loader.CleanKey (runtime S) (Loader.storedTransaction (runtime S) S.wire db) (hash :: call.transactions) hash
  | .accountById id => Loader.CleanKey (runtime S) (Loader.storedAccount (runtime S) db) (id :: call.accounts) id
  | .peerByPublicKey publicKey =>
    Loader.CleanKey (runtime S) (Loader.storedPeer (runtime S) db) (publicKey :: call.peers) publicKey
  | .roleByName name => Loader.CleanKey (runtime S) (Loader.storedRole (runtime S) db) (name :: call.roles) name
  | .domainById id => Loader.CleanKey (runtime S) (Loader.storedDomain (runtime S) db) (id :: call.domains) id
  | _ => True

def Clean (S : Server Bytes) (db : Db Bytes) (call : Call) : (o : Object) → Field o.type → Prop
  | .query => CleanLookup S db call
  | _ => fun _ => True

/-- A field of `o`, declared `type`, is answered with `value`. -/
def Answers (S : Server Bytes) (db : Db Bytes) (o : Object) (type : FieldType) (value : Js) : Prop :=
  ∃ (field : Field o.type) (call : Call), Clean S db call o field ∧ fieldType o.type field = type ∧
    resolve S db call o field = value

/-- Every answer of every request has its declared type, and `createdBy` is
null exactly for a transaction without creator, else the creator's account. -/
structure AnswersFit (S : Server Bytes) (db : Db Bytes) : Prop where
  fits : ∀ o type value, Met (Answers S db) .query o → Answers S db o type value →
    Fits Object.type (fun _ => True) type value
  createdBy : ∀ transaction call, Met (Answers S db) .query (.transaction transaction) →
    (resolveTransactionField S db call transaction .createdBy = .null ↔
      creatorIdOf transaction.protobuf = none) ∧
    ∀ id, creatorIdOf transaction.protobuf = some id → ∃ row ∈ db.account.rows, row.id = id ∧
      resolveTransactionField S db call transaction .createdBy = .object (.account row)

/-- The numbers of a command are those of permissions. -/
def PermissionsNamed (S : Server Bytes) : Command → Prop
  | .createRole _ permissions => ∀ p ∈ permissions, (S.rolePermissionName p).isSome = true
  | .grantPermission _ permission | .revokePermission _ permission =>
    (S.grantablePermissionName permission).isSome = true
  | _ => True

/-- The database of a chain that Iroha accepts. -/
structure Accepted (S : Server Bytes) (blocks : List Block) (db : Db Bytes) : Prop where
  applied : applyBlocks S.wire .empty blocks = .ok db
  referenced : Referenced blocks
  named : ∀ x ∈ chainCommands blocks, PermissionsNamed S x.command

/-- A transaction's creator is an account of a domain. -/
def HasDomain (transaction : Transaction) : Prop :=
  (accountDomain transaction.payload.creatorAccountId).isSome = true

theorem creatorIdOf_of_hasDomain {transaction : Transaction} (h : HasDomain transaction) :
    creatorIdOf transaction = some transaction.payload.creatorAccountId := by
  refine if_neg fun hempty => ?_
  unfold HasDomain at h
  rw [hempty] at h
  exact absurd h (by decide)

/-! ## Loaders -/

section
variable {S : Server Bytes} {db : Db Bytes}

theorem storedRow_of_mem {Row V : Type} (toJs : Row → V) {column : Row → String} {table : List Row} {row : Row}
    (huniq : ∀ a ∈ table, ∀ b ∈ table, column a = column b → a = b) (hrow : row ∈ table) :
    Loader.storedRow toJs column table (column row) = some (toJs row) := by
  have hfind : table.find? (fun r => column r = column row) = some row :=
    find?_of_unique hrow (by simp) fun r hr hcol => huniq r hr row hrow (of_decide_eq_true hcol)
  rw [Loader.storedRow, hfind]
  rfl

section
variable {Row : Type} {column : Row → String} {table : List Row} {others : List String} {key : String}

/-- **One key of a batch**: its row or null, if it is clean. -/
theorem load_item {T : Type} {toJs : T → Js} {keyOf : T → String} {item : Row → T}
    (huniq : ∀ a ∈ table, ∀ b ∈ table, column a = column b → a = b)
    (hkey : ∀ row ∈ table, keyOf (item row) = column row)
    (hclean : Loader.CleanKey (runtime S) (Loader.storedRow (fun row => toJs (item row)) column table)
      (key :: others) key) :
    load (fun keys => Loader.byKeys (runtime S) toJs keyOf keys
      ((table.filter fun row => Loader.anyOrOne keys (column row)).map item)) others key =
      .ofOption (Loader.storedRow (fun row => toJs (item row)) column table key) :=
  congrArg Value.ofOption ((Loader.get_answer_iff huniq hkey (fun _ => Loader.anyOrOne_iff) (List.Perm.refl _)
    List.mem_cons_self).2 hclean)

theorem load_row {toJs : Row → Js} (huniq : ∀ a ∈ table, ∀ b ∈ table, column a = column b → a = b)
    (hclean : Loader.CleanKey (runtime S) (Loader.storedRow toJs column table) (key :: others) key) :
    load (fun keys => Loader.byKeys (runtime S) toJs column keys
      (table.filter fun row => Loader.anyOrOne keys (column row))) others key =
      .ofOption (Loader.storedRow toJs column table key) := by
  have hitem : load (fun keys => Loader.byKeys (runtime S) toJs column keys
      ((table.filter fun row => Loader.anyOrOne keys (column row)).map id)) others key =
      .ofOption (Loader.storedRow toJs column table key) := load_item huniq (fun _ _ => rfl) hclean
  simpa only [List.map_id] using hitem

/-- A stored key is always clean. -/
theorem load_stored {toJs : Row → Js}
    (huniq : ∀ a ∈ table, ∀ b ∈ table, column a = column b → a = b) {row : Row}
    (hrow : row ∈ table) :
    load (fun keys => Loader.byKeys (runtime S) toJs column keys
      (table.filter fun row => Loader.anyOrOne keys (column row))) others (column row) = toJs row := by
  have hsome := storedRow_of_mem toJs huniq hrow
  rw [load_row huniq fun hnone => (nomatch hsome.symm.trans hnone), hsome]
  rfl

theorem exists_of_storedRow {V : Type} {toJs : Row → V} {v : V}
    (h : Loader.storedRow toJs column table key = some v) : ∃ row ∈ table, v = toJs row := by
  obtain ⟨row, hrow, rfl⟩ := Option.map_eq_some_iff.1 h
  exact ⟨row, List.mem_of_find?_eq_some hrow, rfl⟩

end

theorem unique_accountId {a b : AccountRow} (ha : a ∈ db.account.rows) (hb : b ∈ db.account.rows)
    (hab : a.id = b.id) : a = b :=
  Table.eq_of_clash ha hb (decide_eq_true (.inr hab)) (decide_eq_true (.inr hab.symm))

theorem unique_publicKey {a b : PeerRow} (ha : a ∈ db.peer.rows) (hb : b ∈ db.peer.rows)
    (hab : a.publicKey = b.publicKey) : a = b :=
  Table.eq_of_clash ha hb (decide_eq_true (.inr (.inr hab))) (decide_eq_true (.inr (.inr hab.symm)))

theorem unique_roleName {a b : RoleRow} (ha : a ∈ db.role.rows) (hb : b ∈ db.role.rows)
    (hab : a.name = b.name) : a = b :=
  Table.eq_of_clash ha hb (decide_eq_true (.inr hab)) (decide_eq_true (.inr hab.symm))

theorem unique_domainId {a b : DomainRow} (ha : a ∈ db.domain.rows) (hb : b ∈ db.domain.rows)
    (hab : a.id = b.id) : a = b :=
  Table.eq_of_clash ha hb (decide_eq_true (.inr hab)) (decide_eq_true (.inr hab.symm))

theorem load_account {others : List String} {row : AccountRow} (hrow : row ∈ db.account.rows) :
    load (accountLoader S db) others row.id = .object (.account row) :=
  load_stored (fun _ ha _ hb => unique_accountId ha hb) hrow

theorem load_role {others : List String} {row : RoleRow} (hrow : row ∈ db.role.rows) :
    load (roleLoader S db) others row.name = .object (.role (roleFields row)) :=
  load_stored (fun _ ha _ hb => unique_roleName ha hb) hrow

end

/-! ## The objects of an accepted chain -/

/-- What the answers contain, when every creator has a domain. -/
def Genuine (S : Server Bytes) (blocks : List Block) (db : Db Bytes) : Object → Prop
  | .query => True
  | .block block => block ∈ blocks
  | .transaction transaction => ∃ x ∈ chainTransactions blocks, transaction.protobuf = x.2
  | .account account => account ∈ db.account.rows
  | .permissionGranted p => p.by.isSome = true ∧ (S.grantablePermissionName p.permission).isSome = true
  | .peer _ => True
  | .role role => ∀ p ∈ role.permissions, (S.rolePermissionName p).isSome = true
  | .domain domain => ∃ row ∈ db.role.rows, row.name = domain.defaultRole
  | .blockList list => ∀ block ∈ list.items, block ∈ blocks
  | .transactionList list => ∀ transaction ∈ list.items, ∃ x ∈ chainTransactions blocks, transaction.protobuf = x.2
  | .accountList list => ∀ account ∈ list.items, account ∈ db.account.rows
  | .peerList _ => True
  | .roleList list => ∀ role ∈ list.items, ∀ p ∈ role.permissions, (S.rolePermissionName p).isSome = true
  | .domainList list => ∀ domain ∈ list.items, ∃ row ∈ db.role.rows, row.name = domain.defaultRole
  | .countPerDomain domain _ => domain.isSome = true

theorem fits_objects {A : Type} {P : Object → Prop} {type : ObjectType} {toObject : A → Object} {as : List A}
    (h : ∀ a ∈ as, (toObject a).type = type ∧ P (toObject a)) :
    Fits Object.type P (.nonNullList (.object type)) (objects toObject as) :=
  fits_map fun a ha => fits_object (h a ha).1 (h a ha).2

theorem fits_texts {P : Object → Prop} (ss : List String) : Fits Object.type P (.nonNullList .string) (texts ss) :=
  fits_map fun s _ => fits_text s

theorem fits_numbers {P : Object → Prop} (ns : List Nat) : Fits Object.type P (.nonNullList .int) (numbers ns) :=
  fits_map fun n _ => fits_int n

section
variable {S : Server Bytes} {blocks : List Block} {db : Db Bytes}

theorem fits_resolveBlock {block : Block} (hblock : block ∈ blocks) (f : BlockField) :
    Fits Object.type (Genuine S blocks db) f.type (resolveBlock S block f) := by
  cases f with
  | height => exact fits_int _
  | hash => exact fits_text _
  | transactionCount => exact fits_int _
  | time => exact fits_text _
  | previousBlockHash => exact fits_text _
  | transactions =>
    refine fits_objects fun transaction htx => ⟨rfl, ?_⟩
    obtain ⟨protobuf, hprotobuf, rfl⟩ := List.mem_map.1 htx
    exact ⟨(block, protobuf), mem_chainTransactions.2 ⟨hblock, hprotobuf⟩, rfl⟩

/-- The creator's account. -/
theorem resolve_createdBy (h : Accepted S blocks db) {transaction : TransactionObject} {x : Block × Transaction}
    (hx : x ∈ chainTransactions blocks) (htx : transaction.protobuf = x.2) {id : String}
    (hid : creatorIdOf x.2 = some id) (call : Call) :
    ∃ row ∈ db.account.rows, row.id = id ∧
      resolveTransactionField S db call transaction .createdBy = .object (.account row) := by
  obtain ⟨row, hrow, rfl⟩ := creator_stored h.applied h.referenced hx hid
  refine ⟨row, hrow, rfl, ?_⟩
  unfold creatorIdOf at hid
  split at hid
  · cases hid
  · rename_i hne
    rw [Option.some.injEq] at hid
    simp only [resolveTransactionField, htx, if_neg hne]
    rw [hid]
    exact load_account hrow

theorem fits_resolveTransaction (h : Accepted S blocks db)
    (hdomains : ∀ x ∈ chainTransactions blocks, HasDomain x.2) {transaction : TransactionObject}
    {x : Block × Transaction} (hx : x ∈ chainTransactions blocks) (htx : transaction.protobuf = x.2) (call : Call)
    (f : TransactionField) :
    Fits Object.type (Genuine S blocks db) f.type (resolveTransactionField S db call transaction f) := by
  cases f with
  | hash => exact fits_text _
  | time => exact fits_text _
  | blockHeight => exact fits_int _
  | signatories => exact fits_texts _
  | commandsJson => exact fits_text _
  | createdBy =>
    obtain ⟨row, hrow, -, heq⟩ := resolve_createdBy h hx htx (creatorIdOf_of_hasDomain (hdomains x hx)) call
    rw [heq]
    exact ⟨rfl, hrow⟩

/-- The numbers of a stored role have names. -/
theorem named_of_role (h : Accepted S blocks db) {row : RoleRow} (hrow : row ∈ db.role.rows) :
    ∀ p ∈ row.permissions, (S.rolePermissionName p).isSome = true := by
  obtain ⟨x, hx, hcmd⟩ := exists_createRole h.applied hrow
  have hnamed := h.named x hx
  rw [hcmd] at hnamed
  exact hnamed

theorem loadMany_roles (h : Accepted S blocks db) {account : AccountRow} (haccount : account ∈ db.account.rows)
    (call : Call) :
    ∀ value ∈ loadMany (roleLoader S db) call.roles account.roles,
      ∃ row ∈ db.role.rows, value = .object (.role (roleFields row)) := by
  intro value hvalue
  obtain ⟨name, hname, rfl⟩ := List.mem_map.1 hvalue
  obtain ⟨row, hrow, rfl⟩ := roles_stored h.applied h.referenced haccount hname
  exact ⟨row, hrow, load_role hrow⟩

/-- A permission of an account has a granter and a name. -/
theorem genuine_permissionGranted (h : Accepted S blocks db)
    (hdomains : ∀ x ∈ chainTransactions blocks, HasDomain x.2) {account : AccountRow}
    (haccount : account ∈ db.account.rows) {p : PermissionGranted} (hp : p ∈ permissionsGranted account) :
    Genuine S blocks db (.permissionGranted p) := by
  obtain ⟨x, hx, hby, hcommand⟩ := mem_permissionsGranted h.applied haccount hp
  constructor
  · rw [hby, creatorIdOf_of_hasDomain (hdomains x hx)]
    rfl
  · have hissued : ⟨creatorIdOf x.2, .grantPermission p.to p.permission⟩ ∈ chainCommands blocks := by
      rw [chainCommands_eq]
      exact List.mem_flatMap.2 ⟨x, hx, List.mem_map.2 ⟨_, hcommand, rfl⟩⟩
    exact h.named _ hissued

theorem fits_resolveAccount (h : Accepted S blocks db)
    (hdomains : ∀ x ∈ chainTransactions blocks, HasDomain x.2) {account : AccountRow}
    (haccount : account ∈ db.account.rows) (call : Call) (f : AccountField) :
    Fits Object.type (Genuine S blocks db) f.type (resolveAccount S db call account f) := by
  cases f with
  | id => exact fits_text _
  | quorum => exact fits_int _
  | roles =>
    intro value hvalue
    obtain ⟨row, hrow, rfl⟩ := loadMany_roles h haccount call value hvalue
    exact ⟨rfl, named_of_role h hrow⟩
  | permissions =>
    refine fits_map fun permission hpermission => ?_
    rw [List.mem_eraseDups] at hpermission
    obtain ⟨value, hvalue, hprop⟩ := List.mem_flatMap.1 hpermission
    obtain ⟨row, hrow, rfl⟩ := loadMany_roles h haccount call value hvalue
    obtain ⟨p, hp, rfl⟩ := List.mem_map.1 hprop
    exact fits_ofText (named_of_role h hrow p hp)
  | permissionsGrantedBy =>
    exact fits_objects fun p hp => ⟨rfl, genuine_permissionGranted h hdomains haccount (List.mem_of_mem_filter hp)⟩
  | permissionsGrantedTo =>
    exact fits_objects fun p hp => ⟨rfl, genuine_permissionGranted h hdomains haccount (List.mem_of_mem_filter hp)⟩

theorem fits_resolvePermissionGranted {p : PermissionGranted} (hp : Genuine S blocks db (.permissionGranted p))
    (f : PermissionGrantedField) :
    Fits Object.type (Genuine S blocks db) f.type (resolvePermissionGranted S p f) := by
  cases f with
  | «by» => exact fits_ofText hp.1
  | «to» => exact fits_text _
  | permission => exact fits_ofText hp.2

theorem fits_resolveRole {role : Role} (hrole : ∀ p ∈ role.permissions, (S.rolePermissionName p).isSome = true)
    (f : RoleField) : Fits Object.type (Genuine S blocks db) f.type (resolveRole S role f) := by
  cases f with
  | name => exact fits_text _
  | permissions => exact fits_map fun p hp => fits_ofText (hrole p hp)

theorem fits_resolveDomain (h : Accepted S blocks db) {domain : Domain}
    (hdomain : ∃ row ∈ db.role.rows, row.name = domain.defaultRole) (call : Call) (f : DomainField) :
    Fits Object.type (Genuine S blocks db) f.type (resolveDomain S db call domain f) := by
  cases f with
  | id => exact fits_text _
  | defaultRole =>
    obtain ⟨row, hrow, hname⟩ := hdomain
    have hload : load (roleLoader S db) call.roles domain.defaultRole = .object (.role (roleFields row)) :=
      hname ▸ load_role hrow
    rw [resolveDomain, hload]
    exact ⟨rfl, named_of_role h hrow⟩

theorem fits_resolveList {A : Type} (toObject : A → Object) {item : ObjectType} {list : PagedList A}
    (htype : ∀ a, (toObject a).type = item) (h : ∀ a ∈ list.items, Genuine S blocks db (toObject a))
    (f : ListField) : Fits Object.type (Genuine S blocks db) (f.type item) (resolveList toObject list f) := by
  cases f with
  | items => exact fits_objects fun a hin => ⟨htype a, h a hin⟩
  | nextAfter => exact fits_int _

/-- Every group has a domain. -/
theorem domain_of_group (h : Accepted S blocks db) (hdomains : ∀ x ∈ chainTransactions blocks, HasDomain x.2)
    {group : Option String × Nat} (hgroup : group ∈ transactionCountPerDomain db) : group.1.isSome = true := by
  obtain ⟨domain, hdomain, rfl⟩ := List.mem_map.1 hgroup
  rw [List.mem_dedup] at hdomain
  obtain ⟨row, hrow, rfl⟩ := List.mem_map.1 hdomain
  obtain ⟨block, hblock, transaction, htx, heq⟩ := exists_transactionRow h.applied hrow
  have hhas := hdomains (block, transaction) (mem_chainTransactions.2 ⟨hblock, htx⟩)
  have hcolumn : row.creatorDomain = (creatorIdOf transaction).bind accountDomain := by rw [heq]; rfl
  rw [hcolumn, creatorIdOf_of_hasDomain hhas]
  exact hhas

/-! ## The fields of `Query` -/

theorem mem_parseBlock (h : Accepted S blocks db) {row : BlockRow Bytes} (hrow : row ∈ db.block.rows) :
    parseBlock S.wire row ∈ blocks := by
  rw [(applyBlocks_log h.applied).1] at hrow
  obtain ⟨block, hblock, rfl⟩ := List.mem_map.1 hrow
  rw [parseBlock_blockRow]
  exact hblock

theorem mem_parseTransaction (h : Accepted S blocks db) {row : TransactionRow Bytes}
    (hrow : row ∈ db.transaction.rows) (i : Option Nat) :
    ∃ x ∈ chainTransactions blocks, (parseTransaction S.wire i row).protobuf = x.2 := by
  obtain ⟨block, hblock, transaction, htx, heq⟩ := exists_transactionRow h.applied hrow
  refine ⟨(block, transaction), mem_chainTransactions.2 ⟨hblock, htx⟩, ?_⟩
  rw [heq, parseTransaction_row]

theorem mem_blockList {W : Wire Bytes} {timeAfter timeBefore : Option Nat} {reverse : Bool} {after : Option Nat}
    {count : Nat} {block : Block} (h : block ∈ (blockList W db timeAfter timeBefore reverse after count).items) :
    ∃ row ∈ db.block.rows, block = parseBlock W row := by
  obtain ⟨row, hrow, rfl⟩ := List.mem_map.1 h
  have hmem := List.mem_of_mem_take hrow
  refine ⟨row, ?_, rfl⟩
  split at hmem
  · rw [orderByDesc, List.mem_insertionSort] at hmem
    exact List.mem_of_mem_filter hmem
  · rw [orderBy, List.mem_insertionSort] at hmem
    exact List.mem_of_mem_filter hmem

theorem mem_makePagedList {Row T : Type} {index : Row → Nat} {fields : Row → T} {rows : List Row}
    {after : Option Nat} {count : Nat} {t : T} (h : t ∈ (makePagedList index fields rows after count).items) :
    ∃ row ∈ rows, t = fields row := by
  obtain ⟨row, hrow, rfl⟩ := List.mem_map.1 h
  exact ⟨row, mem_of_mem_selectRows hrow, rfl⟩

/-- A looked up key. -/
theorem fits_lookup {Row : Type} {column : Row → String} {table : List Row} {key : String} {type : ObjectType}
    {toObject : Row → Object}
    (h : ∀ row ∈ table, (toObject row).type = type ∧ Genuine S blocks db (toObject row)) :
    Fits Object.type (Genuine S blocks db) (.object type)
      (.ofOption (Loader.storedRow (fun row => .object (toObject row)) column table key)) := by
  refine fits_ofOption fun v hv => ?_
  obtain ⟨row, hrow, rfl⟩ := exists_of_storedRow hv
  exact ⟨toObject row, rfl, h row hrow⟩

theorem load_block (h : Accepted S blocks db) (others : List Int) (height : Int) :
    load (blockLoader S db) others height = .ofOption (Loader.storedBlock (runtime S) S.wire db height) := by
  have hall : blockLoader S db (height :: others) =
      (height :: others).map (Loader.storedBlock (runtime S) S.wire db) :=
    Loader.byNumbers_eq (fun _ ha _ hb => Loader.unique_height ha hb)
      (fun row hrow => by rw [(Loader.stored_applyBlocks h.applied).height row hrow])
      (fun _ => Loader.anyOrOne_iff) (List.Perm.refl _)
  rw [load, hall]
  rfl

theorem fits_resolveQuery (h : Accepted S blocks db) (hdomains : ∀ x ∈ chainTransactions blocks, HasDomain x.2)
    (call : Call) (f : QueryField) (hclean : CleanLookup S db call f) :
    Fits Object.type (Genuine S blocks db) f.type (resolveQuery S db call f) := by
  cases f with
  | blockCount => exact fits_int _
  | transactionCount => exact fits_int _
  | accountCount => exact fits_int _
  | peerCount => exact fits_int _
  | roleCount => exact fits_int _
  | domainCount => exact fits_int _
  | blockByHeight height =>
    rw [resolveQuery, load_block h]
    refine fits_ofOption fun v hv => ?_
    obtain ⟨row, hrow, rfl⟩ := Option.map_eq_some_iff.1 hv
    exact ⟨_, rfl, rfl, mem_parseBlock h (List.mem_of_find?_eq_some hrow)⟩
  | transactionByHash hash =>
    have hload : load (transactionLoader S db) call.transactions hash =
        .ofOption (Loader.storedTransaction (runtime S) S.wire db hash) :=
      load_item (fun _ ha _ hb => Loader.unique_hash ha hb)
        (fun row hrow => (Loader.stored_applyBlocks h.applied).hash row hrow none) hclean
    rw [resolveQuery, hload]
    exact fits_lookup fun row hrow => ⟨rfl, mem_parseTransaction h hrow none⟩
  | accountById id =>
    have hload : load (accountLoader S db) call.accounts id =
        .ofOption (Loader.storedAccount (runtime S) db id) :=
      load_row (fun _ ha _ hb => unique_accountId ha hb) hclean
    rw [resolveQuery, hload]
    exact fits_lookup fun row hrow => ⟨rfl, hrow⟩
  | peerByPublicKey publicKey =>
    have hload : load (peerLoader S db) call.peers publicKey =
        .ofOption (Loader.storedPeer (runtime S) db publicKey) :=
      load_row (fun _ ha _ hb => unique_publicKey ha hb) hclean
    rw [resolveQuery, hload]
    exact fits_lookup fun row hrow => ⟨rfl, trivial⟩
  | roleByName name =>
    have hload : load (roleLoader S db) call.roles name = .ofOption (Loader.storedRole (runtime S) db name) :=
      load_row (fun _ ha _ hb => unique_roleName ha hb) hclean
    rw [resolveQuery, hload]
    exact fits_lookup fun row hrow => ⟨rfl, named_of_role h hrow⟩
  | domainById id =>
    have hload : load (domainLoader S db) call.domains id = .ofOption (Loader.storedDomain (runtime S) db id) :=
      load_row (fun _ ha _ hb => unique_domainId ha hb) hclean
    rw [resolveQuery, hload]
    exact fits_lookup fun row hrow => ⟨rfl, defaultRole_stored h.applied h.referenced hrow⟩
  | blockList after count reverse timeAfter timeBefore =>
    refine fits_object rfl fun block hblock => ?_
    obtain ⟨row, hrow, rfl⟩ := mem_blockList hblock
    exact mem_parseBlock h hrow
  | transactionList after count timeAfter timeBefore creatorId =>
    refine fits_object rfl fun transaction htx => ?_
    obtain ⟨row, hrow, rfl⟩ := mem_transactionList htx
    exact mem_parseTransaction h hrow _
  | accountList after count id => exact fits_object rfl fun account haccount => mem_of_mem_selectRows haccount
  | peerList after count => exact fits_object rfl trivial
  | roleList after count =>
    refine fits_object rfl fun role hrole => ?_
    obtain ⟨row, hrow, rfl⟩ := mem_makePagedList hrole
    exact named_of_role h hrow
  | domainList after count =>
    refine fits_object rfl fun domain hdomain => ?_
    obtain ⟨row, hrow, rfl⟩ := mem_makePagedList hdomain
    exact defaultRole_stored h.applied h.referenced hrow
  | transactionCountPerMinute count => exact fits_numbers _
  | transactionCountPerHour count => exact fits_numbers _
  | blockCountPerMinute count => exact fits_numbers _
  | blockCountPerHour count => exact fits_numbers _
  | transactionCountPerDomain =>
    exact fits_objects fun group hgroup => ⟨rfl, domain_of_group h hdomains hgroup⟩

/-! ## Requests over an accepted chain -/

/-- **One answer.** The fields of a genuine object are answered with values of
their types, with genuine objects in them. -/
theorem fits_resolve (h : Accepted S blocks db) (hdomains : ∀ x ∈ chainTransactions blocks, HasDomain x.2)
    {o : Object} {type : FieldType} {value : Js} (ho : Genuine S blocks db o) (hans : Answers S db o type value) :
    Fits Object.type (Genuine S blocks db) type value := by
  obtain ⟨f, call, hclean, rfl, rfl⟩ := hans
  cases o with
  | query => exact fits_resolveQuery h hdomains call f hclean
  | block block => exact fits_resolveBlock ho f
  | transaction transaction =>
    obtain ⟨x, hx, htx⟩ := ho
    exact fits_resolveTransaction h hdomains hx htx call f
  | account account => exact fits_resolveAccount h hdomains ho call f
  | permissionGranted p => exact fits_resolvePermissionGranted ho f
  | peer peer => cases f <;> exact fits_text _
  | role role => exact fits_resolveRole ho f
  | domain domain => exact fits_resolveDomain h ho call f
  | blockList list =>
    exact fits_resolveList Object.block (fun _ => rfl) ho f
  | transactionList list =>
    exact fits_resolveList Object.transaction (fun _ => rfl) ho f
  | accountList list =>
    exact fits_resolveList Object.account (fun _ => rfl) ho f
  | peerList list =>
    exact fits_resolveList Object.peer (fun _ => rfl) (fun _ _ => trivial) f
  | roleList list =>
    exact fits_resolveList Object.role (fun _ => rfl) ho f
  | domainList list =>
    exact fits_resolveList Object.domain (fun _ => rfl) ho f
  | countPerDomain domain count =>
    cases f with
    | domain => exact fits_ofText ho
    | count => exact fits_int _

theorem genuine_of_met (h : Accepted S blocks db) (hdomains : ∀ x ∈ chainTransactions blocks, HasDomain x.2)
    {o : Object} (ho : Met (Answers S db) .query o) : Genuine S blocks db o := by
  have hroot : Genuine S blocks db .query := trivial
  exact Met.invariant hroot (fun _ _ _ => fits_resolve h hdomains) ho

/-- A transaction whose creator has no domain makes a null domain. -/
theorem null_domain_of_met (h : Accepted S blocks db) {x : Block × Transaction} (hx : x ∈ chainTransactions blocks)
    (hno : ¬ HasDomain x.2) : ∃ count, Met (Answers S db) .query (.countPerDomain none count) := by
  obtain ⟨row, hrow, hcolumn⟩ : ∃ row ∈ db.transaction.rows, row.creatorDomain = none := by
    rw [(applyBlocks_log h.applied).2]
    obtain ⟨i, hi, rfl⟩ := List.getElem_of_mem hx
    refine ⟨mkTransaction S.wire (i + 1) (chainTransactions blocks)[i], ?_, ?_⟩
    · exact List.mem_mapIdx.2 ⟨i, hi, rfl⟩
    · have hnone : accountDomain (chainTransactions blocks)[i].2.payload.creatorAccountId = none := by
        simpa [HasDomain] using hno
      simp only [mkTransaction, transactionRow, creatorIdOf]
      split
      · rfl
      · exact hnone
  have hgroup : (none, (db.transaction.rows.filter fun row => row.creatorDomain = none).length) ∈
      transactionCountPerDomain db := by
    refine List.mem_map.2 ⟨none, ?_, rfl⟩
    rw [List.mem_dedup, ← hcolumn]
    exact List.mem_map_of_mem hrow
  have call : Call := ⟨0, [], [], [], [], [], []⟩
  have hans : Answers S db .query (.nonNullList (.object .countPerDomain))
      (objects (fun group => .countPerDomain group.1 group.2) (transactionCountPerDomain db)) :=
    ⟨QueryField.transactionCountPerDomain, call, trivial, rfl, rfl⟩
  exact ⟨_, .within .root hans (.item (List.mem_map_of_mem hgroup) .object)⟩

theorem not_answersFit (h : Accepted S blocks db) {x : Block × Transaction} (hx : x ∈ chainTransactions blocks)
    (hno : ¬ HasDomain x.2) : ¬ AnswersFit S db := by
  intro hfit
  obtain ⟨count, hmet⟩ := null_domain_of_met h hx hno
  have call : Call := ⟨0, [], [], [], [], [], []⟩
  exact hfit.fits _ (.nonNull .string) .null hmet ⟨CountPerDomainField.domain, call, trivial, rfl, rfl⟩

/-- A field of `Query` that is answered with one object. -/
theorem met_of_query {o : Object} (f : QueryField) (call : Call) (hclean : CleanLookup S db call f)
    (h : resolveQuery S db call f = .object o) : Met (Answers S db) .query o :=
  .within .root ⟨f, call, hclean, rfl, h⟩ .object

/-- **Coverage.** Requests meet everything that is stored. -/
theorem met_stored (h : Accepted S blocks db) :
    (∀ row ∈ db.block.rows, Met (Answers S db) .query (.block (parseBlock S.wire row))) ∧
    (∀ row ∈ db.transaction.rows, Met (Answers S db) .query (.transaction (parseTransaction S.wire none row))) ∧
    (∀ row ∈ db.account.rows, Met (Answers S db) .query (.account row)) ∧
    (∀ row ∈ db.peer.rows, Met (Answers S db) .query (.peer (peerFields row))) ∧
    (∀ row ∈ db.role.rows, Met (Answers S db) .query (.role (roleFields row))) ∧
    ∀ row ∈ db.domain.rows, Met (Answers S db) .query (.domain (domainFields row)) := by
  have call : Call := ⟨0, [], [], [], [], [], []⟩
  have hstored : ∀ {stored : String → Option Js} {keys : List String} {key : String} {v : Js},
      stored key = some v → Loader.CleanKey (runtime S) stored keys key :=
    fun hsome hnone => nomatch hsome.symm.trans hnone
  refine ⟨fun row hrow => ?_, fun row hrow => ?_, fun row hrow => ?_, fun row hrow => ?_, fun row hrow => ?_,
    fun row hrow => ?_⟩
  · have hfind : db.block.rows.find? (fun r => (r.height : Int) = row.height) = some row :=
      find?_of_unique hrow (by simp) fun r hr heq => Loader.unique_height hr hrow (of_decide_eq_true heq)
    refine met_of_query (.blockByHeight row.height) call trivial ?_
    rw [resolveQuery, load_block h, Loader.storedBlock, Loader.storedRow, hfind]
    rfl
  · have hsome : Loader.storedTransaction (runtime S) S.wire db row.hash = _ :=
      storedRow_of_mem _ (fun _ ha _ hb => Loader.unique_hash ha hb) hrow
    have hload : load (transactionLoader S db) call.transactions row.hash = _ :=
      load_item (fun _ ha _ hb => Loader.unique_hash ha hb)
        (fun row hrow => (Loader.stored_applyBlocks h.applied).hash row hrow none) (hstored hsome)
    refine met_of_query (.transactionByHash row.hash) call (hstored hsome) (hload.trans ?_)
    exact congrArg Value.ofOption hsome
  · have hsome := storedRow_of_mem (runtime S).account (fun _ ha _ hb => unique_accountId ha hb) hrow
    exact met_of_query (.accountById row.id) call (hstored hsome) (load_account hrow)
  · have hsome := storedRow_of_mem (runtime S).peer (fun _ ha _ hb => unique_publicKey ha hb) hrow
    exact met_of_query (.peerByPublicKey row.publicKey) call (hstored hsome)
      (load_stored (fun _ ha _ hb => unique_publicKey ha hb) hrow)
  · have hsome := storedRow_of_mem (runtime S).role (fun _ ha _ hb => unique_roleName ha hb) hrow
    exact met_of_query (.roleByName row.name) call (hstored hsome) (load_role hrow)
  · have hsome := storedRow_of_mem (runtime S).domain (fun _ ha _ hb => unique_domainId ha hb) hrow
    exact met_of_query (.domainById row.id) call (hstored hsome)
      (load_stored (fun _ ha _ hb => unique_domainId ha hb) hrow)

/-- **Answers fit the schema** if and only if every transaction of the chain
has a creator with a domain. -/
theorem answers_fit_iff (S : Server Bytes) (blocks : List Block) (db : Db Bytes) (h : Accepted S blocks db) :
    AnswersFit S db ↔ ∀ x ∈ chainTransactions blocks, HasDomain x.2 := by
  constructor
  · intro hfit x hx
    by_contra hno
    exact not_answersFit h hx hno hfit
  · intro hdomains
    refine ⟨fun o type value ho hans => ?_, fun transaction call htx => ?_⟩
    · exact (fits_resolve h hdomains (genuine_of_met h hdomains ho) hans).mono fun _ _ => trivial
    · obtain ⟨x, hx, hprotobuf⟩ : Genuine S blocks db (.transaction transaction) := genuine_of_met h hdomains htx
      have hcreator := creatorIdOf_of_hasDomain (hdomains x hx)
      rw [hprotobuf, hcreator]
      obtain ⟨row, hrow, hid, heq⟩ := resolve_createdBy h hx hprotobuf hcreator call
      constructor
      · rw [heq]
        simp
      · rintro id ⟨⟩
        exact ⟨row, hrow, hid, heq⟩

end

/-! ## Two chains -/

instance (transaction : Transaction) : Decidable (HasDomain transaction) :=
  inferInstanceAs (Decidable (_ = true))

instance (S : Server Bytes) (command : Command) : Decidable (PermissionsNamed S command) := by
  unfold PermissionsNamed
  split <;> infer_instance

/-- The first names of the two enums. -/
def node : Server (Block ⊕ Transaction) where
  wire := plainWire
  lodash := {
    member := fun
      | .object (.account account), "id" => some (.text account.id)
      | _, _ => none
    inherited := fun key => if key ∈ Loader.objectPrototype then some (.other key) else none
    toPath := fun key => (key.toList.splitOn '.').map String.ofList
    inherited_number := fun n => if_neg (Loader.number_not_inherited n) }
  rolePermissionName n := ["CAN_APPEND_ROLE", "CAN_CREATE_ROLE"][n]?
  grantablePermissionName n := ["CAN_ADD_MY_SIGNATORY", "CAN_REMOVE_MY_SIGNATORY"][n]?
  lower := List.map Char.toLower
  toISOString _ := "1970-01-01T00:00:00.000Z"
  stringify commands := (repr commands).pretty

/-- The genesis transaction with and without a creator. -/
def genesis (creatorAccountId : String) : Block :=
  ⟨1, 0, "", [⟨⟨creatorAccountId, 0, 1,
    [.createRole "user" [0], .createDomain "d" "user", .createAccount "alice" "d",
      .grantPermission "alice@d" 1]⟩, []⟩]⟩

theorem accepted_genesis {creatorAccountId : String} (db : Db (Block ⊕ Transaction))
    (h : applyBlocks plainWire .empty [genesis creatorAccountId] = .ok db)
    (hcreator : creatorAccountId = "" ∨ creatorAccountId = "alice@d") :
    Accepted node [genesis creatorAccountId] db := by
  refine ⟨h, ?_, ?_⟩
  · obtain rfl | rfl := hcreator <;> decide +kernel
  · obtain rfl | rfl := hcreator <;> decide +kernel

theorem answers_fit_iff_genesis :
    ∃ db, applyBlocks plainWire .empty [genesis "alice@d"] = .ok db ∧ AnswersFit node db := by
  obtain ⟨db, h⟩ := exists_of_isOk (x := applyBlocks plainWire .empty [genesis "alice@d"]) (by decide +kernel)
  refine ⟨db, h, (answers_fit_iff node [genesis "alice@d"] db (accepted_genesis db h (.inr rfl))).2 ?_⟩
  decide +kernel

/-- Without a creator: `createdBy` is an empty text, the domain counted for is
null, and so is who granted the permission. -/
theorem answers_miss_schema :
    ∃ db, Accepted node [genesis ""] db ∧ ¬ AnswersFit node db ∧
      (∀ transaction ∈ getBlockTransactions (genesis ""), ∀ call,
        resolveTransactionField node db call transaction .createdBy = .text "") ∧
      transactionCountPerDomain db = [(none, 1)] ∧
      db.account.rows.map permissionsGrantedTo = [[⟨none, "alice@d", 1⟩]] := by
  obtain ⟨db, h⟩ := exists_of_isOk (x := applyBlocks plainWire .empty [genesis ""]) (by decide +kernel)
  have hacc := accepted_genesis db h (.inl rfl)
  have hx : (genesis "", (genesis "").transactions.head (by decide)) ∈ chainTransactions [genesis ""] := by
    decide +kernel
  refine ⟨db, hacc, not_answersFit hacc hx (by decide +kernel), ?_, ?_, ?_⟩
  · intro transaction htx call
    obtain rfl := List.mem_singleton.1 htx
    rfl
  · have hcount : (applyBlocks plainWire .empty [genesis ""]).toOption.map transactionCountPerDomain =
        some [(none, 1)] := by decide +kernel
    rw [h] at hcount
    exact Option.some.inj hcount
  · have hgranted : (applyBlocks plainWire .empty [genesis ""]).toOption.map
        (fun db => db.account.rows.map permissionsGrantedTo) = some [[⟨none, "alice@d", 1⟩]] := by decide +kernel
    rw [h] at hgranted
    exact Option.some.inj hgranted

end Explorer.Iroha.Graphql
