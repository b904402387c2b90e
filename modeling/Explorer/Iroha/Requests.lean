import Explorer.Core.DataLoader
import Explorer.Iroha.Conformance
import Explorer.Iroha.Replica

/-!
# A request while blocks are applied

`Conformance` takes one database for all answers of a request. In the server
every query of a resolver sees the database of its own moment, and the sync
processes apply blocks in between. A request has a fork of `IrohaDb`, that is
six loaders of its own, which keep what they have answered. The loaders are
those of a package that is a parameter (`Packages`).

`call` is a resolver that is called, `dispatch` and `resolve` are the batches
of a loader, `reject` and `throw` a query that fails, and `answer` a resolver
that returns: all its keys are settled, or it makes its own query.

* `Moment`: what was so at some time since the request began.
* `answer_of_moments`: what a resolver returns, given what the loaders found.
* `inv_step`: the invariant.
-/
namespace Explorer.Iroha.Requests

open Explorer.Schema
open Graphql
open StreamServer (Chain)
open Replica (upTo)

variable {Bytes E : Type}

deriving instance DecidableEq for PagedList
deriving instance DecidableEq for Object

/-! ## Loaders (iroha/src/iroha-db.ts:86-127) -/

inductive LoaderName where
  | block
  | transaction
  | account
  | peer
  | role
  | domain
  deriving DecidableEq, Repr

abbrev Key : LoaderName → Type
  | .block => Int
  | _ => String

instance : (l : LoaderName) → DecidableEq (Key l)
  | .block => inferInstanceAs (DecidableEq Int)
  | .transaction | .account | .peer | .role | .domain => inferInstanceAs (DecidableEq String)

/-- The batch function. -/
def batch (S : Server Bytes) (db : Db Bytes) : (l : LoaderName) → List (Key l) → List (Option Js)
  | .block => blockLoader S db
  | .transaction => transactionLoader S db
  | .account => accountLoader S db
  | .peer => peerLoader S db
  | .role => roleLoader S db
  | .domain => domainLoader S db

/-- The row of a key. -/
def stored (S : Server Bytes) (db : Db Bytes) : (l : LoaderName) → Key l → Option Js
  | .block => Loader.storedBlock (runtime S) S.wire db
  | .transaction => Loader.storedTransaction (runtime S) S.wire db
  | .account => Loader.storedAccount (runtime S) db
  | .peer => Loader.storedPeer (runtime S) db
  | .role => Loader.storedRole (runtime S) db
  | .domain => Loader.storedDomain (runtime S) db

/-- Keys that are not stored find nothing. -/
def CleanKeys (S : Server Bytes) (db : Db Bytes) : (l : LoaderName) → List (Key l) → Prop
  | .block => fun _ => True
  | .transaction => Loader.Clean (runtime S) (Loader.storedTransaction (runtime S) S.wire db)
  | .account => Loader.Clean (runtime S) (Loader.storedAccount (runtime S) db)
  | .peer => Loader.Clean (runtime S) (Loader.storedPeer (runtime S) db)
  | .role => Loader.Clean (runtime S) (Loader.storedRole (runtime S) db)
  | .domain => Loader.Clean (runtime S) (Loader.storedDomain (runtime S) db)

/-- The package at the types of the six loaders. -/
abbrev Packages := (l : LoaderName) → DataLoader.Package (Key l) (Option Js)

def Packages.Documented (P : Packages) : Prop := ∀ l, DataLoader.Documented (P l)

abbrev Loaders (P : Packages) := (l : LoaderName) → (P l).Loader

def Loaders.loadMany {P : Packages} (loaders : Loaders P) (keys : List ((l : LoaderName) × Key l)) : Loaders P :=
  keys.foldl (fun loaders key => Function.update loaders key.1 ((P key.1).load (loaders key.1) key.2)) loaders

/-! ## Resolvers that load -/

/-- The keys a resolver loads. -/
def transactionKeys (transaction : TransactionObject) : TransactionField → List ((l : LoaderName) × Key l)
  | .createdBy =>
    let creatorId := transaction.protobuf.payload.creatorAccountId
    if creatorId = "" then [] else [⟨.account, creatorId⟩]
  | _ => []

def accountKeys (account : AccountRow) : AccountField → List ((l : LoaderName) × Key l)
  | .roles | .permissions => account.roles.map fun name => ⟨.role, name⟩
  | _ => []

def domainKeys (domain : Domain) : DomainField → List ((l : LoaderName) × Key l)
  | .defaultRole => [⟨.role, domain.defaultRole⟩]
  | .id => []

def queryKeys : QueryField → List ((l : LoaderName) × Key l)
  | .blockByHeight height => [⟨.block, height⟩]
  | .transactionByHash hash => [⟨.transaction, hash⟩]
  | .accountById id => [⟨.account, id⟩]
  | .peerByPublicKey publicKey => [⟨.peer, publicKey⟩]
  | .roleByName name => [⟨.role, name⟩]
  | .domainById id => [⟨.domain, id⟩]
  | _ => []

def keysOf : (o : Object) → Field o.type → List ((l : LoaderName) × Key l)
  | .query => queryKeys
  | .transaction transaction => transactionKeys transaction
  | .account account => accountKeys account
  | .domain domain => domainKeys domain
  | _ => fun _ => []

section
variable (S : Server Bytes) (db : Db Bytes) (now : Int) (value : (l : LoaderName) → Key l → Option (Option Js))

/-- A call that loads nothing. -/
def alone : Call := ⟨now, [], [], [], [], [], []⟩

/-- mirrors iroha/src/graphql.ts:21-30 -/
def answerTransaction (transaction : TransactionObject) : TransactionField → Option Js
  | .createdBy =>
    let creatorId := transaction.protobuf.payload.creatorAccountId
    if creatorId = "" then some (.text creatorId) else (value .account creatorId).map .ofOption
  | f => some (resolveTransactionField S db (alone now) transaction f)

/-- mirrors iroha/src/graphql.ts:31-39 -/
def answerAccount (account : AccountRow) : AccountField → Option Js
  | .roles => (account.roles.mapM fun name => value .role name).map fun roles => .list (roles.map .ofOption)
  | .permissions => (account.roles.mapM fun name => value .role name).map fun roles =>
    .list ((((roles.map Value.ofOption).flatMap propPermissions).eraseDups).map
      fun permission => .ofText (permission.bind S.rolePermissionName))
  | f => some (resolveAccount S db (alone now) account f)

/-- mirrors iroha/src/graphql.ts:49-51 -/
def answerDomain (domain : Domain) : DomainField → Option Js
  | .defaultRole => (value .role domain.defaultRole).map .ofOption
  | f => some (resolveDomain S db (alone now) domain f)

/-- mirrors iroha/src/graphql.ts:52-80 -/
def answerQuery : QueryField → Option Js
  | .blockByHeight height => (value .block height).map .ofOption
  | .transactionByHash hash => (value .transaction hash).map .ofOption
  | .accountById id => (value .account id).map .ofOption
  | .peerByPublicKey publicKey => (value .peer publicKey).map .ofOption
  | .roleByName name => (value .role name).map .ofOption
  | .domainById id => (value .domain id).map .ofOption
  | f => some (resolveQuery S db (alone now) f)

/-- What a resolver returns, `none` while a key of it is not settled. -/
def answer : (o : Object) → Field o.type → Option Js
  | .query => answerQuery S db now value
  | .transaction transaction => answerTransaction S db now value transaction
  | .account account => answerAccount S db now value account
  | .domain domain => answerDomain S db now value domain
  | o => fun f => some (resolve S db (alone now) o f)

end

/-- The roles that an object names. -/
def accountRoles (account : AccountRow) : AccountField → List String
  | .roles | .permissions => account.roles
  | _ => []

def domainRoles (domain : Domain) : DomainField → List String
  | .defaultRole => [domain.defaultRole]
  | .id => []

def rolesOf : (o : Object) → Field o.type → List String
  | .account account => accountRoles account
  | .domain domain => domainRoles domain
  | _ => fun _ => []

/-! ## Requests -/

structure Pending where
  object : Object
  field : Field object.type

structure Answered where
  object : Object
  field : Field object.type
  value : Js

structure Request (P : Packages) where
  loaders : Loaders P
  pending : List Pending
  answers : List Answered
  /-- ghost: how many blocks were stored when the request began -/
  since : Nat
  /-- ghost: the names that `roleByName` was called with -/
  lookups : List String

variable {P : Packages}

/-- What resolvers can be called with. -/
def Request.met (r : Request P) : List Object := .query :: r.answers.flatMap fun a => a.value.objects

def lookedUp : (o : Object) → Field o.type → List String
  | .query => fun f : QueryField => match f with
    | .roleByName name => [name]
    | _ => []
  | _ => fun _ => []

def Request.call (r : Request P) (o : Object) (f : Field o.type) : Request P :=
  { r with
    loaders := r.loaders.loadMany (keysOf o f)
    pending := r.pending ++ [⟨o, f⟩]
    lookups := r.lookups ++ lookedUp o f }

def Request.withLoader (r : Request P) (l : LoaderName) (loader : (P l).Loader) : Request P :=
  { r with loaders := Function.update r.loaders l loader }

/-- The resolvers that wait for one of the keys get its error. -/
def Request.fail (r : Request P) (l : LoaderName) (keys : List (Key l)) : Request P :=
  { r with pending := r.pending.filter fun p => (keysOf p.object p.field).all fun key =>
      keys.all fun k => key ≠ ⟨l, k⟩ }

/-- The sync processes with the chain, and the request. -/
structure St (P : Packages) (Bytes E : Type) where
  replica : Replica.St Bytes E
  request : Request P

def St.db (s : St P Bytes E) : Db Bytes := s.replica.sync.db

def St.value (s : St P Bytes E) (l : LoaderName) (key : Key l) : Option (Option Js) :=
  (P l).value (s.request.loaders l) key

/-- The batches of a loader that are under way. -/
def St.batches (s : St P Bytes E) (l : LoaderName) : List (List (Key l)) := (P l).batches (s.request.loaders l)

inductive Lbl (E : Type) where
  | replica (l : Replica.Lbl E)
  | call (o : Object) (f : Field o.type)
  | dispatch (l : LoaderName)
  | resolve (l : LoaderName) (i : Nat)
  | reject (l : LoaderName) (i : Nat)
  | answer (j : Nat) (now : Int)
  | throw (j : Nat)

def step (S : Server Bytes) (C : Chain) (s : St P Bytes E) : Lbl E → Option (St P Bytes E)
  | .replica l => (Replica.step S.wire C s.replica l).map fun replica => { s with replica := replica }
  | .call o f => if o ∈ s.request.met then some { s with request := s.request.call o f } else none
  | .dispatch l =>
      if (P l).queue (s.request.loaders l) = [] then none
      else some { s with request := s.request.withLoader l ((P l).dispatch (s.request.loaders l)) }
  | .resolve l i => (s.batches l)[i]?.map fun keys =>
      { s with request :=
        s.request.withLoader l ((P l).resolve (s.request.loaders l) i (batch S s.db l keys)) }
  | .reject l i => (s.batches l)[i]?.map fun keys =>
      { s with request :=
        (s.request.fail l keys).withLoader l ((P l).reject (s.request.loaders l) i) }
  | .answer j now => s.request.pending[j]?.bind fun p =>
      (answer S s.db now s.value p.object p.field).map fun value =>
        { s with request := { s.request with
          pending := s.request.pending.eraseIdx j
          answers := s.request.answers ++ [⟨p.object, p.field, value⟩] } }
  | .throw j => s.request.pending[j]?.bind fun p =>
      if keysOf p.object p.field = [] then
        some { s with request := { s.request with pending := s.request.pending.eraseIdx j } }
      else none

/-- `db.fork()`, whatever the sync processes have done before.
mirrors iroha/src/server.ts:14 -/
def fork (P : Packages) (replica : Replica.St Bytes E) : St P Bytes E :=
  ⟨replica, ⟨fun l => (P l).fresh, [], [], replica.sync.db.blockCount, []⟩⟩

def Init (P : Packages) (S : Server Bytes) (C : Chain) (s : St P Bytes E) : Prop :=
  ∃ replica, (Replica.lts S.wire C E).Reachable replica ∧ s = fork P replica

def lts (P : Packages) (S : Server Bytes) (C : Chain) (E : Type) : LTS (St P Bytes E) (Lbl E) :=
  LTS.ofFn (Init P S C) (step S C)

/-! ## Loaders of a request -/

section
variable {loaders : Loaders P} {keys : List ((l : LoaderName) × Key l)}

theorem loadMany_cons (loaders : Loaders P) (key : (l : LoaderName) × Key l)
    (keys : List ((l : LoaderName) × Key l)) : loaders.loadMany (key :: keys) =
      Loaders.loadMany (Function.update loaders key.1 ((P key.1).load (loaders key.1) key.2)) keys := rfl

theorem value_loadMany (hP : P.Documented) (l : LoaderName) (k : Key l) :
    (P l).value (loaders.loadMany keys l) k = (P l).value (loaders l) k := by
  induction keys generalizing loaders with
  | nil => rfl
  | cons key keys ih =>
    rw [loadMany_cons, ih]
    by_cases h : l = key.1
    · subst h
      rw [Function.update_self, (hP key.1).value_load]
    · rw [Function.update_of_ne h]

theorem cached_loadMany (hP : P.Documented) {l : LoaderName} {k : Key l} :
    (P l).Cached (loaders.loadMany keys l) k ↔ (P l).Cached (loaders l) k ∨ ⟨l, k⟩ ∈ keys := by
  induction keys generalizing loaders with
  | nil => simp [Loaders.loadMany]
  | cons key keys ih =>
    obtain ⟨l', k'⟩ := key
    rw [loadMany_cons, ih, List.mem_cons, ← or_assoc]
    refine or_congr ?_ Iff.rfl
    by_cases h : l = l'
    · subst h
      simp [(hP l).cached_load]
    · rw [Function.update_of_ne h]
      simp [h]

theorem inv_loadMany (hP : P.Documented) (h : ∀ l, DataLoader.Inv (P l) (loaders l)) (l : LoaderName) :
    DataLoader.Inv (P l) (loaders.loadMany keys l) := by
  induction keys generalizing loaders with
  | nil => exact h l
  | cons key keys ih =>
    rw [loadMany_cons]
    refine ih fun l' => ?_
    by_cases hl : l' = key.1
    · subst hl
      rw [Function.update_self]
      exact (h _).load (hP _) _
    · rw [Function.update_of_ne hl]
      exact h l'

end

/-! ## What a batch finds -/

/-- A chain that Iroha accepts, with a domain for every creator. -/
structure AcceptedChain (S : Server Bytes) (C : Chain) : Prop where
  referenced : ∀ n, Referenced (upTo C n)
  named : ∀ n, ∀ x ∈ chainCommands (upTo C n), PermissionsNamed S x.command
  domains : ∀ n, ∀ x ∈ chainTransactions (upTo C n), HasDomain x.2

section
variable {S : Server Bytes} {C : Chain} {blocks : List Block} {db : Db Bytes}

theorem AcceptedChain.accepted (h : AcceptedChain S C) {n : Nat}
    (hdb : applyBlocks S.wire .empty (upTo C n) = .ok db) : Accepted S (upTo C n) db :=
  ⟨hdb, h.referenced n, h.named n⟩

/-- Each key its row. -/
theorem batch_eq (h : Accepted S blocks db) {l : LoaderName} {keys : List (Key l)} (hclean : CleanKeys S db l keys) :
    batch S db l keys = keys.map (stored S db l) := by
  have hdb := Loader.stored_applyBlocks h.applied
  cases l with
  | block =>
    exact Loader.byNumbers_eq (fun _ ha _ hb => Loader.unique_height ha hb)
      (fun row hrow => by rw [hdb.height row hrow]) (fun _ => Loader.anyOrOne_iff) (List.Perm.refl _)
  | transaction => exact (Loader.transactionsByHash_iff hdb (List.Perm.refl _)).2 hclean
  | account =>
    exact (Loader.byKeys_rows_iff (fun _ ha _ hb => unique_accountId ha hb) (List.Perm.refl _)).2 hclean
  | peer =>
    exact (Loader.byKeys_rows_iff (fun _ ha _ hb => unique_publicKey ha hb) (List.Perm.refl _)).2 hclean
  | role =>
    exact (Loader.byKeys_rows_iff (fun _ ha _ hb => unique_roleName ha hb) (List.Perm.refl _)).2 hclean
  | domain =>
    exact (Loader.byKeys_rows_iff (fun _ ha _ hb => unique_domainId ha hb) (List.Perm.refl _)).2 hclean

def LoaderName.type : LoaderName → ObjectType
  | .block => .block
  | .transaction => .transaction
  | .account => .account
  | .peer => .peer
  | .role => .role
  | .domain => .domain

theorem genuine_stored (h : Accepted S blocks db) {l : LoaderName} {key : Key l} {v : Js}
    (hv : stored S db l key = some v) : ∃ o, v = .object o ∧ o.type = l.type ∧ Genuine S blocks db o := by
  cases l with
  | block =>
    obtain ⟨row, hrow, rfl⟩ := Option.map_eq_some_iff.1 hv
    exact ⟨_, rfl, rfl, mem_parseBlock h (List.mem_of_find?_eq_some hrow)⟩
  | transaction =>
    obtain ⟨row, hrow, rfl⟩ := exists_of_storedRow hv
    exact ⟨_, rfl, rfl, mem_parseTransaction h hrow none⟩
  | account =>
    obtain ⟨row, hrow, rfl⟩ := exists_of_storedRow hv
    exact ⟨_, rfl, rfl, hrow⟩
  | peer =>
    obtain ⟨row, hrow, rfl⟩ := exists_of_storedRow hv
    exact ⟨_, rfl, rfl, trivial⟩
  | role =>
    obtain ⟨row, hrow, rfl⟩ := exists_of_storedRow hv
    exact ⟨_, rfl, rfl, named_of_role h hrow⟩
  | domain =>
    obtain ⟨row, hrow, rfl⟩ := exists_of_storedRow hv
    exact ⟨_, rfl, rfl, defaultRole_stored h.applied h.referenced hrow⟩

theorem stored_role {row : RoleRow} (hrow : row ∈ db.role.rows) :
    stored S db .role row.name = some (.object (.role (roleFields row))) :=
  storedRow_of_mem _ (fun _ ha _ hb => unique_roleName ha hb) hrow

end

/-! ## What resolvers return -/

/-- So of the database that some blocks made, since the request began. -/
def Moment (S : Server Bytes) (C : Chain) (s : St P Bytes E) (P : List Block → Db Bytes → Prop) : Prop :=
  ∃ n db, s.request.since ≤ n ∧ n ≤ s.db.blockCount ∧ applyBlocks S.wire .empty (upTo C n) = .ok db ∧ P (upTo C n) db

/-- The object was genuine at such a time. -/
def Past (S : Server Bytes) (C : Chain) (s : St P Bytes E) (o : Object) : Prop :=
  Moment S C s fun blocks db => Genuine S blocks db o

/-- What the loaders have found was so. -/
def Found (S : Server Bytes) (C : Chain) (s : St P Bytes E) : Prop :=
  ∀ l key v, s.value l key = some v → Moment S C s fun _ db => v = stored S db l key

/-- An answer that fits unless a role of the object was not found, and the
objects in it. -/
structure Conforms (S : Server Bytes) (C : Chain) (s : St P Bytes E) (o : Object) (f : Field o.type) (v : Js) :
    Prop where
  fits : Fits Object.type (fun _ => True) (fieldType o.type f) v ↔
    ∀ name ∈ rolesOf o f, s.value .role name ≠ some none
  within : ∀ o', Within o' v → Past S C s o'

section
variable {S : Server Bytes} {C : Chain} {s : St P Bytes E} {o : Object} {v : Js} {now : Int}

theorem conforms_of_fits {f : Field o.type} (hroles : rolesOf o f = [])
    (h : Fits Object.type (Past S C s) (fieldType o.type f) v) : Conforms S C s o f v := by
  refine ⟨iff_of_true (h.mono fun _ _ => trivial) ?_, fun o' ho' => h.of_within ho'⟩
  simp [hroles]

theorem Found.object (hC : AcceptedChain S C) (h : Found S C s) {l : LoaderName} {key : Key l} {v : Js}
    (hv : s.value l key = some (some v)) : ∃ o, v = .object o ∧ o.type = l.type ∧ Past S C s o := by
  obtain ⟨n, db, hn, hle, hdb, hstored⟩ := h l key _ hv
  obtain ⟨o, rfl, htype, ho⟩ := genuine_stored (hC.accepted hdb) hstored.symm
  exact ⟨o, rfl, htype, n, db, hn, hle, hdb, ho⟩

/-- A key that was looked up, for a type without `!`. -/
theorem Found.fits (hC : AcceptedChain S C) (h : Found S C s) {l : LoaderName} {key : Key l}
    (hv : (s.value l key).map Value.ofOption = some v) : Fits Object.type (Past S C s) (.object l.type) v := by
  obtain ⟨w, hw, rfl⟩ := Option.map_eq_some_iff.1 hv
  refine fits_ofOption fun x hx => ?_
  subst hx
  exact h.object hC hw

/-- The fields that read nothing. -/
theorem conforms_plain (hC : AcceptedChain S C) (ho : Past S C s o) {f : Field o.type} (hroles : rolesOf o f = [])
    (h : ∀ db, Clean S db (alone 0) o f ∧ resolve S db (alone 0) o f = v) : Conforms S C s o f v := by
  obtain ⟨n, db, hn, hle, hdb, ho⟩ := ho
  have hfits := fits_resolve (hC.accepted hdb) (hC.domains n) ho ⟨f, alone 0, (h db).1, rfl, (h db).2⟩
  exact conforms_of_fits hroles (hfits.mono fun o' ho' => ⟨n, db, hn, hle, hdb, ho'⟩)

/-- The roles that a list of names finds. -/
theorem Found.roles (hC : AcceptedChain S C) (h : Found S C s) {names : List String} {vs : List (Option Js)}
    (hvs : (names.mapM fun name => s.value .role name) = some vs) :
    (∀ w ∈ vs, ∀ x, w = some x → ∃ role : Role, x = .object (.role role) ∧
        (∀ p ∈ role.permissions, (S.rolePermissionName p).isSome = true) ∧ Past S C s (.role role)) ∧
      (none ∉ vs ↔ ∀ name ∈ names, s.value .role name ≠ some none) := by
  rw [mapM_eq_some_iff] at hvs
  constructor
  · rintro w hw x rfl
    have hin : some (some x) ∈ names.map fun name => s.value .role name := hvs ▸ List.mem_map_of_mem hw
    obtain ⟨name, -, hname⟩ := List.mem_map.1 hin
    obtain ⟨o, rfl, htype, ho⟩ := h.object hC hname
    cases o with
    | role role =>
      obtain ⟨n, db, hn, hle, hdb, hnamed⟩ := ho
      exact ⟨role, rfl, hnamed, n, db, hn, hle, hdb, hnamed⟩
    | _ => cases htype
  · have hiff : none ∈ vs ↔ some none ∈ names.map fun name => s.value .role name := by
      rw [hvs]
      simp
    rw [hiff, List.mem_map]
    simp

theorem conforms_roles (hC : AcceptedChain S C) (hfound : Found S C s) {account : AccountRow}
    (hv : answerAccount S s.db now s.value account .roles = some v) :
    Conforms S C s (.account account) AccountField.roles v := by
  obtain ⟨vs, hvs, rfl⟩ := Option.map_eq_some_iff.1 hv
  obtain ⟨hroles, hnone⟩ := hfound.roles hC hvs
  have htype : fieldType (Object.account account).type AccountField.roles = .nonNullList (.object .role) := rfl
  have hnames : rolesOf (.account account) AccountField.roles = account.roles := rfl
  constructor
  · rw [htype, hnames, ← hnone]
    constructor
    · intro hfits hin
      exact hfits _ (List.mem_map_of_mem hin)
    · intro hno
      refine fits_map fun w hw => ?_
      cases w with
      | none => exact absurd hw hno
      | some x =>
        obtain ⟨role, rfl, -⟩ := hroles _ hw x rfl
        exact ⟨rfl, trivial⟩
  · intro o' ho'
    cases ho' with
    | item hitem ho' =>
      obtain ⟨w, hw, rfl⟩ := List.mem_map.1 hitem
      cases w with
      | none => cases ho'
      | some x =>
        obtain ⟨role, rfl, -, hpast⟩ := hroles _ hw x rfl
        cases ho'
        exact hpast

theorem conforms_permissions (hC : AcceptedChain S C) (hfound : Found S C s) {account : AccountRow}
    (hv : answerAccount S s.db now s.value account .permissions = some v) :
    Conforms S C s (.account account) AccountField.permissions v := by
  obtain ⟨vs, hvs, rfl⟩ := Option.map_eq_some_iff.1 hv
  obtain ⟨hroles, hnone⟩ := hfound.roles hC hvs
  have htype : fieldType (Object.account account).type AccountField.permissions = .nonNullList .string := rfl
  have hnames : rolesOf (.account account) AccountField.permissions = account.roles := rfl
  constructor
  · rw [htype, hnames, ← hnone]
    constructor
    · intro hfits hin
      -- a null role has no `permissions`: one `undefined`, which has no name
      have hundefined : none ∈ ((vs.map Value.ofOption).flatMap propPermissions).eraseDups := by
        rw [List.mem_eraseDups]
        exact List.mem_flatMap.2 ⟨_, List.mem_map_of_mem hin, List.mem_singleton_self _⟩
      exact hfits _ (List.mem_map_of_mem hundefined)
    · intro hno
      refine fits_map fun permission hpermission => ?_
      rw [List.mem_eraseDups] at hpermission
      obtain ⟨role', hrole', hprop⟩ := List.mem_flatMap.1 hpermission
      obtain ⟨w, hw, rfl⟩ := List.mem_map.1 hrole'
      cases w with
      | none => exact absurd hw hno
      | some x =>
        obtain ⟨role, rfl, hnamed, -⟩ := hroles _ hw x rfl
        obtain ⟨p, hp, rfl⟩ := List.mem_map.1 hprop
        exact fits_ofText (hnamed p hp)
  · intro o' ho'
    cases ho' with
    | item hitem ho' =>
      obtain ⟨permission, -, rfl⟩ := List.mem_map.1 hitem
      cases hp : permission.bind S.rolePermissionName <;> rw [hp] at ho' <;> cases ho'

theorem conforms_defaultRole (hC : AcceptedChain S C) (hfound : Found S C s) {domain : Domain}
    (hv : answerDomain S s.db now s.value domain .defaultRole = some v) :
    Conforms S C s (.domain domain) DomainField.defaultRole v := by
  obtain ⟨w, hw, rfl⟩ := Option.map_eq_some_iff.1 hv
  have hroles : rolesOf (.domain domain) DomainField.defaultRole = [domain.defaultRole] := rfl
  cases w with
  | none =>
    refine ⟨iff_of_false (fun hfits => hfits) ?_, fun o' ho' => by cases ho'⟩
    simp [hroles, hw]
  | some x =>
    obtain ⟨o, rfl, htype, ho⟩ := hfound.object hC hw
    refine ⟨iff_of_true ⟨htype, trivial⟩ ?_, fun o' ho' => by cases ho'; exact ho⟩
    simp [hroles, hw]

/-- What `s` is a state of: the database is that of the chain. -/
structure Present (S : Server Bytes) (C : Chain) (s : St P Bytes E) : Prop where
  since : s.request.since ≤ s.db.blockCount
  projected : applyBlocks S.wire .empty (upTo C s.db.blockCount) = .ok s.db

theorem conforms_query (hC : AcceptedChain S C) (hpresent : Present S C s) (hfound : Found S C s) {f : QueryField}
    (hv : answerQuery S s.db now s.value f = some v) : Conforms S C s .query f v := by
  have hroles : rolesOf .query f = [] := rfl
  -- a field that loads nothing is answered from the database of the moment
  have hnow : CleanLookup S s.db (alone now) f → resolveQuery S s.db (alone now) f = v →
      Conforms S C s .query f v := by
    intro hclean hv
    have hfits := fits_resolveQuery (hC.accepted hpresent.projected) (hC.domains _) (alone now) f hclean
    rw [hv] at hfits
    exact conforms_of_fits hroles
      (hfits.mono fun o' ho' => ⟨_, _, hpresent.since, Nat.le_refl _, hpresent.projected, ho'⟩)
  cases f with
  | blockByHeight | transactionByHash | accountById | peerByPublicKey | roleByName | domainById =>
    exact conforms_of_fits hroles (hfound.fits hC hv)
  | _ => exact hnow trivial (Option.some.inj hv)

theorem conforms_transaction (hC : AcceptedChain S C) (hfound : Found S C s) {transaction : TransactionObject}
    (ho : Past S C s (.transaction transaction)) {f : TransactionField}
    (hv : answerTransaction S s.db now s.value transaction f = some v) :
    Conforms S C s (.transaction transaction) f v := by
  have hroles : rolesOf (.transaction transaction) f = [] := rfl
  cases f with
  | createdBy =>
    obtain ⟨n, db, -, -, -, x, hx, htx⟩ := ho
    have hcreator := creatorIdOf_of_hasDomain (hC.domains n x hx)
    have hne : transaction.protobuf.payload.creatorAccountId ≠ "" := by
      intro hempty
      rw [← htx, creatorIdOf, if_pos hempty] at hcreator
      cases hcreator
    simp only [answerTransaction, if_neg hne] at hv
    have hfits : Fits Object.type (Past S C s) (.object .account) v := hfound.fits hC hv
    exact conforms_of_fits hroles hfits
  | _ =>
    cases hv
    exact conforms_plain hC ho hroles fun _ => ⟨trivial, rfl⟩

theorem conforms_account (hC : AcceptedChain S C) (hfound : Found S C s) {account : AccountRow}
    (ho : Past S C s (.account account)) {f : AccountField}
    (hv : answerAccount S s.db now s.value account f = some v) : Conforms S C s (.account account) f v := by
  cases f with
  | roles => exact conforms_roles hC hfound hv
  | permissions => exact conforms_permissions hC hfound hv
  | _ =>
    cases hv
    exact conforms_plain hC ho rfl fun _ => ⟨trivial, rfl⟩

theorem conforms_domain (hC : AcceptedChain S C) (hfound : Found S C s) {domain : Domain}
    (ho : Past S C s (.domain domain)) {f : DomainField}
    (hv : answerDomain S s.db now s.value domain f = some v) : Conforms S C s (.domain domain) f v := by
  cases f with
  | defaultRole => exact conforms_defaultRole hC hfound hv
  | id =>
    cases hv
    exact conforms_plain hC ho rfl fun _ => ⟨trivial, rfl⟩

/-- **What a resolver returns**, whatever was applied since the request began. -/
theorem answer_conforms (hC : AcceptedChain S C) (hpresent : Present S C s) (hfound : Found S C s)
    (ho : Past S C s o) {f : Field o.type} (hv : answer S s.db now s.value o f = some v) :
    Conforms S C s o f v := by
  cases o with
  | query => exact conforms_query hC hpresent hfound hv
  | transaction transaction => exact conforms_transaction hC hfound ho hv
  | account account => exact conforms_account hC hfound ho hv
  | domain domain => exact conforms_domain hC hfound ho hv
  | _ =>
    cases hv
    exact conforms_plain hC ho rfl fun _ => ⟨trivial, rfl⟩

end

end Explorer.Iroha.Requests
