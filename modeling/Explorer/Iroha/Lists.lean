import Explorer.Core.Paging
import Explorer.Iroha.Graphql

/-!
# The paged lists of `IrohaDb`

`blockList`, `transactionList`, `accountList` and the three lists made by
`makePagedList`. Each is one `SELECT` behind a cursor and the cursor for the
next request; they differ in the rule for that cursor. The index of the last
row is used for transactions and accounts, `after + items.length` for the
others.

A null, undefined or empty filter is no filter; instants are numbers.
-/
namespace Explorer.Iroha

variable {Bytes : Type}

structure PagedList (T : Type) where
  items : List T
  nextAfter : Nat

/-! ## Peers, roles, domains -/

/-- mirrors iroha/src/iroha-db.ts:314-328 -/
def makePagedList {Row T : Type} (index : Row → Nat) (fields : Row → T) (rows : List Row)
    (after : Option Nat) (count : Nat) : PagedList T :=
  let after := after.getD 0
  let items := (selectRows (fun row => after < index row) index count rows).map fields
  ⟨items, after + items.length⟩

/-- mirrors iroha/src/iroha-db.ts:45-53 -/
structure Peer where
  address : String
  publicKey : String
  deriving DecidableEq, Repr

structure Role where
  name : String
  permissions : List Nat
  deriving DecidableEq, Repr

def peerFields (row : PeerRow) : Peer := ⟨row.address, row.publicKey⟩
def roleFields (row : RoleRow) : Role := ⟨row.name, row.permissions⟩
def domainFields (row : DomainRow) : Domain := ⟨row.id, row.defaultRole⟩

/-- mirrors iroha/src/iroha-db.ts:396-398 -/
def peerList (db : Db Bytes) : Option Nat → Nat → PagedList Peer :=
  makePagedList PeerRow.index peerFields db.peer.rows

def roleList (db : Db Bytes) : Option Nat → Nat → PagedList Role :=
  makePagedList RoleRow.index roleFields db.role.rows

def domainList (db : Db Bytes) : Option Nat → Nat → PagedList Domain :=
  makePagedList DomainRow.index domainFields db.domain.rows

/-! ## Transactions -/

/-- The string, when it is truthy. -/
def truthy (s : Option String) : Option String := s.filter (· ≠ "")

/-- `timeAfter` is inclusive, `timeBefore` is not. -/
def inTimeRange (timeAfter timeBefore : Option Nat) (time : Nat) : Bool :=
  timeAfter.all (· ≤ time) && timeBefore.all (time < ·)

def transactionMatches (timeAfter timeBefore : Option Nat) (creatorId : Option String)
    (row : TransactionRow Bytes) : Bool :=
  inTimeRange timeAfter timeBefore row.time &&
    (truthy creatorId).all fun creatorId => row.creatorId = some creatorId

/-- mirrors iroha/src/iroha-db.ts:352-375 -/
def transactionList (W : Wire Bytes) (db : Db Bytes) (timeAfter timeBefore : Option Nat)
    (creatorId : Option String) (after : Option Nat) (count : Nat) :
    PagedList TransactionObject :=
  let after := after.getD 0
  let items := (selectRows
      (fun row => after < row.index && transactionMatches timeAfter timeBefore creatorId row)
      TransactionRow.index count db.transaction.rows).map
    fun row => parseTransaction W (some row.index) row
  ⟨items, (items.getLast?.bind TransactionObject.index).getD after⟩

/-! ## Accounts -/

/-- `LIKE` with the escape character `\`. -/
def like : List Char → List Char → Bool
  | [], text => text.isEmpty
  | c :: pattern, text =>
    if c = '%' then text.tails.any (like pattern)
    else if c = '_' then
      match text with
      | [] => false
      | _ :: text => like pattern text
    else if c = Json.backslash then
      match pattern, text with
      | d :: pattern, e :: text => d = e && like pattern text
      | _, _ => false
    else
      match text with
      | [] => false
      | e :: text => c = e && like pattern text

/-- The pattern `%…%` of an id; only `_` and `%` are escaped. -/
def idPattern (id : String) : List Char :=
  '%' :: ((id.toList.flatMap fun c => if c = '_' ∨ c = '%' then [Json.backslash, c] else [c]) ++ ['%'])

/-- `id ILIKE pattern`; `lower` is the lower case of the database's locale. -/
def accountMatches (lower : List Char → List Char) (id : Option String) (row : AccountRow) : Bool :=
  (truthy id).all fun id => like (lower (idPattern id)) (lower row.id.toList)

/-- mirrors iroha/src/iroha-db.ts:377-394 -/
def accountList (lower : List Char → List Char) (db : Db Bytes) (id : Option String)
    (after : Option Nat) (count : Nat) : PagedList AccountRow :=
  let after := after.getD 0
  let items := selectRows (fun row => after < row.index && accountMatches lower id row)
    AccountRow.index count db.account.rows
  ⟨items, (items.getLast?.map AccountRow.index).getD after⟩

example : like (idPattern "a_b") "xa_by".toList = true := by decide
example : like (idPattern "a_b") "xacby".toList = false := by decide

/-! ## Blocks -/

/-- mirrors iroha/src/iroha-db.ts:330-350 -/
def blockList (W : Wire Bytes) (db : Db Bytes) (timeAfter timeBefore : Option Nat)
    (reverse : Bool) (after : Option Nat) (count : Nat) : PagedList Block :=
  let after := after.getD (if reverse then 0x7FFFFFFF else 0)
  let rows := db.block.rows.filter fun row =>
    (if reverse then row.height < after else after < row.height) &&
      inTimeRange timeAfter timeBefore row.createdTime
  let sorted := if reverse then orderByDesc BlockRow.height rows else orderBy BlockRow.height rows
  let items := (sorted.take count).map (parseBlock W)
  ⟨items, after + items.length⟩

end Explorer.Iroha
