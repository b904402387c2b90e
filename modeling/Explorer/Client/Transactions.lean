import Explorer.Core.LTS
import Explorer.Iroha.Conformance
import Explorer.Iroha.CursorPaging

/-!
# The `Transactions` component of the client

Without a filter the component computes `after` from the page number. With one
it keeps a list of cursors, `pages`, to which `componentWillReceiveProps` adds
the `nextAfter` it is handed, if that is larger than the last one. A new filter
sets the list back, but the props that come before the answer to its refetch
still have the `nextAfter` of the answer before.

`vars` are the variables of the latest refetch; the props show them as they were
when the props came, so that `wholePaging` and the page size may be late as
well. Answers to earlier refetches are dropped; an answer comes with its props.
A null compares as 0. Instants are numbers.

* `transactionList_items`, `transactionList_nextAfter`: what a request returns.
* `inv_step`: what every event keeps, if no cursor comes from another list and
  a later page is asked for under the variables of the list.
* `transactions_shown`: the outcome, for every sequence of events.
-/
namespace Explorer.Client.Transactions

open Explorer.Iroha Explorer.Iroha.Graphql

variable {Bytes : Type}

/-! ## The component -/

/-- mirrors client/src/components/Lists/Transactions.js:84-93 -/
structure State where
  page : Nat
  pages : List (Option Nat)
  creatorId : Option String
  deriving DecidableEq, Repr

/-- The variables of the query. -/
structure Variables where
  after : Option Nat
  pageSize : Nat
  timeAfter : Option Nat
  timeBefore : Option Nat
  creatorId : Option String
  deriving DecidableEq, Repr

/-- mirrors client/src/components/Lists/Transactions.js:306-330 -/
structure Props where
  list : Option (PagedList TransactionObject)
  totalTransactionCount : Option Nat
  pageSize : Nat
  timeAfter : Option Nat
  timeBefore : Option Nat

def Props.nextAfter (p : Props) : Option Nat := p.list.map PagedList.nextAfter

structure St where
  state : State
  props : Props
  vars : Variables
  answered : Bool

/-- A null is less than every positive number. -/
def lessThan (a b : Option Nat) : Bool := a.getD 0 < b.getD 0

/-- `last(pages) < nextAfter`. -/
def State.behind (s : State) (nextAfter : Option Nat) : Bool := s.pages.getLast?.any fun c => lessThan c nextAfter

/-- mirrors client/src/components/Lists/Transactions.js:95-100 -/
def State.componentWillReceiveProps (s : State) (nextAfter : Option Nat) : State :=
  if s.behind nextAfter then { s with pages := s.pages ++ [nextAfter] } else s

/-- mirrors client/src/components/Lists/Transactions.js:147-153 -/
def St.wholePaging (s : St) : Bool :=
  s.props.timeAfter.isNone && s.props.timeBefore.isNone && s.state.creatorId.isNone

/-- mirrors client/src/components/Lists/Transactions.js:110-113 -/
def St.refetch (s : St) (vars : Variables) (state : State) : St where
  state := state
  props := s.props
  vars := vars
  answered := false

/-- mirrors client/src/components/Lists/Transactions.js:115-116 -/
def St.pageToAfter (s : St) (page pageSize : Nat) : Option Nat :=
  if s.wholePaging then some (page * pageSize) else (s.state.pages[page]?).join

/-- mirrors client/src/components/Lists/Transactions.js:118-127 -/
def St.onPageSizeChange (s : St) (pageSize page : Nat) : St :=
  if s.wholePaging then
    s.refetch { s.vars with after := s.pageToAfter page pageSize, pageSize := pageSize }
      { s.state with page := page }
  else
    s.refetch { s.vars with after := none, pageSize := pageSize } { s.state with page := 0, pages := [none] }

/-- mirrors client/src/components/Lists/Transactions.js:129-134 -/
def St.onPageChange (s : St) (page : Nat) : St :=
  s.refetch { s.vars with after := s.pageToAfter page s.props.pageSize } { s.state with page := page }

/-- mirrors client/src/components/Lists/Transactions.js:136-138 -/
def St.timeAfterOnChange (s : St) (value : Option Nat) : St :=
  s.refetch { s.vars with after := none, timeAfter := value } { s.state with page := 0, pages := [none] }

/-- mirrors client/src/components/Lists/Transactions.js:136-138 -/
def St.timeBeforeOnChange (s : St) (value : Option Nat) : St :=
  s.refetch { s.vars with after := none, timeBefore := value } { s.state with page := 0, pages := [none] }

/-- mirrors client/src/components/Lists/Transactions.js:140-145 -/
def St.creatorIdOnChange (s : St) (creatorId : Option String) : St :=
  s.refetch { s.vars with after := none, creatorId := creatorId }
    { page := 0, pages := [none], creatorId := creatorId }

/-- The number of pages that the table offers.
mirrors client/src/components/Lists/Transactions.js:239-245 -/
def St.pages (s : St) : Nat :=
  if s.wholePaging then
    match s.props.totalTransactionCount with
    | some totalTransactionCount => (totalTransactionCount + s.props.pageSize - 1) / s.props.pageSize
    | none => 1
  else s.state.pages.length

/-- New props, with the variables of the latest refetch. -/
def St.receive (s : St) (list : Option (PagedList TransactionObject)) (total : Option Nat) : St where
  state := s.state.componentWillReceiveProps (list.map PagedList.nextAfter)
  props := ⟨list, total, s.vars.pageSize, s.vars.timeAfter, s.vars.timeBefore⟩
  vars := s.vars
  answered := s.answered

/-! ## Events -/

inductive Ev where
  | onPageChange (page : Nat)
  | onPageSizeChange (pageSize : Nat)
  | timeAfterOnChange (value : Option Nat)
  | timeBeforeOnChange (value : Option Nat)
  | creatorIdOnChange (value : String)
  | receiveProps
  | answer
  deriving DecidableEq, Repr

section
variable (S : Server Bytes) (db : Db Bytes)

/-- The answer to the latest refetch. -/
def answer (v : Variables) : PagedList TransactionObject :=
  transactionList S.wire db v.timeAfter v.timeBefore v.creatorId v.after v.pageSize

/-- The table hands `onPageSizeChange` the page with the first row of the
current one. -/
def step (s : St) : Ev → Option St
  | .onPageChange page => if page < s.pages then some (s.onPageChange page) else none
  | .onPageSizeChange pageSize =>
    if 0 < pageSize then some (s.onPageSizeChange pageSize (s.state.page * s.props.pageSize / pageSize)) else none
  | .timeAfterOnChange value => some (s.timeAfterOnChange value)
  | .timeBeforeOnChange value => some (s.timeBeforeOnChange value)
  | .creatorIdOnChange value => some (s.creatorIdOnChange (truthy (some value)))
  | .receiveProps => some (s.receive s.props.list s.props.totalTransactionCount)
  | .answer =>
    if s.answered then none
    else some { s.receive (some (answer S db s.vars)) (some db.transaction.count) with answered := true }

def init : St where
  state := ⟨0, [none], none⟩
  props := ⟨none, none, 10, none, none⟩
  vars := ⟨none, 10, none, none, none⟩
  answered := false

def lts : LTS St Ev := LTS.ofFn (· = init) (step S db)

/-! ## The table -/

structure TableRow where
  txhash : String
  createdt : String
  creatorMspId : String
  deriving DecidableEq, Repr

/-- `createdBy.id` of something that is no account throws.
mirrors client/src/components/Lists/Transactions.js:316-320 -/
def tableRow (call : Call) (transaction : TransactionObject) : Option TableRow :=
  match resolveTransactionField S db call transaction .createdBy with
  | .object (.account account) =>
    some ⟨transactionHash S.wire transaction.protobuf, S.toISOString transaction.time, account.id⟩
  | _ => none

/-- mirrors client/src/components/Lists/Transactions.js:315-321 -/
def Props.transactionList (call : Call) (p : Props) : Option (List TableRow) :=
  match p.list with
  | some list => list.items.mapM (tableRow S db call)
  | none => some []

/-! ## The rows of a page -/

/-- The rows that match the filters, by index. -/
def matchingRows (v : Variables) : List (TransactionRow Bytes) :=
  (orderBy TransactionRow.index db.transaction.rows).filter
    (transactionMatches v.timeAfter v.timeBefore v.creatorId)

/-- What the table shows of a row. -/
def shownRow (row : TransactionRow Bytes) : TableRow :=
  let transaction := S.wire.transaction.deserializeBinary row.protobuf
  ⟨transactionHash S.wire transaction, S.toISOString row.time, transaction.payload.creatorAccountId⟩

/-- The indexes are 1..n, in any order. -/
def IndexesDense : Prop :=
  (db.transaction.rows.map TransactionRow.index).Perm (List.range' 1 db.transaction.rows.length)

/-- Every transaction has a creator account. -/
def CreatorsStored : Prop := ∀ row ∈ db.transaction.rows,
  (S.wire.transaction.deserializeBinary row.protobuf).payload.creatorAccountId ≠ "" ∧
    ∃ account ∈ db.account.rows,
      account.id = (S.wire.transaction.deserializeBinary row.protobuf).payload.creatorAccountId

end

def Variables.Whole (v : Variables) : Prop := v.timeAfter = none ∧ v.timeBefore = none ∧ v.creatorId = none

instance decidableWhole (v : Variables) : Decidable v.Whole := inferInstanceAs (Decidable (_ ∧ _ ∧ _))

/-- The props have the variables of the latest refetch. -/
def St.Current (s : St) : Prop :=
  s.props.pageSize = s.vars.pageSize ∧ s.props.timeAfter = s.vars.timeAfter ∧
    s.props.timeBefore = s.vars.timeBefore

instance decidableCurrent (s : St) : Decidable s.Current := inferInstanceAs (Decidable (_ ∧ _ ∧ _))

/-- Props that come before the answer add no cursor to the list of a filter,
and a page behind the first is asked for when the props have come. -/
def Settled (s : St) : Ev → Prop
  | .receiveProps => s.answered = true ∨ s.vars.Whole ∨ s.state.behind s.props.nextAfter = false
  | .onPageChange page => page = 0 ∨ s.Current
  | _ => True

instance decidableSettled (s : St) : (ev : Ev) → Decidable (Settled s ev)
  | .receiveProps => inferInstanceAs (Decidable (_ ∨ _ ∨ _))
  | .onPageChange _ => inferInstanceAs (Decidable (_ ∨ _))
  | .onPageSizeChange _ | .timeAfterOnChange _ | .timeBeforeOnChange _ | .creatorIdOnChange _ | .answer =>
    inferInstanceAs (Decidable True)

/-! ## Requests -/

def keys (db : Db Bytes) (v : Variables) : List Nat := (matchingRows db v).map TransactionRow.index

/-- What `after` has to be for a page. -/
def position (db : Db Bytes) (v : Variables) (page : Nat) : Nat :=
  if v.Whole then page * v.pageSize else cursor (keys db v) (page * v.pageSize)

@[simp] theorem position_zero (db : Db Bytes) (v : Variables) : position db v 0 = 0 := by
  unfold position
  split <;> simp

section
variable {S : Server Bytes} {db : Db Bytes}

theorem matchingRows_whole {v : Variables} (hv : v.Whole) :
    matchingRows db v = orderBy TransactionRow.index db.transaction.rows := by
  obtain ⟨hafter, hbefore, hcreator⟩ := hv
  unfold matchingRows
  rw [hafter, hbefore, hcreator]
  exact List.filter_eq_self.2 fun _ _ => rfl

theorem keys_sorted (hdb : IndexesDense db) (v : Variables) : (keys db v).Pairwise (· < ·) :=
  List.pairwise_map.2 ((numbered_orderBy hdb).sorted.sublist List.filter_sublist)

theorem position_filter (hdb : IndexesDense db) (v : Variables) (page : Nat) :
    (matchingRows db v).filter (fun row => position db v page < row.index) =
      (matchingRows db v).drop (page * v.pageSize) := by
  have hnum : Numbered TransactionRow.index (orderBy TransactionRow.index db.transaction.rows) :=
    numbered_orderBy hdb
  unfold position
  split
  · rename_i hv
    rw [matchingRows_whole hv]
    exact filter_numbered hnum _
  · have hsorted : (matchingRows db v).Pairwise fun a b => a.index < b.index :=
      hnum.sorted.sublist List.filter_sublist
    exact filter_cursor hsorted (fun row hrow => hnum.pos (List.mem_of_mem_filter hrow)) _

/-- **A request returns the rows of its page.** -/
theorem transactionList_items (hdb : IndexesDense db) {v : Variables} {page : Nat}
    (hafter : v.after.getD 0 = position db v page) :
    (answer S db v).items = (((matchingRows db v).drop (page * v.pageSize)).take v.pageSize).map
      fun row => parseTransaction S.wire (some row.index) row := by
  have hfilter : (orderBy TransactionRow.index db.transaction.rows).filter (fun row =>
      v.after.getD 0 < row.index && transactionMatches v.timeAfter v.timeBefore v.creatorId row) =
        (matchingRows db v).drop (page * v.pageSize) := by
    rw [← List.filter_filter, hafter]
    exact position_filter hdb v page
  show ((orderBy TransactionRow.index (db.transaction.rows.filter _)).take v.pageSize).map _ = _
  rw [orderBy_filter (numbered_orderBy hdb), hfilter]

/-- Under a filter the cursor behind the page. -/
theorem transactionList_nextAfter (hdb : IndexesDense db) {v : Variables} {page : Nat} (hv : ¬ v.Whole)
    (hafter : v.after.getD 0 = position db v page) :
    (answer S db v).nextAfter = cursor (keys db v) (page * v.pageSize + v.pageSize) := by
  have hitems := transactionList_items (S := S) hdb hafter
  rw [position, if_neg hv] at hafter
  show ((answer S db v).items.getLast?.bind TransactionObject.index).getD (v.after.getD 0) = _
  rw [hitems, last_index, hafter, List.map_take, List.map_drop]
  exact (cursor_next (keys db v) _ _).trans (cursor_page (keys db v) _ _)

/-! ## Events -/

def State.cursors (s : State) : List Nat := s.pages.map fun c => c.getD 0

/-- Props that are late about the filters find the list as it was set back. -/
structure Inv (S : Server Bytes) (db : Db Bytes) (s : St) : Prop where
  creator : s.state.creatorId = s.vars.creatorId
  late : ¬ (s.props.timeAfter = s.vars.timeAfter ∧ s.props.timeBefore = s.vars.timeBefore) →
    s.state.page = 0 ∧ s.state.pages = [none]
  first : s.state.pages[0]? = some none
  cursors : ¬ s.vars.Whole →
    Cursors (keys db s.vars) s.vars.pageSize s.state.cursors ∧ s.state.page < s.state.pages.length
  after : s.vars.after.getD 0 = position db s.vars s.state.page
  answered : s.answered = true → s.props.list = some (answer S db s.vars) ∧ s.Current

theorem wholePaging_iff {s : St} (hcreator : s.state.creatorId = s.vars.creatorId)
    (hafter : s.props.timeAfter = s.vars.timeAfter) (hbefore : s.props.timeBefore = s.vars.timeBefore) :
    s.wholePaging = true ↔ s.vars.Whole := by
  unfold St.wholePaging Variables.Whole
  rw [hcreator, hafter, hbefore, Bool.and_eq_true, Bool.and_eq_true, Option.isNone_iff_eq_none,
    Option.isNone_iff_eq_none, Option.isNone_iff_eq_none, and_assoc]

/-- The first page under whatever variables. -/
theorem inv_reset (s : St) {v : Variables} {creatorId : Option String} (hafter : v.after = none)
    (hcreator : creatorId = v.creatorId) : Inv S db (s.refetch v ⟨0, [none], creatorId⟩) where
  creator := hcreator
  late _ := ⟨rfl, rfl⟩
  first := rfl
  cursors _ := ⟨cursors_first _ _, Nat.one_pos⟩
  after := by
    show v.after.getD 0 = position db v 0
    rw [hafter, position_zero]
    rfl
  answered h := by cases h

theorem receive_eq (s : State) (nextAfter : Option Nat) :
    s.componentWillReceiveProps nextAfter = s ∨
      s.behind nextAfter = true ∧ s.componentWillReceiveProps nextAfter = { s with pages := s.pages ++ [nextAfter] } := by
  unfold State.componentWillReceiveProps
  by_cases h : s.behind nextAfter = true
  · exact .inr ⟨h, if_pos h⟩
  · exact .inl (if_neg h)

theorem receive_frame (s : State) (nextAfter : Option Nat) :
    (s.componentWillReceiveProps nextAfter).page = s.page ∧
      (s.componentWillReceiveProps nextAfter).creatorId = s.creatorId ∧
      s.pages <+: (s.componentWillReceiveProps nextAfter).pages := by
  rcases receive_eq s nextAfter with heq | ⟨-, heq⟩
  · rw [heq]
    exact ⟨rfl, rfl, List.prefix_rfl⟩
  · rw [heq]
    exact ⟨rfl, rfl, List.prefix_append _ _⟩

/-- The cursor of the next page, when the page was the last one. -/
theorem cursors_receive {keys : List Nat} {size : Nat} {s : State} (hs : keys.Pairwise (· < ·))
    (h : Cursors keys size s.cursors) (hpage : s.page < s.pages.length) :
    Cursors keys size (s.componentWillReceiveProps (some (cursor keys (s.page * size + size)))).cursors := by
  rcases receive_eq s (some (cursor keys (s.page * size + size))) with heq | ⟨hbehind, heq⟩
  · rw [heq]
    exact h
  · obtain ⟨last, hlast, hlt⟩ := (Option.any_eq_true _ _).1 hbehind
    have hlast' : s.cursors.getLast? = some (last.getD 0) := by
      rw [State.cursors, List.getLast?_map, hlast]
      rfl
    have hlen : s.page < s.cursors.length := by rwa [State.cursors, List.length_map]
    rw [heq, State.cursors, List.map_append]
    exact h.snoc hs hlen hlast' (of_decide_eq_true hlt)

/-- Props with the answer, or with nothing that is added to a list in use. -/
theorem inv_receive (hdb : IndexesDense db) {s : St} (h : Inv S db s) {list : Option (PagedList TransactionObject)}
    (total : Option Nat) {b : Bool} (hb : b = true → list = some (answer S db s.vars))
    (hlist : list = some (answer S db s.vars) ∨ s.vars.Whole ∨
      s.state.behind (list.map PagedList.nextAfter) = false) :
    Inv S db { s.receive list total with answered := b } := by
  obtain ⟨hpage, hcreator, hpages⟩ := receive_frame s.state (list.map PagedList.nextAfter)
  refine ⟨hcreator.trans h.creator, fun hlate => absurd ⟨rfl, rfl⟩ hlate, ?_, fun hv => ⟨?_, ?_⟩, ?_, ?_⟩
  · have hlen : 0 < s.state.pages.length := (List.getElem?_eq_some_iff.1 h.first).1
    rw [← h.first, List.getElem?_eq_getElem hlen]
    exact List.prefix_iff_getElem?.1 hpages 0 hlen
  · show Cursors (keys db s.vars) s.vars.pageSize
      (s.state.componentWillReceiveProps (list.map PagedList.nextAfter)).cursors
    obtain ⟨hcursors, hlt⟩ := h.cursors hv
    rcases hlist with rfl | hwhole | hbehind
    · have hnext : (answer S db s.vars).nextAfter = _ := transactionList_nextAfter hdb hv h.after
      rw [Option.map_some, hnext]
      exact cursors_receive (keys_sorted hdb _) hcursors hlt
    · exact absurd hwhole hv
    · rw [State.componentWillReceiveProps, hbehind]
      exact hcursors
  · show (s.state.componentWillReceiveProps _).page < (s.state.componentWillReceiveProps _).pages.length
    rw [hpage]
    exact Nat.lt_of_lt_of_le (h.cursors hv).2 hpages.length_le
  · show s.vars.after.getD 0 = position db s.vars (s.state.componentWillReceiveProps _).page
    rw [hpage]
    exact h.after
  · exact fun hans => ⟨hb hans, rfl, rfl, rfl⟩

/-- A page is asked for as the list of the latest variables numbers it. -/
theorem inv_onPageChange {s : St} (h : Inv S db s) {page : Nat} (hpage : page < s.pages)
    (hsettled : page = 0 ∨ s.Current) : Inv S db (s.onPageChange page) := by
  have hlt : ¬ s.vars.Whole → page < s.state.pages.length := by
    intro hv
    rcases hsettled with rfl | ⟨-, hafter, hbefore⟩
    · exact Nat.zero_lt_of_lt (h.cursors hv).2
    · have hwhole : s.wholePaging = false :=
        Bool.eq_false_iff.2 fun hw => hv ((wholePaging_iff h.creator hafter hbefore).1 hw)
      rw [St.pages, hwhole] at hpage
      exact hpage
  refine ⟨h.creator, fun hlate => ?_, h.first, fun hv => ⟨(h.cursors hv).1, hlt hv⟩, ?_, fun hans => by cases hans⟩
  · rcases hsettled with rfl | hcurrent
    · exact ⟨rfl, (h.late hlate).2⟩
    · exact absurd hcurrent.2 hlate
  · show (s.pageToAfter page s.props.pageSize).getD 0 = position db s.vars page
    rcases hsettled with rfl | ⟨hsize, hafter, hbefore⟩
    · rw [position_zero, St.pageToAfter, Nat.zero_mul, h.first]
      split <;> rfl
    · have hiff := wholePaging_iff h.creator hafter hbefore
      by_cases hv : s.vars.Whole
      · rw [St.pageToAfter, if_pos (hiff.2 hv), position, if_pos hv, hsize]
        rfl
      · have hlen : page < s.state.cursors.length := by
          rw [State.cursors, List.length_map]
          exact hlt hv
        rw [St.pageToAfter, if_neg (mt hiff.1 hv), position, if_neg hv, ← (h.cursors hv).1 page hlen]
        simp only [State.cursors, List.getElem_map, List.getElem?_eq_getElem (hlt hv), Option.join_some]

theorem inv_onPageSizeChange {s : St} (h : Inv S db s) (pageSize : Nat) :
    Inv S db (s.onPageSizeChange pageSize (s.state.page * s.props.pageSize / pageSize)) := by
  unfold St.onPageSizeChange
  by_cases hwhole : s.wholePaging = true
  · rw [if_pos hwhole]
    by_cases hlate : s.props.timeAfter = s.vars.timeAfter ∧ s.props.timeBefore = s.vars.timeBefore
    · have hv : s.vars.Whole := (wholePaging_iff h.creator hlate.1 hlate.2).1 hwhole
      refine ⟨h.creator, fun hn => absurd hlate hn, h.first, fun hn => absurd hv hn, ?_, fun hans => by cases hans⟩
      show (s.pageToAfter _ pageSize).getD 0 = if s.vars.Whole then _ else _
      rw [St.pageToAfter, if_pos hwhole, if_pos hv]
      rfl
    · -- the table is still on its first page
      obtain ⟨hpage, hpages⟩ := h.late hlate
      have hzero : s.state.page * s.props.pageSize / pageSize = 0 := by rw [hpage, Nat.zero_mul, Nat.zero_div]
      rw [hzero]
      refine ⟨h.creator, fun _ => ⟨rfl, hpages⟩, h.first, fun _ => ⟨?_, ?_⟩, ?_, fun hans => by cases hans⟩
      · show Cursors _ _ (s.state.pages.map _)
        rw [hpages]
        exact cursors_first _ _
      · show 0 < s.state.pages.length
        rw [hpages]
        exact Nat.one_pos
      · show (s.pageToAfter 0 pageSize).getD 0 = position db _ 0
        rw [St.pageToAfter, if_pos hwhole, Nat.zero_mul, position_zero]
        rfl
  · rw [if_neg hwhole]
    exact inv_reset s rfl h.creator

theorem inv_step (hdb : IndexesDense db) {s s' : St} {ev : Ev} (h : Inv S db s) (hsettled : Settled s ev)
    (hs : step S db s ev = some s') : Inv S db s' := by
  cases ev with
  | onPageChange page =>
    simp only [step, Option.ite_none_right_eq_some] at hs
    obtain ⟨hpage, hs⟩ := hs
    cases hs
    exact inv_onPageChange h hpage hsettled
  | onPageSizeChange pageSize =>
    simp only [step, Option.ite_none_right_eq_some] at hs
    obtain ⟨-, hs⟩ := hs
    cases hs
    exact inv_onPageSizeChange h pageSize
  | timeAfterOnChange value =>
    cases hs
    exact inv_reset s rfl h.creator
  | timeBeforeOnChange value =>
    cases hs
    exact inv_reset s rfl h.creator
  | creatorIdOnChange value =>
    cases hs
    exact inv_reset s rfl rfl
  | receiveProps =>
    cases hs
    exact inv_receive hdb h _ (fun hans => (h.answered hans).1) (hsettled.imp_left fun hans => (h.answered hans).1)
  | answer =>
    simp only [step, Option.ite_none_left_eq_some] at hs
    obtain ⟨-, hs⟩ := hs
    cases hs
    exact inv_receive hdb h _ (fun _ => rfl) (.inl rfl)

theorem inv_init : Inv S db init where
  creator := rfl
  late _ := ⟨rfl, rfl⟩
  first := rfl
  cursors _ := ⟨cursors_first _ _, Nat.one_pos⟩
  after := by
    show 0 = position db _ 0
    rw [position_zero]
  answered h := by cases h

/-! ## What is shown -/

theorem tableRow_parseTransaction (hcreators : CreatorsStored S db) (call : Call) {row : TransactionRow Bytes}
    (hrow : row ∈ db.transaction.rows) :
    tableRow S db call (parseTransaction S.wire (some row.index) row) = some (shownRow S row) := by
  obtain ⟨hne, account, hmem, hid⟩ := hcreators row hrow
  have hload : resolveTransactionField S db call (parseTransaction S.wire (some row.index) row) .createdBy =
      .object (.account account) := by
    have hif : resolveTransactionField S db call (parseTransaction S.wire (some row.index) row) .createdBy =
        load (accountLoader S db) call.accounts account.id := by
      rw [hid]
      exact if_neg hne
    rw [hif, load_account hmem]
  rw [tableRow, hload]
  show some (TableRow.mk _ _ account.id) = some (TableRow.mk _ _ _)
  rw [hid]
  rfl

/-- **The table shows the rows of its page.** In every run whose events are
`Settled`: when the latest refetch is answered, page `p` of size `s` shows the
rows from `p * s` on that match the filters, at most `s` of them. -/
theorem transactions_shown (S : Server Bytes) (db : Db Bytes) (hdb : IndexesDense db)
    (hcreators : CreatorsStored S db) (call : Call) (s : St) (hr : ((lts S db).restrict Settled).Reachable s)
    (hanswered : s.answered = true) :
    s.props.transactionList S db call =
      some ((((matchingRows db s.vars).drop (s.state.page * s.vars.pageSize)).take s.vars.pageSize).map
        (shownRow S)) := by
  obtain ⟨s₀, evs, rfl, hrun⟩ := hr
  have hstep : ∀ s ev s', Inv S db s → ((lts S db).restrict Settled).step s ev s' → Inv S db s' :=
    fun _ _ _ h hs => inv_step hdb h hs.1 hs.2
  have hinv : Inv S db s := hrun.keeps hstep inv_init
  obtain ⟨hlist, -⟩ := hinv.answered hanswered
  rw [Props.transactionList, hlist]
  show (answer S db s.vars).items.mapM (tableRow S db call) = _
  rw [transactionList_items hdb hinv.after, List.mapM_map]
  refine mapM_eq_some fun row hrow => tableRow_parseTransaction hcreators call ?_
  have hmatching : row ∈ matchingRows db s.vars := List.mem_of_mem_drop (List.mem_of_mem_take hrow)
  exact (List.mem_insertionSort _).1 (List.mem_of_mem_filter hmatching)

end

/-! ## Two visits -/

/-- Transaction 2 is not alice's. -/
def creatorOf (index : Nat) : String := if index = 2 then "bob@d" else "alice@d"

def transactionOf (index : Nat) : TransactionRow (Block ⊕ Transaction) :=
  ⟨.inr ⟨⟨creatorOf index, index, 1, []⟩, []⟩, index, toString index, some (creatorOf index), some "d", 1, index⟩

def fourTransactions : Db (Block ⊕ Transaction) :=
  { Db.empty with
    transaction := ⟨[1, 2, 3, 4].map transactionOf, by decide +kernel⟩
    account := ⟨[⟨1, "alice@d", 1, [], []⟩, ⟨2, "bob@d", 1, [], []⟩], by decide +kernel⟩ }

def noOthers : Call := ⟨0, [], [], [], [], [], []⟩

theorem indexesDense_fourTransactions : IndexesDense fourTransactions := by
  rw [IndexesDense]
  decide +kernel

theorem creatorsStored_fourTransactions : CreatorsStored node fourTransactions := by
  rw [CreatorsStored]
  decide +kernel

/-- Pages of one row: the third of all, then the second of alice's. -/
def pageByPage : List Ev :=
  [.answer, .onPageSizeChange 1, .answer, .onPageChange 2, .answer, .creatorIdOnChange "alice@d", .answer,
    .receiveProps, .onPageChange 1, .answer]

theorem transactions_shown_pageByPage :
    ∃ s, (lts node fourTransactions).Reachable s ∧ s.state.page = 1 ∧ s.vars.creatorId = some "alice@d" ∧
      s.props.transactionList node fourTransactions noOthers = some [shownRow node (transactionOf 3)] := by
  have hrun : (LTS.exec (LTS.guarded Settled (step node fourTransactions)) init pageByPage).map
      (fun s => (s.answered, s.state.page, s.vars)) = some (true, 1, ⟨some 1, 1, none, none, some "alice@d"⟩) := by
    decide +kernel
  obtain ⟨s, hs, hend⟩ := Option.map_eq_some_iff.1 hrun
  obtain ⟨hanswered, hpage, hvars⟩ : s.answered = true ∧ s.state.page = 1 ∧
      s.vars = ⟨some 1, 1, none, none, some "alice@d"⟩ := by simpa using hend
  have hreach : ((lts node fourTransactions).restrict Settled).Reachable s := LTS.restrict_reachable_of_exec rfl hs
  have hshown := transactions_shown node fourTransactions indexesDense_fourTransactions
    creatorsStored_fourTransactions noOthers s hreach hanswered
  obtain ⟨s₀, evs, h₀, hr⟩ := hreach
  refine ⟨s, ⟨s₀, evs, h₀, hr.of_restrict⟩, hpage, congrArg Variables.creatorId hvars, ?_⟩
  rw [hshown, hpage, hvars]
  decide +kernel

/-- The props come once more between the filter and its answer: they bring the
cursor 3 of the third page of all. -/
def lateProps : List Ev :=
  [.answer, .onPageSizeChange 1, .answer, .onPageChange 2, .answer, .creatorIdOnChange "alice@d", .receiveProps,
    .answer, .onPageChange 1, .answer]

theorem transactions_shown_lateProps :
    IndexesDense fourTransactions ∧ CreatorsStored node fourTransactions ∧
      ∃ s, (lts node fourTransactions).Reachable s ∧ s.answered = true ∧
        s.state = ⟨1, [none, some 3, some 4], some "alice@d"⟩ ∧
        s.props.transactionList node fourTransactions noOthers = some [shownRow node (transactionOf 4)] ∧
        (((matchingRows fourTransactions s.vars).drop (s.state.page * s.vars.pageSize)).take s.vars.pageSize).map
          (shownRow node) = [shownRow node (transactionOf 3)] := by
  refine ⟨indexesDense_fourTransactions, creatorsStored_fourTransactions, ?_⟩
  have hrun : (LTS.exec (step node fourTransactions) init lateProps).map (fun s => (s.answered, s.state,
      s.props.transactionList node fourTransactions noOthers,
      (((matchingRows fourTransactions s.vars).drop (s.state.page * s.vars.pageSize)).take s.vars.pageSize).map
        (shownRow node))) =
      some (true, ⟨1, [none, some 3, some 4], some "alice@d"⟩, some [shownRow node (transactionOf 4)],
        [shownRow node (transactionOf 3)]) := by
    decide +kernel
  obtain ⟨s, hs, hend⟩ := Option.map_eq_some_iff.1 hrun
  simp only [Prod.mk.injEq] at hend
  exact ⟨s, LTS.reachable_of_exec rfl hs, hend⟩

end Explorer.Client.Transactions
