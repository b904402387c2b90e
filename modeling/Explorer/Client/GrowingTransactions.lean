import Explorer.Client.Transactions
import Explorer.Iroha.Growth

/-!
# The `Transactions` component over a growing table

In `Transactions` the table stands still. Here the explorer goes on applying
blocks while somebody pages through it, and the two fields of a query are read
at moments of their own (`Live`). Under a filter a page that was short when its
cursor was kept is filled up later, and the next page overlaps it: that the
pages are right, as `transactions_shown` says of a table that stands still, is
lost. What is kept is that nothing is left out.

* `LiveInv`: what every event and every block keeps.
* `transactions_not_skipped`: what is shown is a page of the table as it was,
  and every matching row is on a page on offer, or behind a last one that is
  full.
-/
namespace Explorer.Client.Transactions

open Explorer.Iroha Explorer.Iroha.Graphql

variable {Bytes : Type}

/-- `list` and `total` are what the fields of the latest refetch have read. -/
structure Live (Bytes : Type) where
  client : St
  db : Db Bytes
  list : Option (PagedList TransactionObject)
  total : Option Nat

inductive LiveEv where
  | client (ev : Ev)
  | applyBlock (block : Block)
  | readList
  | readTotal
  | answer
  deriving DecidableEq, Repr

section
variable (S : Server Bytes)

/-- A refetch drops what was read for the one before. -/
def liveStep (s : Live Bytes) : LiveEv → Option (Live Bytes)
  | .client .answer => none
  | .client .receiveProps => (step S s.db s.client .receiveProps).map fun client => { s with client := client }
  | .client ev => (step S s.db s.client ev).map fun client => ⟨client, s.db, none, none⟩
  | .applyBlock block =>
    match applyBlock S.wire s.db block with
    | .ok db => some { s with db := db }
    | .error _ => some s
  | .readList => some { s with list := some (answer S s.db s.client.vars) }
  | .readTotal => some { s with total := some s.db.transaction.count }
  | .answer =>
    match s.client.answered, s.list, s.total with
    | false, some list, some total =>
      some { s with client := { s.client.receive (some list) (some total) with answered := true } }
    | _, _, _ => none

/-- The table of a database that `applyBlock` can reach is opened. -/
def LiveInit (s : Live Bytes) : Prop :=
  ∃ blocks, applyBlocks S.wire .empty blocks = .ok s.db ∧ s = ⟨init, s.db, none, none⟩

def live : LTS (Live Bytes) LiveEv := LTS.ofFn (LiveInit S) (liveStep S)

/-- What the answer would list if the page were asked for now. -/
def St.pageItems (db : Db Bytes) (s : St) (page : Nat) : List TransactionObject :=
  (answer S db (s.onPageChange page).vars).items

end

/-- As in a table that stands still. -/
def LiveSettled (s : Live Bytes) : LiveEv → Prop
  | .client ev => Settled s.client ev
  | _ => True

instance decidableLiveSettled (s : Live Bytes) : (ev : LiveEv) → Decidable (LiveSettled s ev)
  | .client ev => decidableSettled s.client ev
  | .applyBlock _ | .readList | .readTotal | .answer => inferInstanceAs (Decidable True)

/-! ## Requests -/

/-- `after` for a page, under the variables of the latest refetch. -/
def startOf (v : Variables) (pages : List (Option Nat)) (page : Nat) : Nat :=
  if v.Whole then page * v.pageSize else ((pages[page]?).join).getD 0

@[simp] theorem startOf_zero {v : Variables} {pages : List (Option Nat)} (h : pages[0]? = some none) :
    startOf v pages 0 = 0 := by
  unfold startOf
  split
  · exact Nat.zero_mul _
  · rw [h]
    rfl

section
variable {S : Server Bytes} {db : Db Bytes}

theorem matchingRows_eq (hdb : Indexed db) (v : Variables) :
    matchingRows db v = db.transaction.rows.filter (transactionMatches v.timeAfter v.timeBefore v.creatorId) := by
  rw [matchingRows, orderBy_of_sorted hdb.transaction.sorted]

theorem matchingRows_sorted (hdb : Indexed db) (v : Variables) :
    (matchingRows db v).Pairwise fun a b => a.index < b.index := by
  rw [matchingRows_eq hdb]
  exact hdb.transaction.sorted.sublist List.filter_sublist

theorem matchingRows_grow {db₀ : Db Bytes} (h₀ : Indexed db₀) (hdb : Indexed db)
    (h : db₀.transaction.rows <+: db.transaction.rows) (v : Variables) :
    matchingRows db₀ v <+: matchingRows db v := by
  rw [matchingRows_eq h₀, matchingRows_eq hdb]
  exact h.filter _

/-- **An answer lists the matching rows behind `after`**, and the cursor behind
them. -/
theorem answer_eq (hdb : Indexed db) (v : Variables) :
    (answer S db v).items = (pageBehind TransactionRow.index (matchingRows db v) v.pageSize (v.after.getD 0)).map
        (fun row => parseTransaction S.wire (some row.index) row) ∧
      (answer S db v).nextAfter =
        cursorBehind TransactionRow.index (matchingRows db v) v.pageSize (v.after.getD 0) := by
  have hitems : (answer S db v).items =
      (pageBehind TransactionRow.index (matchingRows db v) v.pageSize (v.after.getD 0)).map
        (fun row => parseTransaction S.wire (some row.index) row) := by
    show ((orderBy TransactionRow.index (db.transaction.rows.filter _)).take v.pageSize).map _ = _
    have hsorted := orderBy_of_sorted hdb.transaction.sorted
    have hnum : Numbered TransactionRow.index (orderBy TransactionRow.index db.transaction.rows) := by
      rw [hsorted]
      exact hdb.transaction
    rw [orderBy_filter hnum, pageBehind, matchingRows, List.filter_filter]
  refine ⟨hitems, ?_⟩
  show ((answer S db v).items.getLast?.bind TransactionObject.index).getD (v.after.getD 0) = _
  rw [hitems, last_index]
  rfl

end

/-! ## Events -/

section
variable {S : Server Bytes}

/-- What the same refetch has read from the table as it was. -/
def Read (S : Server Bytes) (db : Db Bytes) (v : Variables) (list : PagedList TransactionObject) : Prop :=
  ∃ db₀, Indexed db₀ ∧ db₀.transaction.rows <+: db.transaction.rows ∧ list = answer S db₀ v

structure LiveInv (S : Server Bytes) (s : Live Bytes) : Prop where
  reached : ∃ blocks, applyBlocks S.wire .empty blocks = .ok s.db
  size : 0 < s.client.vars.pageSize
  creator : s.client.state.creatorId = s.client.vars.creatorId
  late : ¬ (s.client.props.timeAfter = s.client.vars.timeAfter ∧
      s.client.props.timeBefore = s.client.vars.timeBefore) →
    s.client.state.page = 0 ∧ s.client.state.pages = [none]
  first : s.client.state.pages[0]? = some none
  windows : ¬ s.client.vars.Whole →
    Windows TransactionRow.index (matchingRows s.db s.client.vars) s.client.vars.pageSize s.client.state.cursors ∧
      s.client.state.page < s.client.state.pages.length
  after : s.client.vars.after.getD 0 = startOf s.client.vars s.client.state.pages s.client.state.page
  list : ∀ list, s.list = some list → Read S s.db s.client.vars list
  answered : s.client.answered = true →
    s.client.Current ∧ ∃ list, s.client.props.list = some list ∧ Read S s.db s.client.vars list

theorem LiveInv.indexed {s : Live Bytes} (h : LiveInv S s) : Indexed s.db := by
  obtain ⟨blocks, hblocks⟩ := h.reached
  exact indexed_of_applyBlocks hblocks

/-- The cursor of the page that is shown. -/
theorem LiveInv.cursor {s : Live Bytes} (h : LiveInv S s) (hv : ¬ s.client.vars.Whole) :
    s.client.state.cursors[s.client.state.page]? = some (s.client.vars.after.getD 0) := by
  rw [h.after, startOf, if_neg hv, State.cursors, List.getElem?_map, List.getElem?_eq_getElem (h.windows hv).2]
  rfl

theorem read_grow {db db' : Db Bytes} {v : Variables} {list : PagedList TransactionObject}
    (hgrow : db.transaction.rows <+: db'.transaction.rows) (h : Read S db v list) : Read S db' v list := by
  obtain ⟨db₀, h₀, hpre, hlist⟩ := h
  exact ⟨db₀, h₀, hpre.trans hgrow, hlist⟩

/-- The first page under whatever variables. -/
theorem liveInv_reset {s : Live Bytes} (h : LiveInv S s) {v : Variables} {creatorId : Option String}
    (hafter : v.after = none) (hcreator : creatorId = v.creatorId) (hsize : 0 < v.pageSize) :
    LiveInv S ⟨s.client.refetch v ⟨0, [none], creatorId⟩, s.db, none, none⟩ where
  reached := h.reached
  size := hsize
  creator := hcreator
  late _ := ⟨rfl, rfl⟩
  first := rfl
  windows _ := ⟨windows_first _ _ _, Nat.one_pos⟩
  after := by
    show v.after.getD 0 = startOf v [none] 0
    rw [hafter, startOf_zero rfl]
    rfl
  list _ hl := by cases hl
  answered hans := by cases hans

/-- The cursor behind the page is added to the list. -/
theorem windows_receive {rows₀ rows : List (TransactionRow Bytes)} {size c : Nat} {s : State}
    (hs : rows.Pairwise fun a b => a.index < b.index) (hpre : rows₀ <+: rows)
    (h : Windows TransactionRow.index rows size s.cursors) (hc : s.cursors[s.page]? = some c) :
    Windows TransactionRow.index rows size
      (s.componentWillReceiveProps (some (cursorBehind TransactionRow.index rows₀ size c))).cursors := by
  rcases receive_eq s (some (cursorBehind TransactionRow.index rows₀ size c)) with heq | ⟨hbehind, heq⟩
  · rw [heq]
    exact h
  · obtain ⟨last, hlast, hlt⟩ := (Option.any_eq_true _ _).1 hbehind
    have hlast' : s.cursors.getLast? = some (last.getD 0) := by
      rw [State.cursors, List.getLast?_map, hlast]
      rfl
    rw [heq, State.cursors, List.map_append]
    exact h.snoc hs hpre hc hlast' (of_decide_eq_true hlt)

/-- Props with what the refetch has read, or with nothing that is added to a
list in use. -/
theorem liveInv_receive {s : Live Bytes} (h : LiveInv S s) {list : Option (PagedList TransactionObject)}
    (total : Option Nat) {b : Bool}
    (hb : b = true → ∃ l, list = some l ∧ Read S s.db s.client.vars l)
    (hlist : (∃ l, list = some l ∧ Read S s.db s.client.vars l) ∨ s.client.vars.Whole ∨
      s.client.state.behind (list.map PagedList.nextAfter) = false) :
    LiveInv S { s with client := { s.client.receive list total with answered := b } } := by
  obtain ⟨hpage, hcreator, hpages⟩ := receive_frame s.client.state (list.map PagedList.nextAfter)
  have hkept : ∀ {page : Nat} {c : Option Nat}, s.client.state.pages[page]? = some c →
      (s.client.state.componentWillReceiveProps (list.map PagedList.nextAfter)).pages[page]? = some c := by
    intro page c hget
    obtain ⟨hlen, rfl⟩ := List.getElem?_eq_some_iff.1 hget
    exact List.prefix_iff_getElem?.1 hpages page hlen
  refine ⟨h.reached, h.size, hcreator.trans h.creator, fun hlate => absurd ⟨rfl, rfl⟩ hlate, hkept h.first,
    fun hv => ⟨?_, ?_⟩, ?_, h.list, fun hans => ⟨⟨rfl, rfl, rfl⟩, hb hans⟩⟩
  · show Windows _ (matchingRows s.db s.client.vars) s.client.vars.pageSize
      (s.client.state.componentWillReceiveProps (list.map PagedList.nextAfter)).cursors
    rcases hlist with ⟨l, rfl, db₀, h₀, hgrow, rfl⟩ | hwhole | hbehind
    · rw [Option.map_some, (answer_eq h₀ s.client.vars).2]
      exact windows_receive (matchingRows_sorted h.indexed _) (matchingRows_grow h₀ h.indexed hgrow _)
        (h.windows hv).1 (h.cursor hv)
    · exact absurd hwhole hv
    · rw [State.componentWillReceiveProps, hbehind]
      exact (h.windows hv).1
  · show (s.client.state.componentWillReceiveProps _).page < (s.client.state.componentWillReceiveProps _).pages.length
    rw [hpage]
    exact Nat.lt_of_lt_of_le (h.windows hv).2 hpages.length_le
  · show s.client.vars.after.getD 0 = startOf s.client.vars
      (s.client.state.componentWillReceiveProps _).pages (s.client.state.componentWillReceiveProps _).page
    rw [hpage, h.after]
    unfold startOf
    split
    · rfl
    · rename_i hv
      have hget := List.getElem?_eq_getElem (h.windows hv).2
      rw [hget, hkept hget]

/-- The component and the latest refetch agree on where a page starts. -/
theorem LiveInv.pageToAfter {s : Live Bytes} (h : LiveInv S s) (hcurrent : s.client.Current) (page : Nat) :
    (s.client.pageToAfter page s.client.props.pageSize).getD 0 = startOf s.client.vars s.client.state.pages page := by
  obtain ⟨hsize, hafter, hbefore⟩ := hcurrent
  have hiff := wholePaging_iff h.creator hafter hbefore
  by_cases hv : s.client.vars.Whole
  · rw [St.pageToAfter, if_pos (hiff.2 hv), startOf, if_pos hv, hsize]
    rfl
  · rw [St.pageToAfter, if_neg (mt hiff.1 hv), startOf, if_neg hv]

/-- A page is asked for as the list of the latest variables has it. -/
theorem liveInv_onPageChange {s : Live Bytes} (h : LiveInv S s) {page : Nat} (hpage : page < s.client.pages)
    (hsettled : page = 0 ∨ s.client.Current) :
    LiveInv S ⟨s.client.onPageChange page, s.db, none, none⟩ := by
  refine ⟨h.reached, h.size, h.creator, fun hlate => ?_, h.first, fun hv => ⟨(h.windows hv).1, ?_⟩, ?_,
    fun _ hl => absurd hl (Option.some_ne_none _).symm, fun hans => by cases hans⟩
  · rcases hsettled with rfl | hcurrent
    · exact ⟨rfl, (h.late hlate).2⟩
    · exact absurd hcurrent.2 hlate
  · rcases hsettled with rfl | ⟨-, hafter, hbefore⟩
    · exact Nat.zero_lt_of_lt (h.windows hv).2
    · have hwhole : s.client.wholePaging = false :=
        Bool.eq_false_iff.2 fun hw => hv ((wholePaging_iff h.creator hafter hbefore).1 hw)
      rw [St.pages, hwhole] at hpage
      exact hpage
  · show (s.client.pageToAfter page s.client.props.pageSize).getD 0 = startOf s.client.vars s.client.state.pages page
    rcases hsettled with rfl | hcurrent
    · rw [startOf_zero h.first, St.pageToAfter, Nat.zero_mul, h.first]
      split <;> rfl
    · exact h.pageToAfter hcurrent page

theorem liveInv_onPageSizeChange {s : Live Bytes} (h : LiveInv S s) {pageSize : Nat} (hsize : 0 < pageSize) :
    LiveInv S ⟨s.client.onPageSizeChange pageSize (s.client.state.page * s.client.props.pageSize / pageSize), s.db,
      none, none⟩ := by
  unfold St.onPageSizeChange
  by_cases hwhole : s.client.wholePaging = true
  · rw [if_pos hwhole]
    by_cases hlate : s.client.props.timeAfter = s.client.vars.timeAfter ∧
        s.client.props.timeBefore = s.client.vars.timeBefore
    · have hv : s.client.vars.Whole := (wholePaging_iff h.creator hlate.1 hlate.2).1 hwhole
      refine ⟨h.reached, hsize, h.creator, fun hn => absurd hlate hn, h.first, fun hn => absurd hv hn, ?_,
        fun _ hl => absurd hl (Option.some_ne_none _).symm, fun hans => by cases hans⟩
      show (s.client.pageToAfter _ pageSize).getD 0 = if s.client.vars.Whole then _ else _
      rw [St.pageToAfter, if_pos hwhole, if_pos hv]
      rfl
    · -- the table is still on its first page
      obtain ⟨hpage, hpages⟩ := h.late hlate
      have hzero : s.client.state.page * s.client.props.pageSize / pageSize = 0 := by
        rw [hpage, Nat.zero_mul, Nat.zero_div]
      rw [hzero]
      refine ⟨h.reached, hsize, h.creator, fun _ => ⟨rfl, hpages⟩, h.first, fun _ => ⟨?_, ?_⟩, ?_,
        fun _ hl => absurd hl (Option.some_ne_none _).symm, fun hans => by cases hans⟩
      · show Windows _ _ _ (s.client.state.pages.map _)
        rw [hpages]
        exact windows_first _ _ _
      · show 0 < s.client.state.pages.length
        rw [hpages]
        exact Nat.one_pos
      · show (s.client.pageToAfter 0 pageSize).getD 0 = startOf _ s.client.state.pages 0
        rw [St.pageToAfter, if_pos hwhole, Nat.zero_mul, startOf_zero h.first]
        rfl
  · rw [if_neg hwhole]
    exact liveInv_reset h rfl h.creator hsize

/-- A block adds rows behind the others. -/
theorem liveInv_applyBlock {s : Live Bytes} (h : LiveInv S s) {block : Block} {db : Db Bytes}
    (hb : applyBlock S.wire s.db block = .ok db) : LiveInv S { s with db := db } := by
  obtain ⟨blocks, hblocks⟩ := h.reached
  have hreached := applyBlocks_snoc hblocks hb
  have hdb : Indexed db := indexed_of_applyBlocks hreached
  have hgrow := (applyBlock_grows hb).1
  have hrows := matchingRows_grow h.indexed hdb hgrow s.client.vars
  refine ⟨⟨_, hreached⟩, h.size, h.creator, h.late, h.first, fun hv => ?_, h.after,
    fun list hl => read_grow hgrow (h.list list hl), fun hans => ?_⟩
  · obtain ⟨hwindows, hpage⟩ := h.windows hv
    exact ⟨hwindows.grow (matchingRows_sorted hdb _) hrows, hpage⟩
  · obtain ⟨hcurrent, list, hlist, hread⟩ := h.answered hans
    exact ⟨hcurrent, list, hlist, read_grow hgrow hread⟩

theorem liveInv_step {s s' : Live Bytes} {ev : LiveEv} (h : LiveInv S s) (hsettled : LiveSettled s ev)
    (hs : liveStep S s ev = some s') : LiveInv S s' := by
  cases ev with
  | client ev =>
    cases ev with
    | onPageChange page =>
      obtain ⟨client, hclient, rfl⟩ := Option.map_eq_some_iff.1 hs
      obtain ⟨hpage, hclient⟩ := Option.ite_none_right_eq_some.1 hclient
      cases hclient
      exact liveInv_onPageChange h hpage hsettled
    | onPageSizeChange pageSize =>
      obtain ⟨client, hclient, rfl⟩ := Option.map_eq_some_iff.1 hs
      obtain ⟨hsize, hclient⟩ := Option.ite_none_right_eq_some.1 hclient
      cases hclient
      exact liveInv_onPageSizeChange h hsize
    | timeAfterOnChange value | timeBeforeOnChange value =>
      cases hs
      exact liveInv_reset h rfl h.creator h.size
    | creatorIdOnChange value =>
      cases hs
      exact liveInv_reset h rfl rfl h.size
    | receiveProps =>
      cases hs
      have hread : s.client.answered = true → ∃ l, s.client.props.list = some l ∧ Read S s.db s.client.vars l :=
        fun hans => (h.answered hans).2
      exact liveInv_receive h _ hread (hsettled.imp_left hread)
    | answer => cases hs
  | applyBlock block =>
    rw [liveStep] at hs
    split at hs
    · rename_i db hb
      cases hs
      exact liveInv_applyBlock h hb
    · cases hs
      exact h
  | readList =>
    cases hs
    refine ⟨h.reached, h.size, h.creator, h.late, h.first, h.windows, h.after, fun list hl => ?_, h.answered⟩
    cases hl
    exact ⟨s.db, h.indexed, List.prefix_rfl, rfl⟩
  | readTotal =>
    cases hs
    exact ⟨h.reached, h.size, h.creator, h.late, h.first, h.windows, h.after, h.list, h.answered⟩
  | answer =>
    rw [liveStep] at hs
    split at hs
    · rename_i list total hanswered hlist htotal
      cases hs
      have hread : ∃ l, some list = some l ∧ Read S s.db s.client.vars l := ⟨list, rfl, h.list list hlist⟩
      exact liveInv_receive h _ (fun _ => hread) (.inl hread)
    · cases hs

theorem liveInv_init {s : Live Bytes} (hs : LiveInit S s) : LiveInv S s := by
  obtain ⟨blocks, hblocks, heq⟩ := hs
  rw [heq]
  exact ⟨⟨blocks, hblocks⟩, Nat.succ_pos 9, rfl, fun _ => ⟨rfl, rfl⟩, rfl,
    fun _ => ⟨windows_first _ _ _, Nat.one_pos⟩, (startOf_zero rfl).symm, fun _ hl => absurd hl (Option.some_ne_none _).symm,
    fun hans => by cases hans⟩

theorem liveInv_inductive : ((live S).restrict LiveSettled).Inductive (LiveInv S) where
  init _ hs := liveInv_init hs
  step _ _ _ h hs := liveInv_step h hs.1 hs.2

/-! ## Nothing is left out -/

theorem LiveInv.pageItems {s : Live Bytes} (h : LiveInv S s) (hcurrent : s.client.Current) {db : Db Bytes}
    (hdb : Indexed db) (page : Nat) :
    s.client.pageItems S db page = (pageBehind TransactionRow.index (matchingRows db s.client.vars)
      s.client.vars.pageSize (startOf s.client.vars s.client.state.pages page)).map
        (fun row => parseTransaction S.wire (some row.index) row) := by
  rw [St.pageItems, (answer_eq hdb _).1, ← h.pageToAfter hcurrent page]
  rfl

/-- Every matching row is on a page on offer, or the last one is full before
it. -/
theorem LiveInv.offered {s : Live Bytes} (h : LiveInv S s) (hcurrent : s.client.Current) :
    ∀ row ∈ matchingRows s.db s.client.vars, ∃ page ≤ s.client.pages - 1,
      row ∈ pageBehind TransactionRow.index (matchingRows s.db s.client.vars) s.client.vars.pageSize
          (startOf s.client.vars s.client.state.pages page) ∨
        page = s.client.pages - 1 ∧
          (pageBehind TransactionRow.index (matchingRows s.db s.client.vars) s.client.vars.pageSize
            (startOf s.client.vars s.client.state.pages page)).length = s.client.vars.pageSize ∧
          ∀ r ∈ pageBehind TransactionRow.index (matchingRows s.db s.client.vars) s.client.vars.pageSize
            (startOf s.client.vars s.client.state.pages page), r.index < row.index := by
  intro row hrow
  have hsorted := matchingRows_sorted h.indexed s.client.vars
  have hiff := wholePaging_iff h.creator hcurrent.2.1 hcurrent.2.2
  by_cases hv : s.client.vars.Whole
  · have hnum : Numbered TransactionRow.index (matchingRows s.db s.client.vars) := by
      rw [matchingRows_whole hv, orderBy_of_sorted h.indexed.transaction.sorted]
      exact h.indexed.transaction
    have hpos := hnum.pos hrow
    have hown := mem_pageBehind_numbered hnum hrow h.size
    by_cases hpage : (row.index - 1) / s.client.vars.pageSize ≤ s.client.pages - 1
    · refine ⟨(row.index - 1) / s.client.vars.pageSize, hpage, .inl ?_⟩
      rw [startOf, if_pos hv]
      exact hown
    · refine ⟨s.client.pages - 1, Nat.le_refl _, ?_⟩
      have hmul : (s.client.pages - 1) * s.client.vars.pageSize ≤
          (row.index - 1) / s.client.vars.pageSize * s.client.vars.pageSize := Nat.mul_le_mul_right _ (by omega)
      have hdiv := Nat.div_mul_le_self (row.index - 1) s.client.vars.pageSize
      have hbefore : startOf s.client.vars s.client.state.pages (s.client.pages - 1) < row.index := by
        rw [startOf, if_pos hv]
        omega
      exact (mem_pageBehind hsorted hrow hbefore).imp_right fun hfull => ⟨rfl, hfull⟩
  · have hpages : s.client.pages = s.client.state.pages.length := by
      rw [St.pages, if_neg (mt hiff.1 hv)]
    have hpos : 0 < row.index := h.indexed.transaction.pos <| by
      rw [matchingRows_eq h.indexed] at hrow
      exact List.mem_of_mem_filter hrow
    obtain ⟨page, c, hc, hcover⟩ := (h.windows hv).1.cover hsorted hrow hpos
    rw [State.cursors, List.getElem?_map] at hc
    obtain ⟨after, hafter, rfl⟩ := Option.map_eq_some_iff.1 hc
    have hlen : page < s.client.state.pages.length := (List.getElem?_eq_some_iff.1 hafter).1
    have hstart : startOf s.client.vars s.client.state.pages page = after.getD 0 := by
      rw [startOf, if_neg hv, hafter]
      rfl
    refine ⟨page, by omega, ?_⟩
    rw [hstart]
    rcases hcover with hmem | hlast
    · exact .inl hmem
    · have hend := hlast.1
      rw [State.cursors, List.length_map] at hend
      exact .inr ⟨by omega, hlast.2⟩

/-- **No transaction is left out.** While blocks are applied, in every run
whose events are `Settled`, when the latest refetch is answered: the list shown
is the page of the table as it was at some moment, and every row that matches
is on a page on offer, as it would be answered now, or comes behind the last
one, which is full. -/
theorem transactions_not_skipped (S : Server Bytes) (s : Live Bytes)
    (hr : ((live S).restrict LiveSettled).Reachable s) (hanswered : s.client.answered = true) :
    (∃ db₀ list, db₀.transaction.rows <+: s.db.transaction.rows ∧ s.client.props.list = some list ∧
      list.items = s.client.pageItems S db₀ s.client.state.page) ∧
    ∀ row ∈ matchingRows s.db s.client.vars, ∃ page ≤ s.client.pages - 1,
      parseTransaction S.wire (some row.index) row ∈ s.client.pageItems S s.db page ∨
        page = s.client.pages - 1 ∧ (s.client.pageItems S s.db page).length = s.client.vars.pageSize ∧
          ∀ item ∈ s.client.pageItems S s.db page, ∃ i < row.index, item.index = some i := by
  have h := liveInv_inductive.reachable s hr
  obtain ⟨hcurrent, list, hlist, db₀, h₀, hgrow, rfl⟩ := h.answered hanswered
  refine ⟨⟨db₀, _, hgrow, hlist, ?_⟩, fun row hrow => ?_⟩
  · rw [h.pageItems hcurrent h₀, (answer_eq h₀ _).1, h.after]
  · obtain ⟨page, hpage, hoffered⟩ := h.offered hcurrent row hrow
    refine ⟨page, hpage, ?_⟩
    rw [h.pageItems hcurrent h.indexed, List.length_map]
    rcases hoffered with hmem | ⟨hlast, hfull, hall⟩
    · exact .inl (List.mem_map_of_mem hmem)
    · refine .inr ⟨hlast, hfull, fun item hitem => ?_⟩
      obtain ⟨r, hr, rfl⟩ := List.mem_map.1 hitem
      exact ⟨r.index, hall r hr, rfl⟩

end

def transferOf (creatorId : String) (createdTime : Nat) : Transaction := ⟨⟨creatorId, createdTime, 1, []⟩, []⟩

/-- Pages of two: three transactions of alice make a full and a short page;
when there is a fourth, the short page is filled up. -/
def filledUp : List LiveEv :=
  [.applyBlock ⟨1, 10, "", [transferOf "alice@d" 1, transferOf "alice@d" 2, transferOf "bob@d" 3]⟩,
    .applyBlock ⟨2, 20, "", [transferOf "alice@d" 4]⟩,
    .client (.onPageSizeChange 2), .client (.creatorIdOnChange "alice@d"), .readList, .readTotal, .answer,
    .client (.onPageChange 1), .readTotal, .readList, .answer,
    .applyBlock ⟨3, 30, "", [transferOf "alice@d" 5]⟩, .client .receiveProps]

theorem transactions_not_skipped_filledUp :
    ∃ s, ((live node).restrict LiveSettled).Reachable s ∧ s.client.state.pages = [none, some 2, some 4] ∧
      (List.range 3).map (fun page => (s.client.pageItems node s.db page).map TransactionObject.index) =
        [[some 1, some 2], [some 4, some 5], [some 5]] ∧
      ∀ row ∈ matchingRows s.db s.client.vars, ∃ page ≤ s.client.pages - 1,
        parseTransaction node.wire (some row.index) row ∈ s.client.pageItems node s.db page ∨
          page = s.client.pages - 1 ∧ (s.client.pageItems node s.db page).length = s.client.vars.pageSize ∧
            ∀ item ∈ s.client.pageItems node s.db page, ∃ i < row.index, item.index = some i := by
  have hexec : (LTS.exec (LTS.guarded LiveSettled (liveStep node)) ⟨init, .empty, none, none⟩ filledUp).map
      (fun s => (s.client.answered, s.client.state.pages, (List.range 3).map fun page =>
        (s.client.pageItems node s.db page).map TransactionObject.index)) =
      some (true, [none, some 2, some 4], [[some 1, some 2], [some 4, some 5], [some 5]]) := by
    decide +kernel
  obtain ⟨s, hs, hend⟩ := Option.map_eq_some_iff.1 hexec
  simp only [Prod.mk.injEq] at hend
  obtain ⟨hanswered, hpages, hitems⟩ := hend
  have hr : ((live node).restrict LiveSettled).Reachable s :=
    LTS.restrict_reachable_of_exec ⟨[], rfl, rfl⟩ hs
  exact ⟨s, hr, hpages, hitems, (transactions_not_skipped node s hr hanswered).2⟩

end Explorer.Client.Transactions
