import Explorer.Core.LTS
import Explorer.Iroha.Growth

/-!
# Cursor paging while blocks arrive

A client asks for the first page with `after = null` and passes the
`nextAfter` of each answer to the next request, with any page sizes, while
`applyBlock` goes on. `Session` is such a client with the database; `got` is
the concatenation of the pages it has received.

Five lists are paged this way, with two rules for the cursor. Both give the
index of the last row returned (`request_next`): `after + items.length`
because those lists have no filter and their indexes are dense.

* `request_next`: behind the cursor of the first `n` matching rows, a request
  returns the next `count` of them and the cursor behind these.
* `matching_grows`: a block adds matching rows only behind the others.
* `pages_visit_every_row`: what a client receives, over every run.
-/
namespace Explorer.Iroha

variable {Bytes : Type}

/-- The list and its filters. -/
inductive ListQuery where
  | transactions (timeAfter timeBefore : Option Nat) (creatorId : Option String)
  | accounts (id : Option String)
  | peers
  | roles
  | domains
  deriving DecidableEq, Repr

inductive Item where
  | transaction (x : TransactionObject)
  | account (x : AccountRow)
  | peer (x : Peer)
  | role (x : Role)
  | domain (x : Domain)
  deriving DecidableEq, Repr

/-- The item without the columns that commands change. -/
def Item.fixed : Item → Item
  | .account x => .account { x with quorum := 0, roles := [], permissionsGranted := [] }
  | item => item

def PagedList.map {S T : Type} (f : S → T) (page : PagedList S) : PagedList T :=
  ⟨page.items.map f, page.nextAfter⟩

def request (W : Wire Bytes) (lower : List Char → List Char) (db : Db Bytes) (after : Option Nat)
    (count : Nat) : ListQuery → PagedList Item
  | .transactions timeAfter timeBefore creatorId =>
    (transactionList W db timeAfter timeBefore creatorId after count).map .transaction
  | .accounts id => (accountList lower db id after count).map .account
  | .peers => (peerList db after count).map .peer
  | .roles => (roleList db after count).map .role
  | .domains => (domainList db after count).map .domain

/-- The rows that match `p` in the order of their index, with the index. -/
def listed {Row : Type} (index : Row → Nat) (p : Row → Bool) (select : Row → Item)
    (rows : List Row) : List (Nat × Item) :=
  (orderBy index (rows.filter p)).map fun row => (index row, select row)

/-- The matching rows of a list, in index order. -/
def matching (W : Wire Bytes) (lower : List Char → List Char) (db : Db Bytes) :
    ListQuery → List (Nat × Item)
  | .transactions timeAfter timeBefore creatorId =>
    listed TransactionRow.index (transactionMatches timeAfter timeBefore creatorId)
      (fun row => .transaction (parseTransaction W (some row.index) row)) db.transaction.rows
  | .accounts id => listed AccountRow.index (accountMatches lower id) .account db.account.rows
  | .peers => listed PeerRow.index (fun _ => true) (fun row => .peer (peerFields row)) db.peer.rows
  | .roles => listed RoleRow.index (fun _ => true) (fun row => .role (roleFields row)) db.role.rows
  | .domains =>
    listed DomainRow.index (fun _ => true) (fun row => .domain (domainFields row)) db.domain.rows

/-! ## One list -/

section Listed

variable {Row : Type} {index : Row → Nat} {p : Row → Bool} {select : Row → Item} {rows : List Row}

theorem listed_eq (h : Numbered index rows) :
    listed index p select rows = (rows.filter p).map fun row => (index row, select row) := by
  rw [listed, orderBy_of_sorted (h.sorted.sublist List.filter_sublist)]

theorem listed_index (h : Numbered index rows) :
    (listed index p select rows).map Prod.fst = (rows.filter p).map index := by
  rw [listed_eq h, List.map_map]; rfl

/-- The page behind the first `n` matching rows. -/
theorem page_listed (h : Numbered index rows) (n count : Nat) :
    (selectRows (fun r => cursor ((rows.filter p).map index) n < index r && p r) index count rows).map
        (fun row => (index row, select row)) =
      ((listed index p select rows).drop n).take count := by
  rw [page_cursor p h.sorted (fun r hr => h.pos hr), listed_eq h, List.map_take, List.map_drop]

/-- The rule "index of the last row". -/
theorem cursor_last (h : Numbered index rows) (n count : Nat) :
    let page := selectRows (fun r => cursor ((rows.filter p).map index) n < index r && p r) index
      count rows
    ((page.map index).getLast?).getD (cursor ((rows.filter p).map index) n) =
      cursor ((rows.filter p).map index) (n + page.length) := by
  intro page
  have hpage : page.map index = (((rows.filter p).map index).drop n).take count := by
    simp only [page]
    rw [page_cursor p h.sorted (fun r hr => h.pos hr), List.map_take, List.map_drop]
  have hlen : page.length = ((((rows.filter p).map index).drop n).take count).length := by
    rw [← hpage, List.length_map]
  rw [hpage, hlen]
  exact cursor_next _ n count

theorem listed_pairwise (h : Numbered index rows) :
    ((listed index p select rows).map Prod.fst).Pairwise (· < ·) := by
  rw [listed_index h]
  exact List.pairwise_map.2 (h.sorted.sublist List.filter_sublist)

theorem listed_nodup (h : Numbered index rows)
    (hne : rows.Pairwise fun a b => (select a).fixed ≠ (select b).fixed) :
    ((listed index p select rows).map fun x => x.2.fixed).Nodup := by
  rw [listed_eq h, List.map_map, List.Nodup, List.pairwise_map]
  exact hne.sublist List.filter_sublist

/-- Rows added behind the others, which keep their index, their match and
their fixed columns. -/
theorem listed_grows {rows' : List Row} {g : Row → Row} (h : Numbered index rows)
    (h' : Numbered index rows') (hgrow : rows.map g <+: rows')
    (hg : ∀ r, index (g r) = index r ∧ p (g r) = p r ∧ (select (g r)).fixed = (select r).fixed) :
    ((listed index p select rows).map fun x => (x.1, x.2.fixed)) <+:
      (listed index p select rows').map fun x => (x.1, x.2.fixed) := by
  obtain ⟨new, rfl⟩ := hgrow
  rw [listed_eq h, listed_eq h', List.map_map, List.map_map, List.filter_append, List.map_append]
  have hold : ((rows.map g).filter p).map ((fun x => (x.1, x.2.fixed)) ∘
      fun row => (index row, select row)) =
      (rows.filter p).map ((fun x => (x.1, x.2.fixed)) ∘ fun row => (index row, select row)) := by
    have hp : p ∘ g = p := funext fun r => (hg r).2.1
    rw [List.filter_map, hp, List.map_map]
    refine List.map_congr_left fun r _ => ?_
    simp [(hg r).1, (hg r).2.2]
  rw [hold]
  exact List.prefix_append _ _

/-- The rule `after + items.length`, on a list without a filter. -/
theorem makePagedList_next {T : Type} (h : Numbered index rows) (fields : Row → T)
    (item : T → Item) {after : Option Nat} {n : Nat}
    (hn : n ≤ (listed index (fun _ => true) (fun r => item (fields r)) rows).length)
    (hafter : after.getD 0 =
      cursor ((listed index (fun _ => true) (fun r => item (fields r)) rows).map Prod.fst) n)
    (count : Nat) :
    let all := listed index (fun _ => true) (fun r => item (fields r)) rows
    let page := (makePagedList index fields rows after count).map item
    page.items = ((all.drop n).take count).map Prod.snd ∧
      page.nextAfter = cursor (all.map Prod.fst) (n + page.items.length) := by
  have hpage := page_cursor (fun _ => true) h.sorted (fun r hr => h.pos hr) n count
  rw [listed_index h, List.filter_true] at hafter
  simp only [List.filter_true, Bool.and_true] at hpage
  rw [listed_eq h, List.filter_true, List.length_map] at hn
  have hle : n + ((rows.drop n).take count).length ≤ rows.length := by
    rw [List.length_take, List.length_drop]; omega
  simp only [listed_eq h, List.filter_true, makePagedList, PagedList.map, hafter, hpage,
    List.length_map, List.map_map]
  refine ⟨?_, ?_⟩
  · rw [← List.map_drop, ← List.map_take, List.map_map]; rfl
  · exact (congrArg (· + _) (cursor_numbered h hn)).trans (cursor_numbered h hle).symm

end Listed

/-! ## The five lists -/

theorem last_index (W : Wire Bytes) (rows : List (TransactionRow Bytes)) :
    (rows.map fun row => parseTransaction W (some row.index) row).getLast?.bind
      TransactionObject.index = (rows.map TransactionRow.index).getLast? := by
  rw [List.getLast?_map, List.getLast?_map]
  cases rows.getLast? <;> rfl

/-- **A request returns the next matching rows** and the index of the last
row returned. -/
theorem request_next {W : Wire Bytes} {lower : List Char → List Char} {db : Db Bytes}
    (hdb : Indexed db) (q : ListQuery) {after : Option Nat} {n : Nat}
    (hn : n ≤ (matching W lower db q).length)
    (hafter : after.getD 0 = cursor ((matching W lower db q).map Prod.fst) n) (count : Nat) :
    (request W lower db after count q).items =
        (((matching W lower db q).drop n).take count).map Prod.snd ∧
      (request W lower db after count q).nextAfter =
        cursor ((matching W lower db q).map Prod.fst)
          (n + (request W lower db after count q).items.length) := by
  cases q with
  | transactions timeAfter timeBefore creatorId =>
    simp only [matching, listed_index hdb.transaction] at hafter ⊢
    have hlast := cursor_last (p := transactionMatches timeAfter timeBefore creatorId)
      hdb.transaction n count
    simp only [request, transactionList, PagedList.map, hafter, ← page_listed hdb.transaction]
    refine ⟨by simp [List.map_map, Function.comp_def], ?_⟩
    rw [List.length_map, List.length_map, ← hlast, last_index]
  | accounts id =>
    simp only [matching, listed_index hdb.account] at hafter ⊢
    have hlast := cursor_last (p := accountMatches lower id) hdb.account n count
    simp only [request, accountList, PagedList.map, hafter, ← page_listed hdb.account]
    refine ⟨by simp [List.map_map, Function.comp_def], ?_⟩
    rw [List.length_map, ← hlast, List.getLast?_map]
  | peers => exact makePagedList_next hdb.peer peerFields .peer hn hafter count
  | roles => exact makePagedList_next hdb.role roleFields .role hn hafter count
  | domains => exact makePagedList_next hdb.domain domainFields .domain hn hafter count

theorem matching_sorted {W : Wire Bytes} {lower : List Char → List Char} {db : Db Bytes}
    (hdb : Indexed db) (q : ListQuery) :
    ((matching W lower db q).map Prod.fst).Pairwise (· < ·) := by
  cases q with
  | transactions timeAfter timeBefore creatorId => exact listed_pairwise hdb.transaction
  | accounts id => exact listed_pairwise hdb.account
  | peers => exact listed_pairwise hdb.peer
  | roles => exact listed_pairwise hdb.role
  | domains => exact listed_pairwise hdb.domain

/-- No two matching rows give the same item. -/
theorem matching_nodup {W : Wire Bytes} {lower : List Char → List Char} {db : Db Bytes}
    (hdb : Indexed db) (q : ListQuery) :
    ((matching W lower db q).map fun x => x.2.fixed).Nodup := by
  cases q with
  | transactions timeAfter timeBefore creatorId =>
    refine listed_nodup hdb.transaction (hdb.transaction.sorted.imp fun hab e => ?_)
    simp only [Item.fixed, parseTransaction, Item.transaction.injEq, TransactionObject.mk.injEq,
      Option.some.injEq] at e
    omega
  | accounts id =>
    refine listed_nodup hdb.account (hdb.account.sorted.imp fun hab e => ?_)
    simp only [Item.fixed, Item.account.injEq, AccountRow.mk.injEq] at e
    omega
  | peers =>
    refine listed_nodup hdb.peer (db.peer.unique.imp fun hab => ?_)
    intro e
    simp only [Item.fixed, peerFields, Item.peer.injEq, Peer.mk.injEq] at e
    exact of_decide_eq_false hab (.inr (.inl e.1))
  | roles =>
    refine listed_nodup hdb.role (db.role.unique.imp fun hab => ?_)
    intro e
    simp only [Item.fixed, roleFields, Item.role.injEq, Role.mk.injEq] at e
    exact of_decide_eq_false hab (.inr e.1)
  | domains =>
    refine listed_nodup hdb.domain (db.domain.unique.imp fun hab => ?_)
    intro e
    simp only [Item.fixed, domainFields, Item.domain.injEq, Domain.mk.injEq] at e
    exact of_decide_eq_false hab (.inr e.1)

/-- A list whose rows never change. -/
theorem listed_prefix {Row : Type} {index : Row → Nat} {p : Row → Bool} {select : Row → Item}
    {rows rows' : List Row} (h : Numbered index rows) (h' : Numbered index rows')
    (hgrow : rows <+: rows') :
    ((listed index p select rows).map fun x => (x.1, x.2.fixed)) <+:
      (listed index p select rows').map fun x => (x.1, x.2.fixed) :=
  listed_grows (g := id) h h' (by rwa [List.map_id]) fun _ => ⟨rfl, rfl, rfl⟩

/-- **A block adds matching rows only behind the others.** -/
theorem matching_grows {W : Wire Bytes} {lower : List Char → List Char} {db db' : Db Bytes}
    {block : Block} (hdb : Indexed db) (hdb' : Indexed db') (h : applyBlock W db block = .ok db')
    (q : ListQuery) :
    ((matching W lower db q).map fun x => (x.1, x.2.fixed)) <+:
      (matching W lower db' q).map fun x => (x.1, x.2.fixed) := by
  obtain ⟨ht, ha, hp, hr, hd⟩ := applyBlock_grows h
  cases q with
  | transactions timeAfter timeBefore creatorId =>
    exact listed_prefix hdb.transaction hdb'.transaction ht
  | accounts id =>
    refine listed_grows hdb.account hdb'.account ha fun r => ⟨evolveAll_index _ r, ?_, ?_⟩
    · simp only [accountMatches, evolveAll_id]
    · simp only [Item.fixed, evolveAll_index, evolveAll_id]
  | peers => exact listed_prefix hdb.peer hdb'.peer hp
  | roles => exact listed_prefix hdb.role hdb'.role hr
  | domains => exact listed_prefix hdb.domain hdb'.domain hd

/-! ## A client -/

/-- A client that pages through one list, and the database. -/
structure Session (Bytes : Type) where
  db : Db Bytes
  after : Option Nat
  got : List Item

inductive SessionEv where
  | request (count : Nat)
  | applyBlock (block : Block)
  deriving DecidableEq, Repr

/-- The answer to the next request. -/
def Session.page (W : Wire Bytes) (lower : List Char → List Char) (q : ListQuery)
    (s : Session Bytes) (count : Nat) : PagedList Item := request W lower s.db s.after count q

/-- The client after that answer. -/
def Session.receive (W : Wire Bytes) (lower : List Char → List Char) (q : ListQuery)
    (s : Session Bytes) (count : Nat) : Session Bytes :=
  { s with
    after := some (s.page W lower q count).nextAfter
    got := s.got ++ (s.page W lower q count).items }

/-- A block that cannot be applied leaves the database as it is. -/
def sessionStep (W : Wire Bytes) (lower : List Char → List Char) (q : ListQuery)
    (s : Session Bytes) : SessionEv → Option (Session Bytes)
  | .request count => if 1 ≤ count then some (s.receive W lower q count) else none
  | .applyBlock block =>
    match applyBlock W s.db block with
    | .ok db => some { s with db := db }
    | .error _ => some s

/-- Paging starts at any database `applyBlock` can reach. -/
def SessionInit (W : Wire Bytes) (s : Session Bytes) : Prop :=
  ∃ blocks db, applyBlocks W .empty blocks = .ok db ∧ s = ⟨db, none, []⟩

def session (W : Wire Bytes) (lower : List Char → List Char) (q : ListQuery) :
    LTS (Session Bytes) SessionEv := LTS.ofFn (SessionInit W) (sessionStep W lower q)

/-- `got` is the first matching rows and `after` the cursor behind them. -/
structure SessionInv (W : Wire Bytes) (lower : List Char → List Char) (q : ListQuery)
    (s : Session Bytes) : Prop where
  reached : ∃ blocks, applyBlocks W .empty blocks = .ok s.db
  length : s.got.length ≤ (matching W lower s.db q).length
  got : s.got.map Item.fixed =
    ((matching W lower s.db q).map fun x => x.2.fixed).take s.got.length
  after : s.after.getD 0 = cursor ((matching W lower s.db q).map Prod.fst) s.got.length

theorem applyBlocks_snoc {W : Wire Bytes} {blocks : List Block} {db db' : Db Bytes} {block : Block}
    (h : applyBlocks W .empty blocks = .ok db) (hb : applyBlock W db block = .ok db') :
    applyBlocks W .empty (blocks ++ [block]) = .ok db' := by
  unfold applyBlocks at h ⊢
  rw [List.foldlM_append, h]
  exact bind_eq_ok.2 ⟨db, rfl, by rw [List.foldlM_cons, hb]; rfl⟩

/-- One more page. -/
theorem inv_receive {W : Wire Bytes} {lower : List Char → List Char} {q : ListQuery}
    {s : Session Bytes} (h : SessionInv W lower q s) (count : Nat) :
    SessionInv W lower q (s.receive W lower q count) := by
  obtain ⟨blocks, hblocks⟩ := h.reached
  obtain ⟨hitems, hnext⟩ :=
    request_next (indexed_of_applyBlocks hblocks) q h.length h.after count
  have hlen : (s.page W lower q count).items.length =
      (((matching W lower s.db q).drop s.got.length).take count).length := by
    rw [Session.page, hitems, List.length_map]
  refine ⟨⟨blocks, hblocks⟩, ?_, ?_, ?_⟩
  · have hl := h.length
    simp only [Session.receive, List.length_append, hlen, List.length_take, List.length_drop]
    omega
  · have htake := take_page (matching W lower s.db q) s.got.length count
    simp only [Session.receive, List.length_append, hlen, List.map_append, h.got]
    rw [← List.map_take, ← List.map_take, htake, List.map_append, Session.page, hitems,
      List.map_map]
    rfl
  · simpa [Session.receive, Session.page] using hnext

/-- A block that arrives. -/
theorem inv_applyBlock {W : Wire Bytes} {lower : List Char → List Char} {q : ListQuery}
    {s : Session Bytes} {db : Db Bytes} {block : Block} (h : SessionInv W lower q s)
    (hb : applyBlock W s.db block = .ok db) : SessionInv W lower q { s with db := db } := by
  obtain ⟨blocks, hblocks⟩ := h.reached
  have hblocks' := applyBlocks_snoc hblocks hb
  obtain ⟨new, hnew⟩ : ((matching W lower s.db q).map fun x => (x.1, x.2.fixed)) <+:
      (matching W lower db q).map fun x => (x.1, x.2.fixed) :=
    matching_grows (indexed_of_applyBlocks hblocks) (indexed_of_applyBlocks hblocks') hb q
  have hlen := h.length
  have hkeys : (matching W lower s.db q).map Prod.fst ++ new.map Prod.fst =
      (matching W lower db q).map Prod.fst := by
    have e := congrArg (List.map Prod.fst) hnew
    rw [List.map_append, List.map_map, List.map_map] at e
    exact e
  have hfixed : ((matching W lower s.db q).map fun x => x.2.fixed) ++ new.map Prod.snd =
      (matching W lower db q).map fun x => x.2.fixed := by
    have e := congrArg (List.map Prod.snd) hnew
    rw [List.map_append, List.map_map, List.map_map] at e
    exact e
  refine ⟨⟨_, hblocks'⟩, ?_, ?_, ?_⟩
  · have hl := congrArg List.length hkeys
    simp only [List.length_append, List.length_map] at hl
    simp only
    omega
  · rw [h.got, ← hfixed, List.take_append_of_le_length (by rwa [List.length_map])]
  · rw [h.after, ← hkeys, cursor_append (by rwa [List.length_map])]

theorem inv_step {W : Wire Bytes} {lower : List Char → List Char} {q : ListQuery}
    {s s' : Session Bytes} {ev : SessionEv} (h : SessionInv W lower q s)
    (hs : sessionStep W lower q s ev = some s') : SessionInv W lower q s' := by
  cases ev with
  | request count =>
    simp only [sessionStep] at hs
    split at hs
    · cases hs; exact inv_receive h count
    · cases hs
  | applyBlock block =>
    simp only [sessionStep] at hs
    split at hs
    · rename_i db hb
      cases hs; exact inv_applyBlock h hb
    · cases hs; exact h

theorem inv_inductive (W : Wire Bytes) (lower : List Char → List Char) (q : ListQuery) :
    (session W lower q).Inductive (SessionInv W lower q) where
  init s hs := by
    obtain ⟨blocks, db, hblocks, rfl⟩ := hs
    exact ⟨⟨blocks, hblocks⟩, by simp, by simp, by simp⟩
  step _ _ _ h hs := inv_step h hs

/-- Only `applyBlock` calls happen between two requests. -/
def OnlyBlocks (evs : List SessionEv) : Prop := ∀ ev ∈ evs, ∃ block, ev = .applyBlock block

/-- Blocks leave the client alone and add rows behind the others. -/
theorem run_onlyBlocks {W : Wire Bytes} {lower : List Char → List Char} {q : ListQuery}
    {s s' : Session Bytes} {evs : List SessionEv} (hrun : (session W lower q).Run s evs s')
    (honly : OnlyBlocks evs) (h : SessionInv W lower q s) :
    s'.got = s.got ∧ SessionInv W lower q s' ∧
      ((matching W lower s.db q).map fun x => (x.1, x.2.fixed)) <+:
        (matching W lower s'.db q).map fun x => (x.1, x.2.fixed) := by
  induction hrun with
  | nil s => exact ⟨rfl, h, List.prefix_refl _⟩
  | @cons s s₁ s₂ ev evs hs _ ih =>
    obtain ⟨block, rfl⟩ := honly ev List.mem_cons_self
    have h₁ := inv_step h hs
    obtain ⟨hgot, h₂, hgrow⟩ := ih (fun ev hev => honly ev (List.mem_cons_of_mem _ hev)) h₁
    refine ⟨?_, h₂, List.IsPrefix.trans ?_ hgrow⟩
    · rw [hgot]
      simp only [session, LTS.ofFn, sessionStep] at hs
      split at hs <;> cases hs <;> rfl
    · obtain ⟨blocks, hblocks⟩ := h.reached
      obtain ⟨blocks₁, hblocks₁⟩ := h₁.reached
      simp only [session, LTS.ofFn, sessionStep] at hs
      split at hs
      · rename_i db hb
        cases hs
        exact matching_grows (indexed_of_applyBlocks hblocks) (indexed_of_applyBlocks hblocks₁) hb q
      · cases hs; exact List.prefix_refl _

/-- The next page is the next matching rows. -/
theorem page_items {W : Wire Bytes} {lower : List Char → List Char} {q : ListQuery}
    {s : Session Bytes} (h : SessionInv W lower q s) (count : Nat) :
    (s.page W lower q count).items =
      (((matching W lower s.db q).drop s.got.length).take count).map Prod.snd := by
  obtain ⟨blocks, hblocks⟩ := h.reached
  exact (request_next (indexed_of_applyBlocks hblocks) q h.length h.after count).1

/-- **Every row exactly once, also while blocks arrive.** In every run of
requests and `applyBlock` calls from `after = null`, for each of the five
lists with any filter:

* what the client has is, in index order, the first of the matching rows,
  without a duplicate, and its cursor is the index of the last of them;
* the next page, of any size, is the next matching rows; when it is shorter
  than that, the client then has every matching row, and after any further
  blocks its next page is exactly the rows added since. -/
theorem pages_visit_every_row (W : Wire Bytes) (lower : List Char → List Char) (q : ListQuery)
    (s : Session Bytes) (hr : (session W lower q).Reachable s) :
    (s.got.map Item.fixed =
        ((matching W lower s.db q).map fun x => x.2.fixed).take s.got.length ∧
      (s.got.map Item.fixed).Nodup ∧
      ((matching W lower s.db q).map Prod.fst).Pairwise (· < ·)) ∧
    s.after.getD 0 = cursor ((matching W lower s.db q).map Prod.fst) s.got.length ∧
    ∀ count, 1 ≤ count →
      (s.page W lower q count).items =
        (((matching W lower s.db q).drop s.got.length).take count).map Prod.snd ∧
      ((s.page W lower q count).items.length < count →
        ((s.receive W lower q count).got.map Item.fixed =
          (matching W lower s.db q).map fun x => x.2.fixed) ∧
        ∀ evs s', (session W lower q).Run (s.receive W lower q count) evs s' → OnlyBlocks evs →
          ((matching W lower s.db q).map fun x => (x.1, x.2.fixed)) <+:
            ((matching W lower s'.db q).map fun x => (x.1, x.2.fixed)) ∧
          ∀ count', (s'.page W lower q count').items =
            (((matching W lower s'.db q).drop (matching W lower s.db q).length).take count').map
              Prod.snd) := by
  have h := (inv_inductive W lower q).reachable s hr
  obtain ⟨blocks, hblocks⟩ := h.reached
  have hindexed := indexed_of_applyBlocks hblocks
  refine ⟨⟨h.got, ?_, matching_sorted hindexed q⟩, h.after, fun count _ => ⟨page_items h count, ?_⟩⟩
  · rw [h.got]
    exact (matching_nodup hindexed q).sublist (List.take_sublist _ _)
  · intro hshort
    have h' := inv_receive h count
    have hlen : (s.receive W lower q count).got.length = (matching W lower s.db q).length := by
      have hl := h.length
      rw [page_items h count] at hshort
      simp only [Session.receive, List.length_append, page_items h count, List.length_map,
        List.length_take, List.length_drop] at hshort ⊢
      omega
    refine ⟨?_, fun evs s' hrun honly => ?_⟩
    · rw [h'.got, hlen]
      exact List.take_of_length_le (by rw [List.length_map]; exact Nat.le_refl _)
    · obtain ⟨hgot, hs', hgrow⟩ := run_onlyBlocks hrun honly h'
      refine ⟨hgrow, fun count' => ?_⟩
      rw [page_items hs', hgot, hlen]

/-- A page before the first block, three peers, a page of two, and the last
peer in a short page. -/
def peerPages : List SessionEv :=
  [.request 2,
    .applyBlock ⟨1, 0, "", [⟨⟨"", 0, 1, [.addPeer "a" "1", .addPeer "b" "2", .addPeer "c" "3"]⟩, []⟩]⟩,
    .request 2, .request 2]

theorem pages_visit_every_row_peerPages :
    ∃ s, (session plainWire id .peers).Reachable s ∧
      s.got = [.peer ⟨"a", "1"⟩, .peer ⟨"b", "2"⟩, .peer ⟨"c", "3"⟩] ∧
      s.after.getD 0 = cursor ((matching plainWire id s.db .peers).map Prod.fst) 3 := by
  have hgot : (LTS.exec (sessionStep plainWire id .peers) ⟨.empty, none, []⟩ peerPages).map
      Session.got = some [.peer ⟨"a", "1"⟩, .peer ⟨"b", "2"⟩, .peer ⟨"c", "3"⟩] := by
    decide +kernel
  obtain ⟨s, hs, hgot⟩ := Option.map_eq_some_iff.1 hgot
  have hr : (session plainWire id .peers).Reachable s :=
    LTS.reachable_of_exec ⟨[], .empty, rfl, rfl⟩ hs
  obtain ⟨-, hafter, -⟩ := pages_visit_every_row plainWire id .peers s hr
  rw [hgot] at hafter
  exact ⟨s, hr, hgot, hafter⟩

end Explorer.Iroha
