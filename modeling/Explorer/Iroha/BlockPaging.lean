import Explorer.Iroha.TransactionLog

/-!
# Paging through `blockList`

The cursor of `blockList` is `after + items.length`, whatever the direction
and the time range. It counts the blocks returned so far, on top of the start
value; so it is the height of the last one only when the blocks in the range
are the first of the chain and the list is read forward.

* `page_rows`: a page in terms of the number of blocks returned before it.
* `pagesRight_forward`: read forward, paging is right iff the heights of the
  blocks in the range are `1, …, k`.
* `not_pagesRight_reverse`: in reverse it is never right when a block is in
  the range: the second page starts at the top again.
* `blockList_pages_right_iff`: both, on the stored blocks.
-/
namespace Explorer.Iroha

variable {Bytes : Type}

def inRange (timeAfter timeBefore : Option Nat) (row : BlockRow Bytes) : Bool :=
  inTimeRange timeAfter timeBefore row.createdTime

/-- The blocks in the range, in the order of the list. -/
def blocksInRange (db : Db Bytes) (timeAfter timeBefore : Option Nat) (reverse : Bool) :
    List (BlockRow Bytes) :=
  let rows := db.block.rows.filter (inRange timeAfter timeBefore)
  if reverse then orderByDesc BlockRow.height rows else orderBy BlockRow.height rows

/-- The pages of a client that starts with `after = null` and passes each
`nextAfter` to the next request; `sizes k` is the size it asks for. -/
def blockPage (W : Wire Bytes) (db : Db Bytes) (timeAfter timeBefore : Option Nat) (reverse : Bool)
    (sizes : Nat → Nat) : Nat → PagedList Block
  | 0 => blockList W db timeAfter timeBefore reverse none (sizes 0)
  | k + 1 => blockList W db timeAfter timeBefore reverse
      (some (blockPage W db timeAfter timeBefore reverse sizes k).nextAfter) (sizes (k + 1))

/-- The first `k` pages. -/
def blockPages (W : Wire Bytes) (db : Db Bytes) (timeAfter timeBefore : Option Nat) (reverse : Bool)
    (sizes : Nat → Nat) (k : Nat) : List Block :=
  (List.range k).flatMap fun i => (blockPage W db timeAfter timeBefore reverse sizes i).items

/-- Each block in the range exactly once, in order, and then only empty
pages. -/
def PagesRight (W : Wire Bytes) (db : Db Bytes) (timeAfter timeBefore : Option Nat) (reverse : Bool)
    (sizes : Nat → Nat) : Prop :=
  ∃ k, blockPages W db timeAfter timeBefore reverse sizes k =
      (blocksInRange db timeAfter timeBefore reverse).map (parseBlock W) ∧
    ∀ i, k ≤ i → (blockPage W db timeAfter timeBefore reverse sizes i).items = []

section

variable {W : Wire Bytes} {db : Db Bytes} {timeAfter timeBefore : Option Nat} {sizes : Nat → Nat}

theorem blockPages_succ (reverse : Bool) (k : Nat) :
    blockPages W db timeAfter timeBefore reverse sizes (k + 1) =
      blockPages W db timeAfter timeBefore reverse sizes k ++
        (blockPage W db timeAfter timeBefore reverse sizes k).items := by
  rw [blockPages, List.range_succ, List.flatMap_append]
  simp [blockPages]

/-- Block heights are UNIQUE. -/
theorem height_unique {a b : BlockRow Bytes} (ha : a ∈ db.block.rows) (hb : b ∈ db.block.rows)
    (h : a.height = b.height) : a = b :=
  Table.eq_of_clash ha hb (decide_eq_true h) (decide_eq_true h.symm)

/-- `after` of the first request. -/
def firstAfter (reverse : Bool) : Nat := if reverse then 0x7FFFFFFF else 0

/-- `height < after` or `height > after`. -/
def behind (reverse : Bool) (after : Nat) (row : BlockRow Bytes) : Bool :=
  if reverse then row.height < after else after < row.height

theorem blockList_items (reverse : Bool) (after : Option Nat) (count : Nat) :
    (blockList W db timeAfter timeBefore reverse after count).items =
      (((blocksInRange db timeAfter timeBefore reverse).filter
        (behind reverse (after.getD (firstAfter reverse)))).take count).map (parseBlock W) := by
  cases reverse with
  | true =>
    have hanti : ∀ a ∈ db.block.rows.filter (inRange timeAfter timeBefore),
        ∀ b ∈ db.block.rows.filter (inRange timeAfter timeBefore),
        b.height ≤ a.height → a.height ≤ b.height → a = b := fun a ha b hb hab hba =>
      height_unique (List.mem_of_mem_filter ha) (List.mem_of_mem_filter hb) (Nat.le_antisymm hba hab)
    have hsort := insertionSort_filter (behind true (after.getD (firstAfter true))) hanti
    rw [List.filter_filter] at hsort
    simp only [blockList, blocksInRange, orderByDesc, if_true, ← hsort]
    rfl
  | false =>
    have hanti : ∀ a ∈ db.block.rows.filter (inRange timeAfter timeBefore),
        ∀ b ∈ db.block.rows.filter (inRange timeAfter timeBefore),
        a.height ≤ b.height → b.height ≤ a.height → a = b := fun a ha b hb hab hba =>
      height_unique (List.mem_of_mem_filter ha) (List.mem_of_mem_filter hb) (Nat.le_antisymm hab hba)
    have hsort := insertionSort_filter (behind false (after.getD (firstAfter false))) hanti
    rw [List.filter_filter] at hsort
    simp only [blockList, blocksInRange, orderBy, Bool.false_eq_true, if_false, ← hsort]
    rfl

theorem blockList_nextAfter (reverse : Bool) (after : Option Nat) (count : Nat) :
    (blockList W db timeAfter timeBefore reverse after count).nextAfter =
      after.getD (firstAfter reverse) +
        (blockList W db timeAfter timeBefore reverse after count).items.length := rfl

/-- **A page.** The blocks behind the start value plus the number of blocks
returned before. -/
theorem page_rows (reverse : Bool) (k : Nat) :
    (blockPage W db timeAfter timeBefore reverse sizes k).items =
        (((blocksInRange db timeAfter timeBefore reverse).filter (behind reverse
          (firstAfter reverse + (blockPages W db timeAfter timeBefore reverse sizes k).length))).take
            (sizes k)).map (parseBlock W) ∧
      (blockPage W db timeAfter timeBefore reverse sizes k).nextAfter =
        firstAfter reverse + (blockPages W db timeAfter timeBefore reverse sizes (k + 1)).length := by
  induction k with
  | zero =>
    rw [blockPages_succ]
    exact ⟨blockList_items reverse none (sizes 0), by simp [blockPage, blockList_nextAfter, blockPages]⟩
  | succ k ih =>
    refine ⟨?_, ?_⟩
    · rw [blockPage, blockList_items, Option.getD_some, ih.2]
    · rw [blockPages_succ reverse (k + 1), List.length_append, ← Nat.add_assoc, ← ih.2]
      rfl

/-! ## Forward -/

theorem blocksInRange_perm (reverse : Bool) :
    (blocksInRange db timeAfter timeBefore reverse).Perm
      (db.block.rows.filter (inRange timeAfter timeBefore)) := by
  cases reverse with
  | true => exact List.perm_insertionSort _ _
  | false => exact List.perm_insertionSort _ _

theorem blocksInRange_distinct (reverse : Bool) :
    (blocksInRange db timeAfter timeBefore reverse).Pairwise fun a b => a.height ≠ b.height := by
  have hrows : db.block.rows.Pairwise fun a b => a.height ≠ b.height :=
    db.block.unique.imp fun h => of_decide_eq_false h
  exact (blocksInRange_perm reverse).symm.pairwise (hrows.sublist List.filter_sublist)
    fun h e => h e.symm

theorem forward_sorted :
    (blocksInRange db timeAfter timeBefore false).Pairwise fun a b => a.height < b.height := by
  have hle : (blocksInRange db timeAfter timeBefore false).Pairwise fun a b => a.height ≤ b.height :=
    List.pairwise_insertionSort _ _
  exact (hle.and (blocksInRange_distinct false)).imp fun h => Nat.lt_of_le_of_ne h.1 h.2

theorem reverse_sorted :
    (blocksInRange db timeAfter timeBefore true).Pairwise fun a b => b.height < a.height := by
  have hle : (blocksInRange db timeAfter timeBefore true).Pairwise fun a b => b.height ≤ a.height :=
    List.pairwise_insertionSort _ _
  exact (hle.and (blocksInRange_distinct true)).imp fun h => Nat.lt_of_le_of_ne h.1 h.2.symm

/-- The page behind the first `n` blocks. -/
theorem forward_page (h : Numbered BlockRow.height (blocksInRange db timeAfter timeBefore false))
    {k n : Nat} (hn : n ≤ (blocksInRange db timeAfter timeBefore false).length)
    (hlen : (blockPages W db timeAfter timeBefore false sizes k).length = n) :
    (blockPage W db timeAfter timeBefore false sizes k).items =
      (((blocksInRange db timeAfter timeBefore false).drop n).take (sizes k)).map (parseBlock W) := by
  have hcursor := filter_cursor h.sorted (fun row hrow => h.pos hrow) n
  rw [cursor_numbered h hn] at hcursor
  rw [(page_rows false k).1, hlen, firstAfter, if_neg Bool.false_ne_true, Nat.zero_add, ← hcursor]
  rfl

theorem forward_pages (hsizes : ∀ k, 1 ≤ sizes k)
    (h : Numbered BlockRow.height (blocksInRange db timeAfter timeBefore false)) (k : Nat) :
    ∃ n, min k (blocksInRange db timeAfter timeBefore false).length ≤ n ∧
      n ≤ (blocksInRange db timeAfter timeBefore false).length ∧
      blockPages W db timeAfter timeBefore false sizes k =
        ((blocksInRange db timeAfter timeBefore false).take n).map (parseBlock W) := by
  induction k with
  | zero => exact ⟨0, by omega, Nat.zero_le _, by simp [blockPages]⟩
  | succ k ih =>
    obtain ⟨n, hmin, hn, hpages⟩ := ih
    have hlen : (blockPages W db timeAfter timeBefore false sizes k).length = n := by
      rw [hpages, List.length_map, List.length_take]; omega
    have hsize := hsizes k
    refine ⟨n + (((blocksInRange db timeAfter timeBefore false).drop n).take (sizes k)).length,
      ?_, ?_, ?_⟩
    · rw [List.length_take, List.length_drop]; omega
    · rw [List.length_take, List.length_drop]; omega
    · rw [blockPages_succ, hpages, forward_page h hn hlen, take_page, List.map_append]

/-- Read forward, paging is right when the heights in the range are
`1, …, k`. -/
theorem pagesRight_of_numbered (hsizes : ∀ k, 1 ≤ sizes k)
    (h : Numbered BlockRow.height (blocksInRange db timeAfter timeBefore false)) :
    PagesRight W db timeAfter timeBefore false sizes := by
  refine ⟨(blocksInRange db timeAfter timeBefore false).length, ?_, fun i hi => ?_⟩
  · obtain ⟨n, hmin, -, hpages⟩ := forward_pages (W := W) hsizes h
      (blocksInRange db timeAfter timeBefore false).length
    rw [hpages, List.take_of_length_le (by omega)]
  · obtain ⟨n, hmin, hn, hpages⟩ := forward_pages (W := W) hsizes h i
    rw [forward_page h hn (by rw [hpages, List.length_map, List.length_take]; omega),
      List.drop_eq_nil_of_le (by omega), List.take_nil, List.map_nil]

/-- If it is right, no height in the range is above the number of blocks in
it: the page behind all of them is empty. -/
theorem height_le_of_pagesRight (hsizes : ∀ k, 1 ≤ sizes k)
    (h : PagesRight W db timeAfter timeBefore false sizes) :
    ∀ row ∈ blocksInRange db timeAfter timeBefore false,
      row.height ≤ (blocksInRange db timeAfter timeBefore false).length := by
  obtain ⟨k, hall, hempty⟩ := h
  have hk := hempty k (Nat.le_refl k)
  have hsize := hsizes k
  rw [(page_rows false k).1, hall, List.length_map, List.map_eq_nil_iff, List.take_eq_nil_iff] at hk
  intro row hrow
  rcases hk with hk | hk
  · omega
  · have hnot := List.filter_eq_nil_iff.1 hk row hrow
    simpa [behind, firstAfter] using hnot

/-! ## Reverse -/

theorem page_reverse (k : Nat) :
    (blockPage W db timeAfter timeBefore true sizes k).items =
      (((blocksInRange db timeAfter timeBefore true).filter fun row =>
        row.height < 0x7FFFFFFF + (blockPages W db timeAfter timeBefore true sizes k).length).take
          (sizes k)).map (parseBlock W) :=
  (page_rows true k).1

/-- When the first page is empty, all are. -/
theorem reverse_pages_empty
    (h : (blocksInRange db timeAfter timeBefore true).filter (fun row => row.height < 0x7FFFFFFF) = [])
    (k : Nat) : blockPages W db timeAfter timeBefore true sizes k = [] := by
  induction k with
  | zero => rfl
  | succ k ih =>
    rw [blockPages_succ, page_reverse, ih, List.length_nil, Nat.add_zero, h, List.take_nil,
      List.map_nil, List.nil_append]

/-- The head of a longer filter of a decreasing list is not below. -/
theorem head_filter_le {rows : List (BlockRow Bytes)} {m n : Nat} {x : BlockRow Bytes}
    {xs : List (BlockRow Bytes)} (hs : rows.Pairwise fun a b => b.height < a.height) (hmn : m ≤ n)
    (hx : rows.filter (fun row => row.height < m) = x :: xs) :
    ∃ y ys, rows.filter (fun row => row.height < n) = y :: ys ∧ x.height ≤ y.height := by
  have hmem : x ∈ rows.filter (fun row => row.height < m) := by rw [hx]; exact List.mem_cons_self
  rw [List.mem_filter, decide_eq_true_eq] at hmem
  have hmem' : x ∈ rows.filter (fun row => row.height < n) :=
    List.mem_filter.2 ⟨hmem.1, decide_eq_true (by omega)⟩
  cases h : rows.filter (fun row => row.height < n) with
  | nil => rw [h] at hmem'; cases hmem'
  | cons y ys =>
    refine ⟨y, ys, rfl, ?_⟩
    rw [h, List.mem_cons] at hmem'
    rcases hmem' with rfl | hlater
    · exact Nat.le_refl _
    · have hsorted := hs.sublist (List.filter_sublist (p := fun row => decide (row.height < n)))
      rw [h] at hsorted
      exact Nat.le_of_lt ((List.pairwise_cons.1 hsorted).1 x hlater)

theorem mem_rows {reverse : Bool} {row : BlockRow Bytes}
    (h : row ∈ blocksInRange db timeAfter timeBefore reverse) : row ∈ db.block.rows :=
  List.mem_of_mem_filter ((blocksInRange_perm reverse).mem_iff.1 h)

theorem mem_filtered {reverse : Bool} {p : BlockRow Bytes → Bool} {x : BlockRow Bytes}
    {xs : List (BlockRow Bytes)}
    (h : (blocksInRange db timeAfter timeBefore reverse).filter p = x :: xs) :
    x ∈ db.block.rows :=
  mem_rows (List.mem_of_mem_filter (by rw [h]; exact List.mem_cons_self))

theorem page_head (hsizes : ∀ k, 1 ≤ sizes k) (k : Nat) {x : BlockRow Bytes}
    {xs : List (BlockRow Bytes)}
    (h : (blocksInRange db timeAfter timeBefore true).filter (fun row => row.height <
      0x7FFFFFFF + (blockPages W db timeAfter timeBefore true sizes k).length) = x :: xs) :
    ∃ rest, (blockPage W db timeAfter timeBefore true sizes k).items = parseBlock W x :: rest := by
  obtain ⟨m, hm⟩ := Nat.exists_eq_add_of_le (hsizes k)
  rw [page_reverse, h, hm, Nat.add_comm 1 m, List.take_succ_cons, List.map_cons]
  exact ⟨_, rfl⟩

theorem blockPages_prefix (reverse : Bool) {i k : Nat} (h : i ≤ k) :
    blockPages W db timeAfter timeBefore reverse sizes i <+:
      blockPages W db timeAfter timeBefore reverse sizes k := by
  induction h with
  | refl => exact List.prefix_refl _
  | step _ ih =>
    rw [blockPages_succ]
    exact ih.trans (List.prefix_append _ _)

/-- The second page starts at the top again, or no page has a block. -/
theorem not_pagesRight_reverse (hsizes : ∀ k, 1 ≤ sizes k)
    (hparse : ∀ row ∈ db.block.rows, blockHeight (parseBlock W row) = row.height)
    (hne : blocksInRange db timeAfter timeBefore true ≠ []) :
    ¬ PagesRight W db timeAfter timeBefore true sizes := by
  rintro ⟨k, hall, hempty⟩
  cases hfirst : (blocksInRange db timeAfter timeBefore true).filter
      (fun row => row.height < 0x7FFFFFFF) with
  | nil =>
    rw [reverse_pages_empty hfirst] at hall
    exact hne (List.map_eq_nil_iff.1 hall.symm)
  | cons x xs =>
    obtain ⟨y, ys, hsecond, hxy⟩ := head_filter_le reverse_sorted (Nat.le_add_right 0x7FFFFFFF
      (blockPages W db timeAfter timeBefore true sizes 1).length) hfirst
    obtain ⟨r₀, h₀⟩ := page_head (W := W) hsizes 0 hfirst
    obtain ⟨r₁, h₁⟩ := page_head (W := W) hsizes 1 hsecond
    have hk : 2 ≤ k := by
      by_contra hlt
      have h1 := hempty 1 (by omega)
      rw [h₁] at h1
      cases h1
    obtain ⟨rest, hrest⟩ : blockPages W db timeAfter timeBefore true sizes 2 <+:
        blockPages W db timeAfter timeBefore true sizes k := blockPages_prefix true hk
    -- the heights received decrease, so the second page's head is below the first's
    have hheights : ((blockPages W db timeAfter timeBefore true sizes k).map blockHeight).Pairwise
        fun a b => b < a := by
      rw [hall, List.map_map, List.pairwise_map]
      refine reverse_sorted.imp_of_mem fun {a b} ha hb hab => ?_
      rw [Function.comp_apply, Function.comp_apply, hparse a (mem_rows ha), hparse b (mem_rows hb)]
      exact hab
    rw [← hrest, blockPages_succ, blockPages_succ, h₀, h₁] at hheights
    simp only [blockPages, List.range_zero, List.flatMap_nil, List.nil_append, List.cons_append,
      List.map_cons, List.pairwise_cons] at hheights
    have hyx := hheights.1 (blockHeight (parseBlock W y)) (by simp)
    rw [hparse x (mem_filtered hfirst), hparse y (mem_filtered hsecond)] at hyx
    omega

end

/-- Increasing numbers between two bounds. -/
theorem length_le_of_sorted : ∀ {ks : List Nat} {m n : Nat}, ks.Pairwise (· < ·) →
    (∀ k ∈ ks, m ≤ k ∧ k < n) → ks.length ≤ n - m
  | [], _, _, _, _ => Nat.zero_le _
  | k :: ks, m, n, hs, hb => by
    obtain ⟨hlt, hs⟩ := List.pairwise_cons.1 hs
    have hk := hb k List.mem_cons_self
    have ih := length_le_of_sorted (m := k + 1) (n := n) hs fun x hx =>
      ⟨hlt x hx, (hb x (List.mem_cons_of_mem _ hx)).2⟩
    rw [List.length_cons]
    omega

/-- Increasing numbers from `m` on that leave no room are all of them. -/
theorem eq_range'_of_sorted : ∀ {ks : List Nat} {m : Nat}, ks.Pairwise (· < ·) →
    (∀ k ∈ ks, m ≤ k ∧ k < m + ks.length) → ks = List.range' m ks.length
  | [], _, _, _ => rfl
  | k :: ks, m, hs, hb => by
    obtain ⟨hlt, hs⟩ := List.pairwise_cons.1 hs
    rw [List.length_cons] at hb
    have hk := hb k List.mem_cons_self
    have hroom := length_le_of_sorted (m := k + 1) (n := m + (ks.length + 1)) hs fun x hx =>
      ⟨hlt x hx, (hb x (List.mem_cons_of_mem _ hx)).2⟩
    have hkm : k = m := by omega
    subst hkm
    have ih := eq_range'_of_sorted (m := k + 1) hs fun x hx => by
      have h1 := hlt x hx
      have h2 := (hb x (List.mem_cons_of_mem _ hx)).2
      omega
    rw [List.length_cons, List.range'_succ, ← ih]

/-! ## Stored blocks -/

/-- The block table holds `blocks`, whose heights are `1, …, n`. -/
structure Stored (W : Wire Bytes) (db : Db Bytes) (blocks : List Block) : Prop where
  rows : db.block.rows = blocks.map (blockRow W)
  heights : (blocks.map blockHeight).Perm (List.range' 1 blocks.length)

/-- The stored blocks in the time range. -/
def inTime (timeAfter timeBefore : Option Nat) (blocks : List Block) : List Block :=
  blocks.filter fun block => inTimeRange timeAfter timeBefore block.createdTime

section

variable {W : Wire Bytes} {db : Db Bytes} {blocks : List Block} {timeAfter timeBefore : Option Nat}
  {sizes : Nat → Nat}

theorem perm_inTime (h : Stored W db blocks) (reverse : Bool) :
    (blocksInRange db timeAfter timeBefore reverse).Perm
      ((inTime timeAfter timeBefore blocks).map (blockRow W)) := by
  refine (blocksInRange_perm reverse).trans ?_
  rw [h.rows, List.filter_map]
  exact .refl _

theorem heights_perm (h : Stored W db blocks) (reverse : Bool) :
    ((blocksInRange db timeAfter timeBefore reverse).map BlockRow.height).Perm
      ((inTime timeAfter timeBefore blocks).map blockHeight) := by
  have hperm : (blocksInRange db timeAfter timeBefore reverse).Perm
      ((inTime timeAfter timeBefore blocks).map (blockRow W)) := perm_inTime h reverse
  have hmap := hperm.map BlockRow.height
  rw [List.map_map] at hmap
  exact hmap

theorem height_pos (h : Stored W db blocks) {row : BlockRow Bytes} (hrow : row ∈ db.block.rows) :
    1 ≤ row.height := by
  rw [h.rows] at hrow
  obtain ⟨block, hblock, rfl⟩ := List.mem_map.1 hrow
  have hmem := h.heights.mem_iff.1 (List.mem_map_of_mem hblock)
  rw [List.mem_range'] at hmem
  obtain ⟨i, -, hi⟩ := hmem
  have hheight : (blockRow W block).height = blockHeight block := rfl
  omega

theorem blockHeight_parseBlock (h : Stored W db blocks) {row : BlockRow Bytes}
    (hrow : row ∈ db.block.rows) : blockHeight (parseBlock W row) = row.height := by
  rw [h.rows] at hrow
  obtain ⟨block, -, rfl⟩ := List.mem_map.1 hrow
  rw [parseBlock_blockRow]
  rfl

/-- The heights in the range are `1, …, k` for some `k`. -/
theorem numbered_iff (h : Stored W db blocks) :
    Numbered BlockRow.height (blocksInRange db timeAfter timeBefore false) ↔
      ∃ k, ((inTime timeAfter timeBefore blocks).map blockHeight).Perm (List.range' 1 k) := by
  have hperm : ((blocksInRange db timeAfter timeBefore false).map BlockRow.height).Perm
      ((inTime timeAfter timeBefore blocks).map blockHeight) := heights_perm h false
  constructor
  · intro hnum
    unfold Numbered at hnum
    exact ⟨_, hperm.symm.trans (.of_eq hnum)⟩
  · rintro ⟨k, hk⟩
    have heq : (blocksInRange db timeAfter timeBefore false).map BlockRow.height =
        List.range' 1 k :=
      List.Perm.eq_of_pairwise
        (fun (a b : Nat) _ _ (hab : a < b) (hba : b < a) => absurd hab (Nat.lt_asymm hba))
        (List.pairwise_map.2 forward_sorted) List.pairwise_lt_range' (hperm.trans hk)
    have hlen := congrArg List.length heq
    rw [List.length_map, List.length_range'] at hlen
    unfold Numbered
    rw [heq, hlen]

/-- With no block in the range every page is empty. -/
theorem pagesRight_of_nil {reverse : Bool} (h : blocksInRange db timeAfter timeBefore reverse = []) :
    PagesRight W db timeAfter timeBefore reverse sizes := by
  refine ⟨0, by rw [h]; rfl, fun i _ => ?_⟩
  rw [(page_rows reverse i).1, h, List.filter_nil, List.take_nil, List.map_nil]

end

/-- **When block paging is right.** For stored blocks with heights `1, …, n`
and any page sizes from 1 on, paging yields each block in the time range
exactly once, in order, and then only empty pages, iff there is no block in
the range, or the list is read forward and the heights in the range are
`1, …, k`. -/
theorem blockList_pages_right_iff (W : Wire Bytes) (db : Db Bytes) (blocks : List Block)
    (timeAfter timeBefore : Option Nat) (reverse : Bool) (sizes : Nat → Nat)
    (hstored : Stored W db blocks) (hsizes : ∀ k, 1 ≤ sizes k) :
    PagesRight W db timeAfter timeBefore reverse sizes ↔
      inTime timeAfter timeBefore blocks = [] ∨
        reverse = false ∧
          ∃ k, ((inTime timeAfter timeBefore blocks).map blockHeight).Perm (List.range' 1 k) := by
  have hnil : blocksInRange db timeAfter timeBefore reverse = [] ↔
      inTime timeAfter timeBefore blocks = [] := by
    rw [← List.map_eq_nil_iff (f := blockRow W), ← List.length_eq_zero_iff,
      (perm_inTime hstored reverse).length_eq, List.length_eq_zero_iff]
  cases reverse with
  | true =>
    rw [← hnil]
    constructor
    · intro hright
      by_contra hne
      exact not_pagesRight_reverse hsizes (fun row hrow => blockHeight_parseBlock hstored hrow)
        (fun h => hne (.inl h)) hright
    · rintro (h | ⟨h, -⟩)
      · exact pagesRight_of_nil h
      · cases h
  | false =>
    rw [← hnil, ← numbered_iff hstored]
    constructor
    · intro hright
      have hle := height_le_of_pagesRight hsizes hright
      refine .inr ⟨rfl, ?_⟩
      have hsorted : ((blocksInRange db timeAfter timeBefore false).map BlockRow.height).Pairwise
          (· < ·) := List.pairwise_map.2 forward_sorted
      have hrange := eq_range'_of_sorted (m := 1) hsorted ?_
      · rwa [List.length_map] at hrange
      · intro k hk
        obtain ⟨row, hrow, rfl⟩ := List.mem_map.1 hk
        have h1 := height_pos hstored (mem_rows hrow)
        have h2 := hle row hrow
        rw [List.length_map]
        omega
    · rintro (h | ⟨-, hnum⟩)
      · exact pagesRight_of_nil h
      · exact pagesRight_of_numbered hsizes hnum

/-- The block table after `applyBlocks`. -/
theorem stored_of_applyBlocks {W : Wire Bytes} {blocks : List Block} {db : Db Bytes}
    (h : applyBlocks W .empty blocks = .ok db)
    (hheights : (blocks.map blockHeight).Perm (List.range' 1 blocks.length)) : Stored W db blocks :=
  ⟨(applyBlocks_log h).1, hheights⟩

/-- Blocks 1 and 2 are in the range, block 3 is not. -/
def timedBlocks : List Block := [⟨1, 10, "", []⟩, ⟨2, 20, "", []⟩, ⟨3, 30, "", []⟩]

theorem blockList_pages_right_iff_timedBlocks :
    ∃ db, applyBlocks plainWire .empty timedBlocks = .ok db ∧
      PagesRight plainWire db none (some 30) false (fun _ => 1) := by
  obtain ⟨db, h⟩ := exists_of_isOk (x := applyBlocks plainWire .empty timedBlocks)
    (by decide +kernel)
  refine ⟨db, h, (blockList_pages_right_iff plainWire db timedBlocks none (some 30) false
    (fun _ => 1) (stored_of_applyBlocks h (by decide)) (fun _ => Nat.le_refl 1)).2
    (.inr ⟨rfl, 2, by decide⟩)⟩

/-- One block, read in reverse: it is on the first page and on the second. -/
theorem blockList_reverse_repeats :
    ¬ ∀ (db : Db (Block ⊕ Transaction)) (blocks : List Block) (timeAfter timeBefore : Option Nat)
      (reverse : Bool) (sizes : Nat → Nat), Stored plainWire db blocks → (∀ k, 1 ≤ sizes k) →
        PagesRight plainWire db timeAfter timeBefore reverse sizes := by
  intro hclaim
  obtain ⟨db, h⟩ := exists_of_isOk (x := applyBlocks plainWire .empty [⟨1, 0, "", []⟩])
    (by decide +kernel)
  have hstored := stored_of_applyBlocks h (by decide)
  refine not_pagesRight_reverse (fun _ => Nat.le_refl 1)
    (fun row hrow => blockHeight_parseBlock hstored hrow) ?_
    (hclaim db _ none none true (fun _ => 1) hstored fun _ => Nat.le_refl 1)
  intro hnil
  have hperm : (blocksInRange db none none true).Perm
      ((inTime none none [⟨1, 0, "", []⟩]).map (blockRow plainWire)) := perm_inTime hstored true
  have hlen := hperm.length_eq
  rw [hnil] at hlen
  exact absurd hlen (by decide)

end Explorer.Iroha
