import Explorer.Core.Table

/-!
# Keyset paging

A page is `SELECT … WHERE after < key AND … ORDER BY key LIMIT count`; the
client passes the cursor of one page as `after` of the next. The right cursor
behind the first `n` matching rows is the key of the last of them (`cursor`),
0 before the first; it depends on the keys only, so that rows added behind
them do not move it.

* `page_cursor`: with that cursor a page is the next `count` matching rows.
* `cursor_next`: the key of the last row of a page is the cursor behind it.
* `cursor_numbered`: without a filter, on a numbered table, the cursor is the
  number of rows already returned.
* `Cursors.snoc`: a client that keeps the cursor of every page may add one that
  lies behind the others.
* `Windows.grow`, `Windows.snoc`, `Windows.cover`: what is left of that while
  rows are added: pages may overlap, and no row is left out.
-/
namespace Explorer

universe u

variable {Row : Type u}

/-- `SELECT … WHERE p ORDER BY key LIMIT count`. -/
def selectRows (p : Row → Bool) (key : Row → Nat) (count : Nat) (rows : List Row) : List Row :=
  (orderBy key (rows.filter p)).take count

theorem mem_of_mem_selectRows {p : Row → Bool} {key : Row → Nat} {count : Nat} {rows : List Row} {row : Row}
    (h : row ∈ selectRows p key count rows) : row ∈ rows := by
  have hmem := List.mem_of_mem_take h
  rw [orderBy, List.mem_insertionSort] at hmem
  exact List.mem_of_mem_filter hmem

/-- The key of the last of the first `n` keys, 0 for `n = 0`. -/
def cursor (keys : List Nat) (n : Nat) : Nat := ((keys.take n).getLast?).getD 0

@[simp] theorem cursor_zero (keys : List Nat) : cursor keys 0 = 0 := by simp [cursor]

theorem cursor_append {keys new : List Nat} {n : Nat} (hn : n ≤ keys.length) :
    cursor (keys ++ new) n = cursor keys n := by
  rw [cursor, cursor, List.take_append_of_le_length hn]

/-- The cursor lies between the keys it separates. -/
theorem le_cursor {keys : List Nat} {n k : Nat} (hs : keys.Pairwise (· < ·))
    (hk : k ∈ keys.take n) : k ≤ cursor keys n := by
  rcases List.eq_nil_or_concat (keys.take n) with h | ⟨init, last, h⟩
  · rw [h] at hk; cases hk
  · rw [List.concat_eq_append] at h
    have hsn : (init ++ [last]).Pairwise (· < ·) := h ▸ hs.sublist (List.take_sublist n keys)
    rw [cursor, h, List.getLast?_concat, Option.getD_some]
    rw [h, List.mem_append, List.mem_singleton] at hk
    rcases hk with hk | rfl
    · exact Nat.le_of_lt ((List.pairwise_append.1 hsn).2.2 k hk last (List.mem_singleton_self _))
    · exact Nat.le_refl _

theorem cursor_lt {keys : List Nat} {n k : Nat} (hs : keys.Pairwise (· < ·))
    (hpos : ∀ k ∈ keys, 0 < k) (hk : k ∈ keys.drop n) : cursor keys n < k := by
  rw [cursor]
  cases h : (keys.take n).getLast? with
  | none => exact hpos k (List.mem_of_mem_drop hk)
  | some last =>
    have hmem := List.mem_of_getLast? h
    rw [← List.take_append_drop n keys] at hs
    exact (List.pairwise_append.1 hs).2.2 last hmem k hk

/-- The rows behind the cursor are the remaining ones. -/
theorem filter_cursor {key : Row → Nat} {rows : List Row}
    (hs : rows.Pairwise fun a b => key a < key b) (hpos : ∀ r ∈ rows, 0 < key r) (n : Nat) :
    rows.filter (fun r => cursor (rows.map key) n < key r) = rows.drop n := by
  have hs' : (rows.map key).Pairwise (· < ·) := List.pairwise_map.2 hs
  have hpos' : ∀ k ∈ rows.map key, 0 < k := by
    intro k hk
    obtain ⟨r, hr, rfl⟩ := List.mem_map.1 hk
    exact hpos r hr
  have hbefore : (rows.take n).filter (fun r => cursor (rows.map key) n < key r) = [] := by
    refine List.filter_eq_nil_iff.2 fun r hr => ?_
    have hle := le_cursor (n := n) (k := key r) hs'
      (by rw [← List.map_take]; exact List.mem_map_of_mem hr)
    simpa using hle
  have hbehind : (rows.drop n).filter (fun r => cursor (rows.map key) n < key r) = rows.drop n := by
    refine List.filter_eq_self.2 fun r hr => ?_
    have hlt := cursor_lt (n := n) (k := key r) hs' hpos'
      (by rw [← List.map_drop]; exact List.mem_map_of_mem hr)
    simpa using hlt
  conv_lhs => rw [← List.take_append_drop n rows, List.filter_append, List.take_append_drop]
  rw [hbefore, hbehind, List.nil_append]

/-- **A page is the next rows.** -/
theorem page_cursor {key : Row → Nat} {rows : List Row} (p : Row → Bool)
    (hs : rows.Pairwise fun a b => key a < key b) (hpos : ∀ r ∈ rows, 0 < key r) (n count : Nat) :
    selectRows (fun r => cursor ((rows.filter p).map key) n < key r && p r) key count rows =
      ((rows.filter p).drop n).take count := by
  have hfilter : rows.filter (fun r => cursor ((rows.filter p).map key) n < key r && p r) =
      (rows.filter p).drop n := by
    rw [← List.filter_filter]
    exact filter_cursor (hs.sublist List.filter_sublist)
      (fun r hr => hpos r (List.mem_of_mem_filter hr)) n
  rw [selectRows, hfilter, orderBy_of_sorted]
  exact hs.sublist ((List.drop_sublist n _).trans List.filter_sublist)

/-- The first `n` rows and a page behind them are the first rows again. -/
theorem take_page {A : Type u} (rows : List A) (n count : Nat) :
    rows.take (n + ((rows.drop n).take count).length) = rows.take n ++ (rows.drop n).take count := by
  rw [List.take_add]
  congr 1
  rw [List.take_eq_take_iff, List.length_take]
  omega

/-- The last key of a page, or the old cursor if it is empty, is the cursor
behind the page. -/
theorem cursor_next (keys : List Nat) (n count : Nat) :
    (((keys.drop n).take count).getLast?).getD (cursor keys n) =
      cursor keys (n + ((keys.drop n).take count).length) := by
  rw [cursor, cursor, take_page, List.getLast?_append]
  cases ((keys.drop n).take count).getLast? <;> simp

theorem cursor_numbered {key : Row → Nat} {rows : List Row} (h : Numbered key rows) {n : Nat}
    (hn : n ≤ rows.length) : cursor (rows.map key) n = n := by
  unfold Numbered at h
  have htake : (List.range' 1 rows.length).take n = List.range' 1 n := by
    obtain ⟨m, hm⟩ := Nat.exists_eq_add_of_le hn
    rw [hm, ← List.range'_append_1, List.take_left' (List.length_range')]
  rw [cursor, h, htake]
  cases n with
  | zero => rfl
  | succ n => simp [List.range'_concat, Nat.add_comm]

/-- On a numbered table any number is a cursor. -/
theorem filter_numbered {key : Row → Nat} {rows : List Row} (h : Numbered key rows) (n : Nat) :
    rows.filter (fun r => n < key r) = rows.drop n := by
  by_cases hn : n ≤ rows.length
  · have hfilter := filter_cursor h.sorted (fun r hr => h.pos hr) n
    rwa [cursor_numbered h hn] at hfilter
  · rw [List.drop_of_length_le (by omega)]
    refine List.filter_eq_nil_iff.2 fun r hr => ?_
    have hmem : key r ∈ rows.map key := List.mem_map_of_mem hr
    have := (h.mem_iff).1 hmem
    simp only [decide_eq_true_eq]
    omega

/-! ## Rows in any order -/

theorem numbered_orderBy {key : Row → Nat} {rows : List Row}
    (h : (rows.map key).Perm (List.range' 1 rows.length)) : Numbered key (orderBy key rows) := by
  have hperm : (orderBy key rows).Perm rows := List.perm_insertionSort _ rows
  unfold Numbered
  rw [hperm.length_eq]
  refine ((hperm.map key).trans h).eq_of_pairwise (fun a b _ _ => Nat.le_antisymm) ?_ ?_
  · exact List.pairwise_map.2 (List.pairwise_insertionSort _ rows)
  · exact (List.pairwise_lt_range').imp fun hab => Nat.le_of_lt hab

theorem orderBy_filter {key : Row → Nat} {rows : List Row} (h : Numbered key (orderBy key rows)) (p : Row → Bool) :
    orderBy key (rows.filter p) = (orderBy key rows).filter p := by
  refine insertionSort_filter p fun a ha b hb hab hba => ?_
  have hkey : key a = key b := Nat.le_antisymm hab hba
  have hnodup : ((orderBy key rows).map key).Nodup := by
    rw [show (orderBy key rows).map key = _ from h]
    exact List.nodup_range'
  have hmem : ∀ {r}, r ∈ rows → r ∈ orderBy key rows := fun hr => (List.mem_insertionSort _).2 hr
  exact List.inj_on_of_nodup_map hnodup (hmem ha) (hmem hb) hkey

/-! ## The cursors of the pages -/

theorem cursor_le_cursor {keys : List Nat} {m n : Nat} (hs : keys.Pairwise (· < ·)) (hmn : m ≤ n) :
    cursor keys m ≤ cursor keys n := by
  rw [cursor]
  cases h : (keys.take m).getLast? with
  | none => exact Nat.zero_le _
  | some last => exact le_cursor hs ((List.take_prefix_take_left hmn).subset (List.mem_of_getLast? h))

/-- A short page is the last one. -/
theorem cursor_page (keys : List Nat) (n count : Nat) :
    cursor keys (n + ((keys.drop n).take count).length) = cursor keys (n + count) := by
  rw [cursor, cursor, take_page, ← List.take_add]

/-- The cursor of each page. -/
def Cursors (keys : List Nat) (size : Nat) (pages : List Nat) : Prop :=
  ∀ i (h : i < pages.length), pages[i] = cursor keys (i * size)

theorem cursors_first (keys : List Nat) (size : Nat) : Cursors keys size [0] := by
  intro i hi
  obtain rfl : i = 0 := by simpa using hi
  simp

/-- The cursor behind a page lies behind all the others when it is the last
page of the list. -/
theorem Cursors.snoc {keys pages : List Nat} {size page last : Nat} (hs : keys.Pairwise (· < ·))
    (h : Cursors keys size pages) (hpage : page < pages.length) (hlast : pages.getLast? = some last)
    (hlt : last < cursor keys (page * size + size)) :
    Cursors keys size (pages ++ [cursor keys (page * size + size)]) := by
  have hlen : pages.length - 1 < pages.length := by omega
  have hcursor : last = cursor keys ((pages.length - 1) * size) := by
    rw [List.getLast?_eq_getElem?, List.getElem?_eq_getElem hlen] at hlast
    rw [← Option.some.inj hlast, h _ hlen]
  have heq : page = pages.length - 1 := by
    by_contra hne
    have hmul : (page + 1) * size ≤ (pages.length - 1) * size := Nat.mul_le_mul_right _ (by omega)
    have hle := cursor_le_cursor hs hmul
    rw [Nat.succ_mul] at hle
    omega
  intro i hi
  rw [List.length_append, List.length_singleton] at hi
  by_cases hold : i < pages.length
  · rw [List.getElem_append_left hold, h i hold]
  · obtain rfl : i = pages.length := by omega
    have hsucc : page + 1 = pages.length := by omega
    rw [List.getElem_concat_length, ← Nat.succ_mul, Nat.succ_eq_add_one, hsucc]
    rfl

/-! ## Cursors kept while rows are added

A page that was short when its cursors were read may be filled by later rows.
The next page then starts within it: rows come twice, none is left out. -/

section
variable {key : Row → Nat} {rows : List Row}

/-- The rows behind a cursor that a page shows. -/
def pageBehind (key : Row → Nat) (rows : List Row) (size c : Nat) : List Row :=
  (rows.filter fun row => c < key row).take size

/-- The key of the last row of that page. -/
def cursorBehind (key : Row → Nat) (rows : List Row) (size c : Nat) : Nat :=
  ((pageBehind key rows size c).map key).getLast?.getD c

/-- The rows between a cursor and the next one fit on a page, and every cursor
is the key of a row. -/
structure Windows (key : Row → Nat) (rows : List Row) (size : Nat) (pages : List Nat) : Prop where
  first : pages[0]? = some 0
  sorted : pages.Pairwise (· < ·)
  fits : ∀ (i a b : Nat), pages[i]? = some a → pages[i + 1]? = some b →
    (rows.filter fun row => a < key row ∧ key row ≤ b).length ≤ size
  known : ∀ c ∈ pages, c = 0 ∨ ∃ row ∈ rows, key row = c

/-- What has no larger key than a row of an initial part lies in it. -/
theorem mem_of_le_of_prefix {rows₀ : List Row} (hs : rows.Pairwise fun a b => key a < key b) (hpre : rows₀ <+: rows)
    {row r : Row} (hrow : row ∈ rows) (hr : r ∈ rows₀) (hle : key row ≤ key r) : row ∈ rows₀ := by
  obtain ⟨rest, rfl⟩ := hpre
  rcases List.mem_append.1 hrow with hmem | hmem
  · exact hmem
  · have hlt := (List.pairwise_append.1 hs).2.2 r hr row hmem
    omega

theorem windows_first (key : Row → Nat) (rows : List Row) (size : Nat) : Windows key rows size [0] where
  first := rfl
  sorted := List.pairwise_singleton ..
  fits _ _ _ _ h := by cases h
  known c hc := .inl (List.mem_singleton.1 hc)

/-- Rows are added behind the others. -/
theorem Windows.grow {size : Nat} {pages : List Nat} {rows' : List Row} (h : Windows key rows size pages)
    (hs : rows'.Pairwise fun a b => key a < key b) (hgrow : rows <+: rows') : Windows key rows' size pages where
  first := h.first
  sorted := h.sorted
  fits i a b ha hb := by
    have hfits := h.fits i a b ha hb
    obtain ⟨hi, -⟩ := List.getElem?_eq_some_iff.1 ha
    rcases h.known b (List.mem_of_getElem? hb) with rfl | ⟨r, hr, rfl⟩
    · rw [List.filter_eq_nil_iff.2]
      · exact Nat.zero_le _
      · intro row _ hcond
        have := of_decide_eq_true hcond
        omega
    · obtain ⟨new, rfl⟩ := hgrow
      have hnone : (new.filter fun row => a < key row ∧ key row ≤ key r) = [] := by
        refine List.filter_eq_nil_iff.2 fun row hrow hcond => ?_
        have hlt := (List.pairwise_append.1 hs).2.2 r hr row hrow
        have := (of_decide_eq_true hcond).2
        omega
      rwa [List.filter_append, hnone, List.append_nil]
  known c hc := (h.known c hc).imp_right fun ⟨r, hr, heq⟩ => ⟨r, hgrow.subset hr, heq⟩

theorem nodup_of_increasing (hs : rows.Pairwise fun a b => key a < key b) : rows.Nodup :=
  List.Pairwise.imp (fun hab heq => by rw [heq] at hab; exact Nat.lt_irrefl _ hab) hs

/-- A cursor that has moved on is the key of a row of the page. -/
theorem exists_cursorBehind {size c : Nat} (h : c < cursorBehind key rows size c) :
    ∃ r ∈ pageBehind key rows size c, key r = cursorBehind key rows size c := by
  unfold cursorBehind at h ⊢
  cases hend : ((pageBehind key rows size c).map key).getLast? with
  | none =>
    rw [hend, Option.getD_none] at h
    exact absurd h (Nat.lt_irrefl c)
  | some k => exact List.mem_map.1 (List.mem_of_getLast? hend)

/-- The rows up to the cursor behind a page are on that page, however many
have been added since. -/
theorem mem_pageBehind_of_le {size c : Nat} {rows₀ : List Row} (hs : rows.Pairwise fun a b => key a < key b)
    (hpre : rows₀ <+: rows) {row : Row} (hrow : row ∈ rows) (hc : c < key row)
    (hle : key row ≤ cursorBehind key rows₀ size c) : row ∈ pageBehind key rows₀ size c := by
  obtain ⟨r, hr, hkey⟩ := exists_cursorBehind (Nat.lt_of_lt_of_le hc hle)
  rw [← hkey] at hle
  have hs₀ : (rows₀.filter fun row => c < key row).Pairwise fun a b => key a < key b :=
    (hs.sublist hpre.sublist).sublist List.filter_sublist
  have hmem₀ := mem_of_le_of_prefix hs hpre hrow (List.mem_of_mem_filter (List.mem_of_mem_take hr)) hle
  exact mem_of_le_of_prefix hs₀ (List.take_prefix ..) (List.mem_filter.2 ⟨hmem₀, decide_eq_true hc⟩) hr hle

theorem Windows.le_last {size last : Nat} {pages : List Nat} (h : Windows key rows size pages)
    (hlast : pages.getLast? = some last) : ∀ c ∈ pages, c ≤ last := by
  intro c hc
  obtain ⟨init, rfl⟩ := List.getLast?_eq_some_iff.1 hlast
  rcases List.mem_append.1 hc with hmem | hmem
  · exact Nat.le_of_lt ((List.pairwise_append.1 h.sorted).2.2 c hmem last (List.mem_singleton_self _))
  · exact Nat.le_of_eq (List.mem_singleton.1 hmem)

/-- **A cursor that lies behind the others may be added**, whichever page it
was read from, and whenever. -/
theorem Windows.snoc {size page c last : Nat} {pages : List Nat} {rows₀ : List Row} (h : Windows key rows size pages)
    (hs : rows.Pairwise fun a b => key a < key b) (hpre : rows₀ <+: rows) (hpage : pages[page]? = some c)
    (hlast : pages.getLast? = some last) (hlt : last < cursorBehind key rows₀ size c) :
    Windows key rows size (pages ++ [cursorBehind key rows₀ size c]) := by
  have hc : c ≤ last := h.le_last hlast c (List.mem_of_getElem? hpage)
  refine ⟨?_, ?_, fun i a b ha hb => ?_, fun a ha => ?_⟩
  · have hlen : 0 < pages.length := (List.getElem?_eq_some_iff.1 h.first).1
    rw [List.getElem?_append_left hlen]
    exact h.first
  · refine List.pairwise_append.2 ⟨h.sorted, List.pairwise_singleton .., fun a ha b hb => ?_⟩
    rw [List.mem_singleton.1 hb]
    exact Nat.lt_of_le_of_lt (h.le_last hlast a ha) hlt
  · by_cases hi : i + 1 < pages.length
    · rw [List.getElem?_append_left (by omega)] at ha
      rw [List.getElem?_append_left hi] at hb
      exact h.fits i a b ha hb
    · have hlen : i + 1 = pages.length := by
        have := (List.getElem?_eq_some_iff.1 hb).1
        rw [List.length_append, List.length_singleton] at this
        omega
      rw [hlen, List.getElem?_concat_length, Option.some.injEq] at hb
      rw [List.getElem?_append_left (by omega)] at ha
      have ha' : a = last := by
        rw [List.getLast?_eq_getElem?, ← hlen, Nat.add_sub_cancel, ha] at hlast
        exact Option.some.inj hlast
      subst hb ha'
      -- the rows in between are rows of the page that the cursor was read from
      have hsub : (rows.filter fun row => a < key row ∧ key row ≤ cursorBehind key rows₀ size c) ⊆
          pageBehind key rows₀ size c := by
        intro row hrow
        obtain ⟨hmem, hcond⟩ := List.mem_filter.1 hrow
        obtain ⟨hgt, hle⟩ := of_decide_eq_true hcond
        exact mem_pageBehind_of_le hs hpre hmem (Nat.lt_of_le_of_lt hc hgt) hle
      have hnodup := nodup_of_increasing (hs.sublist (List.filter_sublist
        (p := fun row => decide (a < key row ∧ key row ≤ cursorBehind key rows₀ size c))))
      exact (List.Nodup.length_le_of_subset hnodup hsub).trans (List.length_take_le ..)
  · rcases List.mem_append.1 ha with hmem | hmem
    · exact h.known a hmem
    · rw [List.mem_singleton.1 hmem]
      obtain ⟨r, hr, hkey⟩ := exists_cursorBehind (Nat.lt_of_le_of_lt hc hlt)
      exact .inr ⟨r, hpre.subset (List.mem_of_mem_filter (List.mem_of_mem_take hr)), hkey⟩

/-- A row behind a cursor is on its page, or the page is full before it. -/
theorem mem_pageBehind (hs : rows.Pairwise fun a b => key a < key b) {row : Row} (hrow : row ∈ rows) {size c : Nat}
    (hc : c < key row) : row ∈ pageBehind key rows size c ∨
      (pageBehind key rows size c).length = size ∧ ∀ r ∈ pageBehind key rows size c, key r < key row := by
  have hmem : row ∈ rows.filter fun row => c < key row := List.mem_filter.2 ⟨hrow, decide_eq_true hc⟩
  have hsplit := List.take_append_drop size (rows.filter fun row => c < key row)
  rw [← hsplit] at hmem
  rcases List.mem_append.1 hmem with htake | hdrop
  · exact .inl htake
  · have hsf : (rows.filter fun row => c < key row).Pairwise fun a b => key a < key b :=
      hs.sublist List.filter_sublist
    rw [← hsplit] at hsf
    have hlen := List.length_pos_of_mem hdrop
    rw [List.length_drop] at hlen
    refine .inr ⟨?_, fun r hr => (List.pairwise_append.1 hsf).2.2 r hr row hdrop⟩
    rw [pageBehind, List.length_take]
    omega

/-- **No row is left out**: a row is on a page, or the last page is full before
it. -/
theorem Windows.cover {size : Nat} {pages : List Nat} (h : Windows key rows size pages)
    (hs : rows.Pairwise fun a b => key a < key b) {row : Row} (hrow : row ∈ rows) (hpos : 0 < key row) :
    ∃ page c, pages[page]? = some c ∧ (row ∈ pageBehind key rows size c ∨
      page + 1 = pages.length ∧ (pageBehind key rows size c).length = size ∧
        ∀ r ∈ pageBehind key rows size c, key r < key row) := by
  -- the last page that starts before the row
  have hstart : ∀ n, n < pages.length → ∃ page c, page ≤ n ∧ pages[page]? = some c ∧ c < key row ∧
      ∀ b, pages[page + 1]? = some b → page + 1 ≤ n → key row ≤ b := by
    intro n
    induction n with
    | zero => exact fun _ => ⟨0, 0, Nat.le_refl 0, h.first, hpos, fun _ _ hle => by omega⟩
    | succ n ih =>
      intro hn
      have hget := List.getElem?_eq_getElem hn
      by_cases hlt : pages[n + 1] < key row
      · exact ⟨n + 1, pages[n + 1], Nat.le_refl _, hget, hlt, fun _ _ hle => by omega⟩
      · obtain ⟨page, c, hpage, hc, hbefore, hnext⟩ := ih (by omega)
        refine ⟨page, c, by omega, hc, hbefore, fun b hb hle => ?_⟩
        by_cases heq : page = n
        · rw [heq, hget, Option.some.injEq] at hb
          omega
        · exact hnext b hb (by omega)
  have hlen : 0 < pages.length := (List.getElem?_eq_some_iff.1 h.first).1
  obtain ⟨page, c, hpage, hc, hbefore, hnext⟩ := hstart (pages.length - 1) (by omega)
  refine ⟨page, c, hc, ?_⟩
  rcases (mem_pageBehind hs hrow hbefore : row ∈ pageBehind key rows size c ∨ _) with hmem | ⟨hfull, hall⟩
  · exact .inl hmem
  · by_cases hlast : page + 1 = pages.length
    · exact .inr ⟨hlast, hfull, hall⟩
    · -- the page would hold one row more than fit between the cursors
      have hnextpage : page + 1 < pages.length := by omega
      have hle := hnext _ (List.getElem?_eq_getElem hnextpage) (by omega)
      have hfits := h.fits page c _ hc (List.getElem?_eq_getElem hnextpage)
      have hsub : (row :: pageBehind key rows size c) ⊆
          rows.filter fun r => c < key r ∧ key r ≤ pages[page + 1] := by
        intro r hr
        rcases List.mem_cons.1 hr with rfl | hr
        · exact List.mem_filter.2 ⟨hrow, decide_eq_true ⟨hbefore, hle⟩⟩
        · have hkey := hall r hr
          obtain ⟨hmem, hcond⟩ := List.mem_filter.1 (List.mem_of_mem_take hr)
          exact List.mem_filter.2 ⟨hmem, decide_eq_true ⟨of_decide_eq_true hcond, by omega⟩⟩
      have hnodup : (row :: pageBehind key rows size c).Nodup := by
        refine List.nodup_cons.2 ⟨fun hmem => Nat.lt_irrefl _ (hall row hmem), ?_⟩
        exact nodup_of_increasing ((hs.sublist List.filter_sublist).sublist (List.take_sublist ..))
      have hmany := List.Nodup.length_le_of_subset hnodup hsub
      rw [List.length_cons, hfull] at hmany
      omega

/-- On a numbered table the pages are made up of the rows in their order. -/
theorem mem_pageBehind_numbered (h : Numbered key rows) {row : Row} (hrow : row ∈ rows) {size : Nat}
    (hsize : 0 < size) :
    row ∈ pageBehind key rows size ((key row - 1) / size * size) := by
  obtain ⟨i, hi, rfl⟩ := List.getElem_of_mem hrow
  have hkey : key rows[i] = 1 + i := by
    have hget := congrArg (fun l => l[i]?) h
    simpa [hi] using hget
  have hbelow := Nat.div_mul_le_self i size
  have habove := Nat.lt_div_mul_add (a := i) hsize
  rw [hkey, Nat.add_sub_cancel_left, pageBehind, filter_numbered h]
  refine List.mem_of_getElem? (i := i - i / size * size) ?_
  rw [List.getElem?_take_of_lt (by omega), List.getElem?_drop, Nat.add_sub_cancel' hbelow,
    List.getElem?_eq_getElem hi]

end

end Explorer
