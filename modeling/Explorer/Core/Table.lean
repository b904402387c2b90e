import Mathlib.Order.Bounds.Defs
import Mathlib.Data.List.Sort

/-!
# SQL tables

A table is the list of its rows in insertion order. The columns declared
UNIQUE are given as `clash`: two rows clash when they agree in one of them.
`INSERT` fails on a clash, so that no two rows of a table clash is a field of
it; `UPDATE` is offered on the other columns only.

`ORDER BY key LIMIT count` sorts by a numeric column. A table whose `key`
column is `1, 2, …` in insertion order (`Numbered`) is sorted already, and
the rows behind a cursor are a suffix of it.

* `insert_eq_some`: when an `INSERT` succeeds, and what it leaves.
* `Numbered.snoc`: a table stays numbered when the next row is inserted.
* `Numbered.sorted`, `Numbered.firstMissing`: its rows are in strictly
  increasing order, and their count gives the first number that is missing.
-/
namespace Explorer

universe u

/-- `clash a b`: the rows agree in a UNIQUE column. -/
class UniqueColumns (Row : Type u) where
  clash : Row → Row → Bool

export UniqueColumns (clash)

@[ext]
structure Table (Row : Type u) [UniqueColumns Row] where
  rows : List Row
  unique : rows.Pairwise fun a b => clash a b = false

namespace Table

variable {Row : Type u} [UniqueColumns Row]

def empty : Table Row := ⟨[], .nil⟩

/-- `SELECT COUNT(1)`. -/
def count (t : Table Row) : Nat := t.rows.length

/-- `INSERT`; `none` is a violated UNIQUE constraint. -/
def insert (t : Table Row) (row : Row) : Option (Table Row) :=
  if h : ∀ r ∈ t.rows, clash r row = false then
    some ⟨t.rows ++ [row], List.pairwise_append.2
      ⟨t.unique, List.pairwise_singleton _ _, fun r hr s hs => by
        rw [List.mem_singleton.1 hs]; exact h r hr⟩⟩
  else none

theorem insert_eq_some {t t' : Table Row} {row : Row} :
    t.insert row = some t' ↔ (∀ r ∈ t.rows, clash r row = false) ∧ t'.rows = t.rows ++ [row] := by
  unfold insert
  split
  · rename_i h
    simp only [Option.some.injEq, Table.ext_iff]
    exact ⟨fun e => ⟨h, e.symm⟩, fun e => e.2.symm⟩
  · rename_i h
    exact ⟨(nomatch ·), fun e => absurd e.1 h⟩

/-- Two rows of a table that agree in a UNIQUE column are one row. -/
theorem eq_of_clash {t : Table Row} {a b : Row} (ha : a ∈ t.rows) (hb : b ∈ t.rows)
    (hab : clash a b = true) (hba : clash b a = true) : a = b := by
  obtain ⟨i, hi, rfl⟩ := List.getElem_of_mem ha
  obtain ⟨j, hj, rfl⟩ := List.getElem_of_mem hb
  have hpair := List.pairwise_iff_getElem.1 t.unique
  rcases Nat.lt_trichotomy i j with hlt | rfl | hgt
  · rw [hpair i j hi hj hlt] at hab; cases hab
  · rfl
  · rw [hpair j i hj hi hgt] at hba; cases hba

/-- `UPDATE … SET … WHERE …` of columns without a constraint. -/
def update (t : Table Row) (p : Row → Bool) (set : Row → Row)
    (h : ∀ a b, clash (set a) b = clash a b ∧ clash a (set b) = clash a b) : Table Row where
  rows := t.rows.map fun r => if p r then set r else r
  unique := by
    rw [List.pairwise_map]
    refine t.unique.imp fun {a b} hab => ?_
    split <;> split
    · rw [(h _ _).1, (h _ _).2, hab]
    · rw [(h _ _).1, hab]
    · rw [(h _ _).2, hab]
    · exact hab

end Table

/-! ## Order and numbering -/

variable {Row : Type u}

/-- `ORDER BY key`. -/
def orderBy (key : Row → Nat) (rows : List Row) : List Row :=
  rows.insertionSort fun a b => key a ≤ key b

theorem orderBy_of_sorted {key : Row → Nat} {rows : List Row}
    (h : rows.Pairwise fun a b => key a < key b) : orderBy key rows = rows :=
  List.Pairwise.insertionSort_eq (h.imp fun hab => Nat.le_of_lt hab)

/-- `ORDER BY key DESC`. -/
def orderByDesc (key : Row → Nat) (rows : List Row) : List Row :=
  rows.insertionSort fun a b => key b ≤ key a

instance total_asc (key : Row → Nat) : Std.Total fun a b : Row => key a ≤ key b :=
  ⟨fun a b => Nat.le_total (key a) (key b)⟩

instance trans_asc (key : Row → Nat) : IsTrans Row fun a b => key a ≤ key b :=
  ⟨fun _ _ _ => Nat.le_trans⟩

instance total_desc (key : Row → Nat) : Std.Total fun a b : Row => key b ≤ key a :=
  ⟨fun a b => Nat.le_total (key b) (key a)⟩

instance trans_desc (key : Row → Nat) : IsTrans Row fun a b => key b ≤ key a :=
  ⟨fun _ _ _ hab hbc => Nat.le_trans hbc hab⟩

/-- Sorting and filtering commute when the order tells all rows apart. -/
theorem insertionSort_filter {r : Row → Row → Prop} [DecidableRel r] [Std.Total r] [IsTrans Row r]
    {rows : List Row} (p : Row → Bool) (hanti : ∀ a ∈ rows, ∀ b ∈ rows, r a b → r b a → a = b) :
    (rows.filter p).insertionSort r = (rows.insertionSort r).filter p := by
  refine List.Perm.eq_of_pairwise ?_ (List.pairwise_insertionSort r _)
    ((List.pairwise_insertionSort r rows).sublist List.filter_sublist) ?_
  · intro a b ha hb
    rw [List.mem_insertionSort] at ha
    exact hanti a (List.mem_of_mem_filter ha) b
      ((List.mem_insertionSort r).1 (List.mem_of_mem_filter hb))
  · exact (List.perm_insertionSort r _).trans ((List.perm_insertionSort r rows).symm.filter p)

/-- The `key` column is `1, 2, …` in insertion order. -/
def Numbered (key : Row → Nat) (rows : List Row) : Prop :=
  rows.map key = List.range' 1 rows.length

theorem numbered_nil (key : Row → Nat) : Numbered key [] := rfl

theorem Numbered.snoc {key : Row → Nat} {rows : List Row} {row : Row} (h : Numbered key rows)
    (hrow : key row = rows.length + 1) : Numbered key (rows ++ [row]) := by
  unfold Numbered at h ⊢
  rw [List.map_append, h, List.length_append, List.length_singleton, List.range'_concat]
  simp [hrow, Nat.add_comm]

theorem numbered_map {A : Type u} {key : Row → Nat} {f : A → Row} {as : List A} :
    Numbered key (as.map f) ↔ Numbered (fun a => key (f a)) as := by
  unfold Numbered
  rw [List.map_map, List.length_map]
  rfl

theorem Numbered.sorted {key : Row → Nat} {rows : List Row} (h : Numbered key rows) :
    rows.Pairwise fun a b => key a < key b := by
  have hs : (rows.map key).Pairwise (· < ·) := by
    unfold Numbered at h
    rw [h]; exact List.pairwise_lt_range'
  exact List.pairwise_map.1 hs

theorem Numbered.pos {key : Row → Nat} {rows : List Row} (h : Numbered key rows) {row : Row}
    (hrow : row ∈ rows) : 1 ≤ key row := by
  have hmem : key row ∈ rows.map key := List.mem_map_of_mem hrow
  unfold Numbered at h
  rw [h, List.mem_range'] at hmem
  omega

theorem Numbered.mem_iff {key : Row → Nat} {rows : List Row} (h : Numbered key rows) {k : Nat} :
    k ∈ rows.map key ↔ 1 ≤ k ∧ k ≤ rows.length := by
  unfold Numbered at h
  rw [h, List.mem_range'_1]
  omega

/-- The row count plus one is the first number that is missing. -/
theorem Numbered.firstMissing {key : Row → Nat} {rows : List Row} (h : Numbered key rows) :
    IsLeast {k | 1 ≤ k ∧ k ∉ rows.map key} (rows.length + 1) := by
  refine ⟨⟨by omega, fun hmem => ?_⟩, fun k ⟨hk, hnot⟩ => ?_⟩
  · have := (h.mem_iff.1 hmem).2
    omega
  · by_contra hlt
    exact hnot (h.mem_iff.2 ⟨hk, by omega⟩)

end Explorer
