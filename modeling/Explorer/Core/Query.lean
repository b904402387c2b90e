import Mathlib.Algebra.Ring.Nat
import Mathlib.Data.List.Dedup
import Mathlib.Data.List.Sort

/-!
# SQL queries

A query is a function of the lists of rows of its tables. Without `ORDER BY`
its rows come in table order. A record is what the driver makes of a row: its
columns, under their names, in the order of the select list.

A table restricted to the rows that meet `p` answers the queries whose
conditions imply `p` like the whole table: `filter_restrict`,
`innerJoin_restrict`.

A left join on sorted, different rows, grouped by these rows, has one group
for each of them: `groupBy_leftJoin`. Sums over groups are sums over the
table: `sum_groups`.
-/
namespace Explorer.Query

universe u v w

/-- A column value. `undefined` is what a JavaScript object answers for a
column that it does not have. -/
inductive Value where
  | undefined
  | null
  | num (n : Int)
  | text (s : String)
  | texts (ss : List String)
  | pairs (ss : List (String × String))
  deriving DecidableEq, Repr

def Value.ofOption : Option String → Value
  | none => .null
  | some s => .text s

abbrev Record := List (String × Value)

/-- What a promise of a query settles with. -/
inductive Answer where
  | row (r : Option Record)
  | rows (rs : List Record)
  | value (v : Value)
  | values (vs : List Value)
  | rejected (message : String)
  deriving DecidableEq, Repr

section
variable {A : Type u} {B : Type v}

/-- `as INNER JOIN bs ON on`. -/
def innerJoin (as : List A) (bs : List B) (on : A → B → Bool) : List (A × B) :=
  as.flatMap fun a => (bs.filter (on a)).map fun b => (a, b)

/-- `as LEFT JOIN bs ON on`. -/
def leftJoin (as : List A) (bs : List B) (on : A → B → Bool) : List (A × Option B) :=
  as.flatMap fun a =>
    match bs.filter (on a) with
    | [] => [(a, none)]
    | matched => matched.map fun b => (a, some b)

/-- `GROUP BY key ORDER BY key`. -/
def groupBy {K : Type w} [LinearOrder K] (key : A → K) (rows : List A) : List (K × List A) :=
  ((rows.map key).dedup.insertionSort (· ≤ ·)).map fun k => (k, rows.filter fun a => key a = k)

/-- The value of a query that stands in an expression. -/
def scalar (rows : List A) : Except String (Option A) :=
  match rows with
  | [] => .ok none
  | [a] => .ok (some a)
  | _ => .error "more than one row returned by a subquery used as an expression"

/-- `array_agg`. -/
def arrayAgg (texts : List String) : Value := if texts = [] then .null else .texts texts

/-- `res.rows[0]`. -/
def firstRow (rs : List Record) : Answer := .row rs.head?

/-- `SELECT count(1) AS name`. -/
def countRows (name : String) (rows : List A) : Answer := .row (some [(name, .num rows.length)])

/-! ## Restricted tables -/

theorem filter_restrict {p q : A → Bool} {rows : List A} (h : ∀ a, q a = true → p a = true) :
    (rows.filter p).filter q = rows.filter q := by
  rw [List.filter_filter]
  refine List.filter_congr fun a _ => ?_
  cases hq : q a with
  | false => rfl
  | true => rw [h a hq]; rfl

theorem innerJoin_restrict {p : B → Bool} {as : List A} {bs : List B} {on : A → B → Bool}
    (h : ∀ a ∈ as, ∀ b, on a b = true → p b = true) :
    innerJoin as (bs.filter p) on = innerJoin as bs on := by
  unfold innerJoin
  rw [List.flatMap_def, List.flatMap_def]
  refine congrArg List.flatten (List.map_congr_left fun a ha => ?_)
  rw [filter_restrict (h a ha)]

end

/-! ## Groups -/

section
variable {K : Type u} {B : Type v} {ks : List K} {bs : List B} {on : K → B → Bool}

theorem mem_leftJoin_fst {k : K} : k ∈ (leftJoin ks bs on).map Prod.fst ↔ k ∈ ks := by
  simp only [leftJoin, List.map_flatMap, List.mem_flatMap]
  constructor
  · rintro ⟨k', hk', hmem⟩
    split at hmem
    · rw [List.map_singleton, List.mem_singleton] at hmem
      exact hmem ▸ hk'
    · simp only [List.map_map, List.mem_map, Function.comp] at hmem
      obtain ⟨b, -, rfl⟩ := hmem
      exact hk'
  · intro hk
    refine ⟨k, hk, ?_⟩
    split
    · simp
    · rename_i hne
      obtain ⟨b, bs', hmatched⟩ := List.exists_cons_of_ne_nil hne
      rw [hmatched]
      simp

variable [LinearOrder K]

/-- The rows of one key in the join. -/
theorem filter_leftJoin (hks : ks.Nodup) {k : K} (hk : k ∈ ks) :
    (leftJoin ks bs on).filter (fun r => r.1 = k) = leftJoin [k] bs on := by
  have hfst : ∀ k', ∀ r ∈ leftJoin [k'] bs on, r.1 = k' := fun k' r hr =>
    List.mem_singleton.1 (mem_leftJoin_fst.1 (List.mem_map_of_mem hr))
  induction ks with
  | nil => cases hk
  | cons k' ks ih =>
    obtain ⟨hnot, hnodup⟩ := List.nodup_cons.1 hks
    have hsplit : leftJoin (k' :: ks) bs on = leftJoin [k'] bs on ++ leftJoin ks bs on := by
      simp [leftJoin]
    rw [hsplit, List.filter_append]
    obtain rfl | hin := List.mem_cons.1 hk
    · have hself : (leftJoin [k] bs on).filter (fun r => r.1 = k) = leftJoin [k] bs on :=
        List.filter_eq_self.2 fun r hr => decide_eq_true (hfst k r hr)
      have hrest : (leftJoin ks bs on).filter (fun r => r.1 = k) = [] := by
        refine List.filter_eq_nil_iff.2 fun r hr hrk => hnot ?_
        rw [← of_decide_eq_true hrk]
        exact mem_leftJoin_fst.1 (List.mem_map_of_mem hr)
      rw [hself, hrest, List.append_nil]
    · have hnone : (leftJoin [k'] bs on).filter (fun r => r.1 = k) = [] := by
        refine List.filter_eq_nil_iff.2 fun r hr hrk => hnot ?_
        rw [← hfst k' r hr, of_decide_eq_true hrk]
        exact hin
      rw [hnone, List.nil_append, ih hnodup hin]

theorem groupBy_leftJoin (hks : ks.Pairwise (· < ·)) :
    groupBy Prod.fst (leftJoin ks bs on) = ks.map fun k => (k, leftJoin [k] bs on) := by
  have hnodup : ks.Nodup := hks.imp ne_of_lt
  have hperm : ((leftJoin ks bs on).map Prod.fst).dedup.Perm ks :=
    (List.perm_ext_iff_of_nodup (List.nodup_dedup _) hnodup).2 fun k => by
      rw [List.mem_dedup, mem_leftJoin_fst]
  have hsort : (((leftJoin ks bs on).map Prod.fst).dedup).insertionSort (· ≤ ·) = ks := by
    refine List.Perm.eq_of_pairwise (fun a b _ _ => le_antisymm) (List.pairwise_insertionSort _ _)
      (hks.imp le_of_lt) ((List.perm_insertionSort _ _).trans hperm)
  rw [groupBy, hsort]
  refine List.map_congr_left fun k hk => ?_
  rw [filter_leftJoin hnodup hk]

end

section
variable {R : Type u} (w : R → Nat)

/-- Dropping the rows that do not meet `q` changes a sum if and only if one
of them counts. -/
theorem sum_filter_and_iff (p q : R → Bool) (rows : List R) :
    ((rows.filter fun r => p r && q r).map w).sum = ((rows.filter p).map w).sum ↔
      ∀ r ∈ rows, p r = true → q r = false → w r = 0 := by
  have hle : ∀ rows : List R, ((rows.filter fun r => p r && q r).map w).sum ≤ ((rows.filter p).map w).sum := by
    intro rows
    induction rows with
    | nil => exact Nat.le_refl _
    | cons r rows ih =>
      cases hp : p r <;> cases hq : q r <;> simp [hp, hq] <;> omega
  induction rows with
  | nil => simp
  | cons r rows ih =>
    have := hle rows
    simp only [List.mem_cons, forall_eq_or_imp, ← ih]
    cases hp : p r <;> cases hq : q r <;> simp [hp, hq]
    omega

/-- The groups of different keys together. -/
theorem sum_groups {K : Type v} [DecidableEq K] (key : R → K) {ks : List K} (hks : ks.Nodup) (rows : List R) :
    (ks.map fun k => ((rows.filter fun r => key r = k).map w).sum).sum =
      ((rows.filter fun r => key r ∈ ks).map w).sum := by
  induction ks with
  | nil => simp
  | cons k ks ih =>
    obtain ⟨hnot, hnodup⟩ := List.nodup_cons.1 hks
    rw [List.map_cons, List.sum_cons, ih hnodup]
    clear ih
    induction rows with
    | nil => rfl
    | cons r rows ihr =>
      by_cases hk : key r = k
      · simp [hk, hnot] at ihr ⊢
        omega
      · by_cases hin : key r ∈ ks <;> simp [hk, hin] at ihr ⊢ <;> omega

/-- Every row is in one of the groups. -/
theorem sum_groups_of_mem {K : Type v} [DecidableEq K] (key : R → K) {ks : List K} (hks : ks.Nodup) {rows : List R}
    (hall : ∀ r ∈ rows, key r ∈ ks) :
    (ks.map fun k => ((rows.filter fun r => key r = k).map w).sum).sum = (rows.map w).sum := by
  rw [sum_groups w key hks, List.filter_eq_self.2 fun r hr => decide_eq_true (hall r hr)]

end
end Explorer.Query
