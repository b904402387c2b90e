import Explorer.Core.Buckets
import Explorer.Iroha.Db

/-!
# Blocks and transactions per minute and hour

`countPerBucket` is one query: a generated series of buckets, a left join with
the blocks that fall into each of them, and one number for each group. Instants
are numbers of milliseconds, of a session in UTC, where hours and minutes are
multiples of their length. They have no end, and neither has an interval: where
a timestamp of PostgreSQL stops is left out.

The join asks for `created_time > after` where `after` is the start of the
first bucket, so a block created exactly then is in no bucket.

* `countPerBucket_eq`: the answer, bucket by bucket.
* `countPerBucket_exact_iff`: it counts every block of the window once if and
  only if no block that counts was created at its very start.
-/
namespace Explorer.Iroha

open Query Buckets

variable {Bytes : Type}

inductive BucketUnit where
  | minute
  | hour
  deriving DecidableEq, Repr

def BucketUnit.ms : BucketUnit → Int
  | .minute => 60000
  | .hour => 3600000

inductive Counted where
  | block
  | transaction
  deriving DecidableEq, Repr

/-- `DATE_TRUNC(unit, t)` -/
def dateTrunc (unit : BucketUnit) (t : Int) : Int := trunc unit.ms t

/-- `SUM`, which is NULL of no rows. -/
def sum (xs : List Nat) : Option Nat := if xs = [] then none else some xs.sum

/-- `COUNT(block.*)` or `COALESCE(SUM(transaction_count), 0)`; `none` is the
row of a bucket without a block. -/
def Counted.aggregate (what : Counted) (rows : List (Option (BlockRow Bytes))) : Nat :=
  match what with
  | .block => rows.countP Option.isSome
  | .transaction => (sum (rows.filterMap fun row => row.map BlockRow.transactionCount)).getD 0

/-- The start of the first bucket. -/
def bucketsAfter (unit : BucketUnit) (count : Nat) (now : Int) : Int :=
  dateTrunc unit now - ((count : Int) - 1) * unit.ms

/-- mirrors iroha/src/iroha-db.ts:423-439 -/
def countPerBucket (what : Counted) (unit : BucketUnit) (count : Nat) (now : Int)
    (block : List (BlockRow Bytes)) : List Nat :=
  let after := bucketsAfter unit count now
  let buckets := series after (dateTrunc unit now) unit.ms
  let joined := leftJoin buckets block fun bucket row =>
    dateTrunc unit row.createdTime = bucket && after < row.createdTime
  (groupBy Prod.fst joined).map fun group => what.aggregate (group.2.map Prod.snd)

/-- mirrors iroha/src/iroha-db.ts:400-414 -/
def transactionCountPerMinute (count : Nat) (now : Int) (db : Db Bytes) : List Nat :=
  countPerBucket .transaction .minute count now db.block.rows
def transactionCountPerHour (count : Nat) (now : Int) (db : Db Bytes) : List Nat :=
  countPerBucket .transaction .hour count now db.block.rows
def blockCountPerMinute (count : Nat) (now : Int) (db : Db Bytes) : List Nat :=
  countPerBucket .block .minute count now db.block.rows
def blockCountPerHour (count : Nat) (now : Int) (db : Db Bytes) : List Nat :=
  countPerBucket .block .hour count now db.block.rows

/-! ## What is to be counted -/

/-- What one block adds. -/
def Counted.weight (what : Counted) (row : BlockRow Bytes) : Nat :=
  match what with
  | .block => 1
  | .transaction => row.transactionCount

def Counted.total (what : Counted) (rows : List (BlockRow Bytes)) : Nat := (rows.map what.weight).sum

/-- One number for each of `count` buckets ending with that of `now`, and
together the blocks from the start of the first to the end of the last. -/
structure CountsOnce (what : Counted) (unit : BucketUnit) (count : Nat) (now : Int)
    (block : List (BlockRow Bytes)) : Prop where
  buckets : countPerBucket what unit count now block = (List.range count).map fun i : Nat =>
    what.total (block.filter fun row =>
      dateTrunc unit row.createdTime = bucketsAfter unit count now + i * unit.ms)
  sum : (countPerBucket what unit count now block).sum = what.total (block.filter fun row =>
    bucketsAfter unit count now ≤ row.createdTime ∧ row.createdTime < dateTrunc unit now + unit.ms)

/-! ## Buckets -/

theorem ms_pos (unit : BucketUnit) : 0 < unit.ms := by
  cases unit <;> decide

theorem bucketsAfter_succ (unit : BucketUnit) (n : Nat) (now : Int) :
    bucketsAfter unit (n + 1) now = dateTrunc unit now - n * unit.ms := by
  rw [bucketsAfter, Int.natCast_succ, Int.add_sub_cancel]

theorem series_buckets {unit : BucketUnit} {count : Nat} (hcount : 1 ≤ count) (now : Int) :
    series (bucketsAfter unit count now) (dateTrunc unit now) unit.ms =
      (List.range count).map fun i : Nat => bucketsAfter unit count now + i * unit.ms := by
  obtain ⟨n, rfl⟩ := Nat.exists_eq_add_of_le' hcount
  rw [bucketsAfter_succ]
  exact series_eq (ms_pos unit) _ n

theorem dvd_bucketsAfter (unit : BucketUnit) (count : Nat) (now : Int) : unit.ms ∣ bucketsAfter unit count now :=
  Int.dvd_sub (dvd_trunc unit.ms now) (Int.dvd_mul_left _ _)

/-- The rows of one bucket in the join. -/
theorem aggregate_leftJoin (what : Counted) (bucket : Int) (block : List (BlockRow Bytes))
    (on : Int → BlockRow Bytes → Bool) :
    what.aggregate ((leftJoin [bucket] block on).map Prod.snd) = what.total (block.filter (on bucket)) := by
  simp only [leftJoin, List.flatMap_cons, List.flatMap_nil, List.append_nil]
  cases block.filter (on bucket) with
  | nil => cases what <;> rfl
  | cons row rows =>
    have hsnd : ((row :: rows).map fun b => (bucket, some b)).map Prod.snd = (row :: rows).map some := by simp
    show what.aggregate (((row :: rows).map fun b => (bucket, some b)).map Prod.snd) = what.total (row :: rows)
    rw [hsnd]
    cases what with
    | block =>
      have hweight : (rows.map (Counted.weight .block)).sum = rows.length := by
        have hone : rows.map (Counted.weight .block) = rows.map fun _ => 1 := rfl
        rw [hone, List.map_const', List.sum_replicate_nat, Nat.mul_one]
      simp only [Counted.aggregate, Counted.total, List.map_cons, List.sum_cons, hweight]
      simp [Function.comp_def, Counted.weight, Nat.add_comm]
    | transaction =>
      have hsome : ((row :: rows).map some).filterMap (fun row => row.map BlockRow.transactionCount) =
          (row :: rows).map (Counted.weight .transaction) := by
        rw [List.filterMap_map, ← List.filterMap_eq_map]
        rfl
      simp only [Counted.aggregate, Counted.total, hsome, sum]
      simp

/-- **The answer of the query.** -/
theorem countPerBucket_eq (what : Counted) (unit : BucketUnit) {count : Nat} (hcount : 1 ≤ count) (now : Int)
    (block : List (BlockRow Bytes)) :
    countPerBucket what unit count now block = (List.range count).map fun i : Nat =>
      what.total (block.filter fun row =>
        dateTrunc unit row.createdTime = bucketsAfter unit count now + i * unit.ms &&
          bucketsAfter unit count now < row.createdTime) := by
  simp only [countPerBucket]
  rw [series_buckets hcount, groupBy_leftJoin (sorted (ms_pos unit) _ count), List.map_map, List.map_map]
  refine List.map_congr_left fun i _ => ?_
  simp only [Function.comp]
  exact aggregate_leftJoin what _ block _

/-! ## The window -/

/-- Only the very start of the first bucket is not behind `after`. -/
theorem created_at_start {unit : BucketUnit} {count : Nat} {now t : Int} {i : Nat}
    (hbucket : dateTrunc unit t = bucketsAfter unit count now + i * unit.ms)
    (hafter : ¬ bucketsAfter unit count now < t) : t = bucketsAfter unit count now := by
  have hms := ms_pos unit
  have hdvd := Int.dvd_add (dvd_bucketsAfter unit count now) (Int.dvd_mul_left (i : Int) unit.ms)
  obtain ⟨hle, -⟩ := (trunc_eq_iff hms hdvd).1 hbucket
  have hfirst : 0 ≤ (i : Int) * unit.ms := Int.mul_nonneg (Int.natCast_nonneg i) hms.le
  omega

theorem dateTrunc_start (unit : BucketUnit) (count : Nat) (now : Int) :
    dateTrunc unit (bucketsAfter unit count now) = bucketsAfter unit count now := by
  have hms := ms_pos unit
  apply (trunc_eq_iff hms (dvd_bucketsAfter unit count now)).2
  omega

/-- An instant is in one of the buckets when it is in the window. -/
theorem mem_buckets_iff {unit : BucketUnit} {count : Nat} (hcount : 1 ≤ count) {now t : Int} :
    dateTrunc unit t ∈ ((List.range count).map fun i : Nat => bucketsAfter unit count now + i * unit.ms) ↔
      bucketsAfter unit count now ≤ t ∧ t < dateTrunc unit now + unit.ms := by
  obtain ⟨n, rfl⟩ := Nat.exists_eq_add_of_le' hcount
  have hwindow := trunc_mem_iff (ms_pos unit) (dvd_bucketsAfter unit (n + 1) now) n t
  rw [bucketsAfter_succ, Int.sub_add_cancel] at hwindow
  rw [bucketsAfter_succ]
  exact hwindow

/-- **Every block of the window once.** The answer is right for every bucket,
and in sum, if and only if no block that counts was created at the very start
of the first bucket. -/
theorem countPerBucket_exact_iff (what : Counted) (unit : BucketUnit) (count : Nat) (hcount : 1 ≤ count)
    (now : Int) (block : List (BlockRow Bytes)) :
    CountsOnce what unit count now block ↔
      ∀ row ∈ block, (row.createdTime : Int) = bucketsAfter unit count now → what.weight row = 0 := by
  have heq := countPerBucket_eq what unit hcount now block
  have hbuckets : (countPerBucket what unit count now block = (List.range count).map fun i : Nat =>
      what.total (block.filter fun row =>
        dateTrunc unit row.createdTime = bucketsAfter unit count now + i * unit.ms)) ↔
      ∀ row ∈ block, (row.createdTime : Int) = bucketsAfter unit count now → what.weight row = 0 := by
    rw [heq, List.map_inj_left]
    simp only [Counted.total, sum_filter_and_iff, decide_eq_true_eq, decide_eq_false_iff_not]
    constructor
    · intro h row hrow hstart
      refine h 0 (List.mem_range.2 hcount) row hrow ?_ (by omega)
      rw [hstart, dateTrunc_start]
      simp
    · intro h i _ row hrow hbucket hafter
      exact h row hrow (created_at_start hbucket hafter)
  constructor
  · exact fun h => hbuckets.1 h.buckets
  · intro h
    have hanswer := hbuckets.2 h
    refine ⟨hanswer, ?_⟩
    have hnodup := (sorted (ms_pos unit) (bucketsAfter unit count now) count).imp fun {a b} => ne_of_lt
    have hgroups := sum_groups what.weight (fun row : BlockRow Bytes => dateTrunc unit row.createdTime)
      hnodup block
    rw [List.map_map] at hgroups
    rw [hanswer]
    refine hgroups.trans ?_
    simp only [mem_buckets_iff hcount, Counted.total]

/-- Blocks of the sixth and the tenth minute. -/
def insideBuckets : List (BlockRow Unit) := [⟨(), 1, 400000, 2⟩, ⟨(), 2, 600500, 1⟩]

theorem countPerBucket_exact_iff_insideBuckets :
    countPerBucket .transaction .minute 5 601000 insideBuckets = [2, 0, 0, 0, 1] ∧
      CountsOnce .transaction .minute 5 601000 insideBuckets :=
  ⟨by decide, (countPerBucket_exact_iff .transaction .minute 5 (by decide) 601000 insideBuckets).2 (by decide)⟩

/-- A block created when the first bucket begins. -/
theorem countPerBucket_drops_start :
    bucketsAfter .minute 5 601000 = 360000 ∧
      countPerBucket .block .minute 5 601000 [(⟨(), 1, 360000, 2⟩ : BlockRow Unit)] = [0, 0, 0, 0, 0] ∧
      ¬ CountsOnce .block .minute 5 601000 [(⟨(), 1, 360000, 2⟩ : BlockRow Unit)] := by
  refine ⟨by decide, by decide, fun h => ?_⟩
  have hbuckets := h.buckets
  revert hbuckets
  decide

end Explorer.Iroha
