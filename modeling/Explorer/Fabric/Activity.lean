import Explorer.Core.Buckets
import Explorer.Fabric.Reads

/-!
# Transactions and blocks per minute and hour

`MetricService` has one query for each table and unit: a generated series of
instants, a left join with the rows of the channel whose `createdt`, truncated
to the unit, is that instant, and one count for each group. The conditions on
the network and the channel are conditions of the join, so an instant without
a row keeps its group.

Instants are numbers of milliseconds of a session in UTC, where minutes, hours
and days are multiples of their length. They have no end, and neither has an
interval.

* `perBucket_eq`: the answer, instant by instant.
* `activity_counts_every`: every row of the window once, in all four queries.
* `reads_perBucket`: the histogram among all reads, when its clock is this one.
-/
namespace Explorer.Fabric.Activity

open Query Buckets

inductive DateUnit where
  | min
  | hour
  deriving DecidableEq, Repr

def DateUnit.ms : DateUnit → Int
  | .min => 60000
  | .hour => 3600000

/-- The lengths of the intervals `'hour'` and `'day'`. -/
def hourMs : Int := 3600000
def dayMs : Int := 86400000

/-- The columns of `transactions` and of `blocks` that the charts read. -/
structure Row where
  createdt : Option Int
  channelGenesisHash : Option String
  networkName : Option String
  deriving DecidableEq, Repr

structure Db where
  transactions : List Row
  blocks : List Row

structure Bucket where
  datetime : Int
  count : Nat
  deriving DecidableEq, Repr

/-- `date_trunc(unit, t)` -/
def dateTrunc (unit : DateUnit) (t : Int) : Int := trunc unit.ms t

/-- The conditions of the join. -/
def joins (networkName channelGenesisHash : String) (unit : DateUnit) (datetime : Int) (r : Row) : Bool :=
  r.createdt.map (dateTrunc unit) = some datetime && r.channelGenesisHash = some channelGenesisHash &&
    r.networkName = some networkName

/-- `count(createdt)` of a group; a row that joined nothing has none. -/
def countCreatedt (group : List (Option Row)) : Nat :=
  group.countP fun r => (r.bind Row.createdt).isSome

section
variable (networkName channelGenesisHash : String)

/-- The query with its table, unit and interval. -/
def perBucket (unit : DateUnit) (table : List Row) (back : Int) (now : Int) : List Bucket :=
  let datetimes := series (dateTrunc unit now - back) (dateTrunc unit now) unit.ms
  let joined := leftJoin datetimes table (joins networkName channelGenesisHash unit)
  (groupBy Prod.fst joined).map fun group => ⟨group.1, countCreatedt (group.2.map Prod.snd)⟩

/-- mirrors app/persistence/fabric/MetricService.js:295-312 -/
def getTxByMinute (hours : Nat) (now : Int) (db : Db) : List Bucket :=
  perBucket networkName channelGenesisHash .min db.transactions (hours * hourMs) now

/-- mirrors app/persistence/fabric/MetricService.js:322-339 -/
def getTxByHour (day : Nat) (now : Int) (db : Db) : List Bucket :=
  perBucket networkName channelGenesisHash .hour db.transactions (day * dayMs) now

/-- mirrors app/persistence/fabric/MetricService.js:459-476 -/
def getBlocksByMinute (hours : Nat) (now : Int) (db : Db) : List Bucket :=
  perBucket networkName channelGenesisHash .min db.blocks (hours * hourMs) now

/-- mirrors app/persistence/fabric/MetricService.js:486-503 -/
def getBlocksByHour (days : Nat) (now : Int) (db : Db) : List Bucket :=
  perBucket networkName channelGenesisHash .hour db.blocks (days * dayMs) now

end

/-! ## What is to be counted -/

/-- When the rows of the channel were created. -/
def createdIn (networkName channelGenesisHash : String) (table : List Row) : List Int :=
  (table.filter fun r => r.channelGenesisHash = some channelGenesisHash ∧ r.networkName = some networkName).filterMap
    Row.createdt

/-- One row for each of the `back` units before that of `now` and for its own,
in order, each with the instants of that unit, and together with those from
the start of the first to the end of the last. -/
structure CountsEvery (unit : DateUnit) (back : Nat) (now : Int) (created : List Int)
    (answer : List Bucket) : Prop where
  buckets : answer = (List.range (back + 1)).map fun i : Nat =>
    ⟨dateTrunc unit now - back * unit.ms + i * unit.ms,
      created.countP fun t => dateTrunc unit t = dateTrunc unit now - back * unit.ms + i * unit.ms⟩
  sum : (answer.map Bucket.count).sum = created.countP fun t =>
    dateTrunc unit now - back * unit.ms ≤ t ∧ t < dateTrunc unit now + unit.ms

/-! ## The query -/

theorem ms_pos (unit : DateUnit) : 0 < unit.ms := by
  cases unit <;> decide

variable {networkName channelGenesisHash : String}

theorem createdt_of_joins {unit : DateUnit} {datetime : Int} {r : Row}
    (h : joins networkName channelGenesisHash unit datetime r = true) : r.createdt.isSome := by
  cases hcreated : r.createdt with
  | none => simp [joins, hcreated] at h
  | some t => rfl

/-- The rows that join an instant are those of the channel created in its unit. -/
theorem length_joined (unit : DateUnit) (datetime : Int) (table : List Row) :
    (table.filter (joins networkName channelGenesisHash unit datetime)).length =
      (createdIn networkName channelGenesisHash table).countP fun t => dateTrunc unit t = datetime := by
  rw [← List.countP_eq_length_filter, createdIn, List.countP_filterMap, List.countP_filter]
  apply List.countP_congr
  intro r _
  cases hcreated : r.createdt <;> simp [joins, hcreated, and_assoc]

theorem countCreatedt_leftJoin (unit : DateUnit) (datetime : Int) (table : List Row) :
    countCreatedt ((leftJoin [datetime] table (joins networkName channelGenesisHash unit)).map Prod.snd) =
      (createdIn networkName channelGenesisHash table).countP fun t => dateTrunc unit t = datetime := by
  rw [← length_joined]
  simp only [leftJoin, List.flatMap_cons, List.flatMap_nil, List.append_nil]
  have hall : ∀ r ∈ table.filter (joins networkName channelGenesisHash unit datetime), r.createdt.isSome :=
    fun r hr => createdt_of_joins (List.mem_filter.1 hr).2
  generalize table.filter (joins networkName channelGenesisHash unit datetime) = rows at hall ⊢
  cases rows with
  | nil => rfl
  | cons r rows =>
    show countCreatedt (((r :: rows).map fun b => (datetime, some b)).map Prod.snd) = (r :: rows).length
    rw [List.map_map, countCreatedt, List.countP_map, List.countP_eq_length]
    exact hall

/-- **The answer of a query.** -/
theorem perBucket_eq (networkName channelGenesisHash : String) (unit : DateUnit) (table : List Row) (back : Nat) (now : Int) :
    perBucket networkName channelGenesisHash unit table (back * unit.ms) now =
      (List.range (back + 1)).map fun i : Nat =>
        ⟨dateTrunc unit now - back * unit.ms + i * unit.ms,
          (createdIn networkName channelGenesisHash table).countP fun t =>
            dateTrunc unit t = dateTrunc unit now - back * unit.ms + i * unit.ms⟩ := by
  simp only [perBucket]
  rw [series_eq (ms_pos unit), groupBy_leftJoin (sorted (ms_pos unit) _ _), List.map_map, List.map_map]
  apply List.map_congr_left
  intro i _
  simp only [Function.comp, countCreatedt_leftJoin]

/-- The counts of different instants together. -/
theorem sum_countP (unit : DateUnit) {datetimes : List Int} (hnodup : datetimes.Nodup) (ts : List Int) :
    (datetimes.map fun b => ts.countP fun t => dateTrunc unit t = b).sum =
      ts.countP fun t => dateTrunc unit t ∈ datetimes := by
  have hcount : ∀ p : Int → Bool, ts.countP p = ((ts.filter p).map fun _ => 1).sum := by
    intro p
    rw [List.map_const', List.sum_replicate_nat, Nat.mul_one, List.countP_eq_length_filter]
  simp only [hcount]
  exact sum_groups (fun _ => 1) (dateTrunc unit) hnodup ts

/-- **Every row of the window once**, in one query. -/
theorem perBucket_counts (unit : DateUnit) (table : List Row) (back : Nat) (now : Int) :
    CountsEvery unit back now (createdIn networkName channelGenesisHash table)
      (perBucket networkName channelGenesisHash unit table (back * unit.ms) now) := by
  have hms := ms_pos unit
  have hanswer := perBucket_eq networkName channelGenesisHash unit table back now
  have hstart : unit.ms ∣ dateTrunc unit now - back * unit.ms :=
    Int.dvd_sub (dvd_trunc unit.ms now) (Int.dvd_mul_left _ _)
  have hnodup := (sorted hms (dateTrunc unit now - back * unit.ms) (back + 1)).imp fun {a b} => ne_of_lt
  have hsum := sum_countP unit hnodup (createdIn networkName channelGenesisHash table)
  rw [List.map_map] at hsum
  refine ⟨hanswer, ?_⟩
  rw [hanswer, List.map_map]
  refine hsum.trans (List.countP_congr fun t _ => ?_)
  have hwindow := trunc_mem_iff hms hstart back t
  rw [Int.sub_add_cancel] at hwindow
  rw [decide_eq_true_eq, decide_eq_true_eq]
  exact hwindow

/-- **Every row of the window once**, in all four queries: minutes back for so
many hours, hours back for so many days. -/
theorem activity_counts_every (networkName channelGenesisHash : String) (db : Db) (now : Int) (k : Nat) :
    CountsEvery .min (60 * k) now (createdIn networkName channelGenesisHash db.transactions)
        (getTxByMinute networkName channelGenesisHash k now db) ∧
      CountsEvery .hour (24 * k) now (createdIn networkName channelGenesisHash db.transactions)
        (getTxByHour networkName channelGenesisHash k now db) ∧
      CountsEvery .min (60 * k) now (createdIn networkName channelGenesisHash db.blocks)
        (getBlocksByMinute networkName channelGenesisHash k now db) ∧
      CountsEvery .hour (24 * k) now (createdIn networkName channelGenesisHash db.blocks)
        (getBlocksByHour networkName channelGenesisHash k now db) := by
  have hminutes : (k : Int) * hourMs = (60 * k : Nat) * DateUnit.min.ms := by
    simp only [hourMs, DateUnit.ms]
    omega
  have hhours : (k : Int) * dayMs = (24 * k : Nat) * DateUnit.hour.ms := by
    simp only [dayMs, DateUnit.ms]
    omega
  unfold getTxByMinute getTxByHour getBlocksByMinute getBlocksByHour
  rw [hminutes, hhours]
  exact ⟨perBucket_counts _ _ _ _, perBucket_counts _ _ _ _, perBucket_counts _ _ _ _, perBucket_counts _ _ _ _⟩

/-- Two transactions at the ends of the window, and one just outside. -/
example : (getTxByHour "net" "g0" 1 86400000
      ⟨[⟨some 0, some "g0", some "net"⟩, ⟨some 89999999, some "g0", some "net"⟩, ⟨some (-1), some "g0", some "net"⟩], []⟩).map
        Bucket.count = [1] ++ List.replicate 23 0 ++ [1] := by
  decide

/-! ## The histogram among all reads -/

def ofCreated (networkName channelGenesisHash : String) (createdt : Nat) : Row :=
  ⟨some createdt, some channelGenesisHash, some networkName⟩

def Bucket.record (column : String) (b : Bucket) : Record := [(column, .num b.datetime), ("count", .num b.count)]

theorem createdIn_ofCreated (networkName channelGenesisHash : String) (createdt : List Nat) :
    createdIn networkName channelGenesisHash (createdt.map (ofCreated networkName channelGenesisHash)) =
      createdt.map fun t : Nat => (t : Int) := by
  rw [createdIn, List.filter_eq_self.2, List.filterMap_map]
  · show createdt.filterMap (fun t : Nat => some (t : Int)) = _
    rw [List.filterMap_eq_map']
  · intro r hr
    obtain ⟨t, -, rfl⟩ := List.mem_map.1 hr
    simp [ofCreated]

theorem reads_perBucket (T : Reads.Clock) (unit : DateUnit) (name column backUnit : String) (now : Int)
    (back units : Nat) (htrunc : ∀ t, (T.trunc name t : Int) = dateTrunc unit t)
    (hseries : (T.series name back backUnit).map (fun n : Nat => (n : Int)) =
      series (dateTrunc unit now - units * unit.ms) (dateTrunc unit now) unit.ms)
    (createdt : List Nat) :
    Reads.perBucket T name column backUnit createdt back =
      .rows ((perBucket networkName channelGenesisHash unit
        (createdt.map (ofCreated networkName channelGenesisHash)) (units * unit.ms) now).map (Bucket.record column)) := by
  have hcast : (do let n ← T.series name back backUnit; pure (n : Int)) =
      (T.series name back backUnit).map fun n : Nat => (n : Int) := List.map_eq_flatMap.symm
  rw [Reads.perBucket, hcast, hseries, series_eq (ms_pos unit), perBucket_eq, createdIn_ofCreated, List.map_map,
    List.map_map]
  apply congrArg Answer.rows
  apply List.map_congr_left
  intro i _
  simp only [Function.comp, Bucket.record, List.countP_map, htrunc, Function.comp_def]

end Explorer.Fabric.Activity
