import Mathlib.Data.List.Nodup
import Explorer.Fabric.Reads

/-!
# Transactions by organisation

`Proxy.getTxByOrgs` puts two queries together: the counts of the creators, and
the organisations that own a node. Every creator is taken out of the array of
organisations, and what is left of it is pushed behind the counts.

The columns are nullable as `explorerpg.sql` declares them, `count(column)`
counts the values that are not NULL, and the rows of a query without
`ORDER BY` come in any order. A count, which the driver gives as its decimal
text, is a number here.

* `organizations_left`: what the loop leaves.
* `txByOrgs_covers`: every organisation once, with its count.
* `reads_getTxByOrgs`, `reads_getOrgsData`: the queries of the model of all
  reads, whose columns are never NULL.
-/
namespace Explorer.Fabric.OrgTransactions

structure TransactionRow where
  creatorMspId : Option String
  channelGenesisHash : Option String
  networkName : Option String
  deriving DecidableEq, Repr

structure PeerRow where
  mspid : Option String
  channelGenesisHash : Option String
  networkName : Option String
  deriving DecidableEq, Repr

structure OrgCount where
  count : Nat
  creatorMspId : Option String
  deriving DecidableEq, Repr

/-- `count(column)` -/
def countColumn (values : List (Option String)) : Nat := values.countP Option.isSome

section
variable (networkName channelGenesisHash : String)

/-- `creator_msp_id` of the transactions of the channel. -/
def creators (transactions : List TransactionRow) : List (Option String) :=
  (transactions.filter fun r =>
    r.channelGenesisHash = some channelGenesisHash ∧ r.networkName = some networkName).map
      TransactionRow.creatorMspId

/-- `mspid` of the nodes of the channel. -/
def owners (peer : List PeerRow) : List (Option String) :=
  (peer.filter fun r =>
    r.channelGenesisHash = some channelGenesisHash ∧ r.networkName = some networkName).map PeerRow.mspid

/-- mirrors app/persistence/fabric/MetricService.js:620-627 -/
def getTxByOrgs (transactions : List TransactionRow) : List OrgCount :=
  let column := creators networkName channelGenesisHash transactions
  column.dedup.map fun creator => ⟨countColumn (column.filter fun c => c = creator), creator⟩

/-- mirrors app/persistence/fabric/MetricService.js:155-164 -/
def getOrgsData (peer : List PeerRow) : List (Option String) :=
  (owners networkName channelGenesisHash peer).dedup

end

/-- `organizations.indexOf` and `organizations.splice`. -/
def splice (organizations : List (Option String)) (organization : OrgCount) : List (Option String) :=
  match organizations.idxOf? organization.creatorMspId with
  | some index => organizations.eraseIdx index
  | none => organizations

/-- What `Proxy.getTxByOrgs` makes of the answers of its two queries.
mirrors app/platform/fabric/Proxy.js:203-224 -/
def txByOrgs (rows : List OrgCount) (organizations : List (Option String)) : List OrgCount :=
  let organizations := rows.foldl splice organizations
  organizations.foldl (fun rows orgId => rows ++ [⟨0, orgId⟩]) rows

/-! ## The loops -/

theorem splice_eq_erase (organizations : List (Option String)) (organization : OrgCount) :
    splice organizations organization = organizations.erase organization.creatorMspId := by
  rw [splice, List.erase_eq_eraseIdx]
  cases organizations.idxOf? organization.creatorMspId <;> rfl

/-- Of different organisations, those that are no creator are left. -/
theorem organizations_left (rows : List OrgCount) {organizations : List (Option String)}
    (hnodup : organizations.Nodup) :
    rows.foldl splice organizations =
      organizations.filter fun org => org ∉ rows.map OrgCount.creatorMspId := by
  induction rows generalizing organizations with
  | nil => simp
  | cons row rows ih =>
    rw [List.foldl_cons, splice_eq_erase, ih (hnodup.erase _), hnodup.erase_eq_filter, List.filter_filter]
    apply List.filter_congr
    intro org _
    by_cases horg : org = row.creatorMspId <;> simp [horg]

theorem pushed (organizations : List (Option String)) (rows : List OrgCount) :
    organizations.foldl (fun rows orgId => rows ++ [(⟨0, orgId⟩ : OrgCount)]) rows =
      rows ++ organizations.map fun orgId => ⟨0, orgId⟩ := by
  induction organizations generalizing rows with
  | nil => simp
  | cons org organizations ih => rw [List.foldl_cons, ih, List.map_cons, List.append_assoc]; rfl

theorem txByOrgs_eq (rows : List OrgCount) {organizations : List (Option String)}
    (hnodup : organizations.Nodup) :
    txByOrgs rows organizations = rows ++ (organizations.filter fun org =>
      org ∉ rows.map OrgCount.creatorMspId).map fun orgId => ⟨0, orgId⟩ := by
  rw [txByOrgs, organizations_left rows hnodup]
  exact pushed _ rows

/-! ## The answer -/

/-- Every organisation that created one of the transactions or owns one of the
nodes once, with the number of its transactions, behind the rows of the query. -/
structure CoversOnce (creators owners : List (Option String)) (queried answer : List OrgCount) : Prop where
  once : (answer.map OrgCount.creatorMspId).Nodup
  covered : ∀ mspid : String,
    some mspid ∈ answer.map OrgCount.creatorMspId ↔ some mspid ∈ creators ∨ some mspid ∈ owners
  counted : ∀ row ∈ answer, row.count = countColumn (creators.filter fun c => c = row.creatorMspId)
  kept : queried <+: answer
  sum : (answer.map OrgCount.count).sum = countColumn creators

theorem countColumn_eq_sum (values : List (Option String)) :
    countColumn values = (values.map fun v => if v.isSome then 1 else 0).sum := by
  induction values with
  | nil => rfl
  | cons v values ih =>
    rw [countColumn, List.countP_cons, List.map_cons, List.sum_cons, ← ih, countColumn, Nat.add_comm]

/-- The counts over different organisations among which every creator is. -/
theorem sum_counts {column ks : List (Option String)} (hnodup : ks.Nodup) (hall : ∀ c ∈ column, c ∈ ks) :
    (ks.map fun k => countColumn (column.filter fun c => c = k)).sum = countColumn column := by
  rw [countColumn_eq_sum column, ← Query.sum_groups_of_mem _ id hnodup hall]
  apply congrArg List.sum
  apply List.map_congr_left
  intro k _
  exact countColumn_eq_sum _

section
variable {column owned : List (Option String)} {rows : List OrgCount} {organizations : List (Option String)}
  (hrows : rows.Perm (column.dedup.map fun creator => ⟨countColumn (column.filter fun c => c = creator), creator⟩))
  (horgs : organizations.Perm owned.dedup)

section
include horgs

/-- The two queries together. -/
theorem answer_eq : txByOrgs rows organizations = rows ++ (organizations.filter fun org =>
    org ∉ rows.map OrgCount.creatorMspId).map fun orgId => ⟨0, orgId⟩ :=
  txByOrgs_eq rows (horgs.nodup_iff.2 (List.nodup_dedup _))

theorem keys_eq : (txByOrgs rows organizations).map OrgCount.creatorMspId =
    rows.map OrgCount.creatorMspId ++ organizations.filter fun org => org ∉ rows.map OrgCount.creatorMspId := by
  rw [answer_eq horgs, List.map_append, List.map_map]
  exact congrArg _ (List.map_id _)

end

include hrows

/-- The creators in the answer of the query, in any order. -/
theorem creators_perm : (rows.map OrgCount.creatorMspId).Perm column.dedup := by
  have hmap := hrows.map OrgCount.creatorMspId
  rwa [List.map_map, show OrgCount.creatorMspId ∘ (fun creator =>
    (⟨countColumn (column.filter fun c => c = creator), creator⟩ : OrgCount)) = id from rfl, List.map_id] at hmap

theorem mem_creators {org : Option String} : org ∈ rows.map OrgCount.creatorMspId ↔ org ∈ column := by
  rw [(creators_perm hrows).mem_iff, List.mem_dedup]

include horgs

theorem nodup_answer : ((txByOrgs rows organizations).map OrgCount.creatorMspId).Nodup := by
  have hcreators := (creators_perm hrows).nodup_iff.2 (List.nodup_dedup _)
  have horganizations := horgs.nodup_iff.2 (List.nodup_dedup _)
  rw [keys_eq horgs, List.nodup_append']
  refine ⟨hcreators, horganizations.filter _, ?_⟩
  intro org hrow hleft
  exact of_decide_eq_true (List.mem_filter.1 hleft).2 hrow

theorem mem_answer (org : Option String) :
    org ∈ (txByOrgs rows organizations).map OrgCount.creatorMspId ↔ org ∈ column ∨ org ∈ owned := by
  rw [keys_eq horgs, List.mem_append, List.mem_filter, decide_eq_true_eq, mem_creators hrows,
    horgs.mem_iff, List.mem_dedup]
  by_cases h : org ∈ column <;> simp [h]

theorem counted_answer (row : OrgCount) (hrow : row ∈ txByOrgs rows organizations) :
    row.count = countColumn (column.filter fun c => c = row.creatorMspId) := by
  rw [answer_eq horgs, List.mem_append] at hrow
  rcases hrow with hrow | hrow
  · obtain ⟨creator, -, rfl⟩ := List.mem_map.1 (hrows.mem_iff.1 hrow)
    rfl
  · obtain ⟨org, horg, rfl⟩ := List.mem_map.1 hrow
    have hnot := of_decide_eq_true (List.mem_filter.1 horg).2
    rw [mem_creators hrows] at hnot
    have hempty : column.filter (fun c => c = org) = [] :=
      List.filter_eq_nil_iff.2 fun c hc hcorg => hnot (of_decide_eq_true hcorg ▸ hc)
    rw [hempty]
    rfl

theorem sum_answer : ((txByOrgs rows organizations).map OrgCount.count).sum = countColumn column := by
  have hall : ∀ c ∈ column, c ∈ (txByOrgs rows organizations).map OrgCount.creatorMspId :=
    fun c hc => (mem_answer hrows horgs c).2 (.inl hc)
  rw [← sum_counts (nodup_answer hrows horgs) hall, List.map_map]
  apply congrArg List.sum
  exact List.map_congr_left (counted_answer hrows horgs)

end

/-- **Every organisation once, with its count**, in whatever order the two
queries give their rows. -/
theorem txByOrgs_covers (networkName channelGenesisHash : String) (transactions : List TransactionRow)
    (peer : List PeerRow) (rows : List OrgCount) (organizations : List (Option String))
    (hrows : rows.Perm (getTxByOrgs networkName channelGenesisHash transactions))
    (horgs : organizations.Perm (getOrgsData networkName channelGenesisHash peer)) :
    CoversOnce (creators networkName channelGenesisHash transactions)
      (owners networkName channelGenesisHash peer) rows (txByOrgs rows organizations) where
  once := nodup_answer hrows horgs
  covered := fun mspid => mem_answer hrows horgs (some mspid)
  counted := counted_answer hrows horgs
  kept := by
    rw [answer_eq horgs]
    exact List.prefix_append rows _
  sum := sum_answer hrows horgs

def test (creatorMspId : Option String) : TransactionRow := ⟨creatorMspId, some "g0", some "test-network"⟩

/-- Two organisations with transactions, one of them with a node, and one with
nodes only. -/
def threeOrgs : List TransactionRow := [test (some "Org1MSP"), test none, test (some "Org3MSP"), test (some "Org1MSP")]

def threeOrgsPeers : List PeerRow :=
  [⟨some "Org1MSP", some "g0", some "test-network"⟩, ⟨some "Org2MSP", some "g0", some "test-network"⟩,
    ⟨some "Org2MSP", some "g0", some "test-network"⟩]

theorem txByOrgs_covers_threeOrgs :
    txByOrgs [⟨2, some "Org1MSP"⟩, ⟨0, none⟩, ⟨1, some "Org3MSP"⟩] [some "Org1MSP", some "Org2MSP"] =
        [⟨2, some "Org1MSP"⟩, ⟨0, none⟩, ⟨1, some "Org3MSP"⟩, ⟨0, some "Org2MSP"⟩] ∧
      CoversOnce (creators "test-network" "g0" threeOrgs) (owners "test-network" "g0" threeOrgsPeers)
        [⟨2, some "Org1MSP"⟩, ⟨0, none⟩, ⟨1, some "Org3MSP"⟩]
        (txByOrgs [⟨2, some "Org1MSP"⟩, ⟨0, none⟩, ⟨1, some "Org3MSP"⟩] [some "Org1MSP", some "Org2MSP"]) :=
  ⟨by decide, txByOrgs_covers "test-network" "g0" threeOrgs threeOrgsPeers _ _ (by decide) (by decide)⟩

/-! ## The queries among all reads -/

def ofRecord (t : TransactionRecord) : TransactionRow :=
  ⟨some t.creatorMspId, some t.channelGenesisHash, some t.networkName⟩

def ofPeerRow (p : Fabric.PeerRow) : PeerRow := ⟨some p.mspid, some p.channelGenesisHash, some p.networkName⟩

def OrgCount.record (row : OrgCount) : Query.Record :=
  [("count", .num row.count), ("creator_msp_id", .ofOption row.creatorMspId)]

theorem nodup_eraseDups : ∀ values : List String, values.eraseDups.Nodup
  | [] => List.nodup_nil
  | v :: values => by
    have hshort := List.length_filter_le (fun b => !b == v) values
    rw [List.eraseDups_cons, List.nodup_cons]
    refine ⟨?_, nodup_eraseDups _⟩
    rw [List.mem_eraseDups, List.mem_filter]
    simp
termination_by values => values.length
decreasing_by
  rw [List.length_cons]
  omega

/-- The values of a column in an order of their own. -/
theorem eraseDups_perm_dedup (values : List String) : (values.eraseDups.map some).Perm (values.map some).dedup := by
  have hnodup := (nodup_eraseDups values).map (Option.some_injective String)
  refine (List.perm_ext_iff_of_nodup hnodup (List.nodup_dedup _)).2 fun v => ?_
  simp [List.mem_eraseDups]

theorem creators_ofRecord (networkName channelGenesisHash : String) (db : Tables) :
    creators networkName channelGenesisHash (db.transactions.map ofRecord) =
      ((Reads.transactionsIn networkName db channelGenesisHash).map fun t => t.creatorMspId).map some := by
  rw [creators, Reads.transactionsIn, List.filter_map, List.map_map, List.map_map]
  congr 1
  apply List.filter_congr
  intro t _
  simp [ofRecord]

theorem countColumn_some (column : List String) (creator : String) :
    countColumn ((column.map some).filter fun c => c = some creator) = column.count creator := by
  induction column with
  | nil => rfl
  | cons c column ih =>
    rw [countColumn] at ih ⊢
    by_cases hc : c = creator <;> simp [hc, ih]

theorem reads_getTxByOrgs (networkName channelGenesisHash : String) (db : Tables) :
    ∃ rows : List OrgCount, rows.Perm (getTxByOrgs networkName channelGenesisHash (db.transactions.map ofRecord)) ∧
      Reads.getTxByOrgs networkName db channelGenesisHash = .rows (rows.map OrgCount.record) := by
  let column := (Reads.transactionsIn networkName db channelGenesisHash).map fun t => t.creatorMspId
  let count (creator : Option String) : OrgCount :=
    ⟨countColumn ((column.map some).filter fun c => c = creator), creator⟩
  refine ⟨(column.eraseDups.map some).map count, ?_, ?_⟩
  · rw [getTxByOrgs, creators_ofRecord]
    exact (eraseDups_perm_dedup column).map count
  · rw [Reads.getTxByOrgs, List.map_map, List.map_map]
    apply congrArg Query.Answer.rows
    apply List.map_congr_left
    intro creator _
    have hcount : (count (some creator)).count = column.count creator := countColumn_some column creator
    simp only [Function.comp, OrgCount.record, hcount]
    rfl

theorem reads_getOrgsData (networkName channelGenesisHash : String) (db : Tables) :
    ∃ organizations : List (Option String),
      organizations.Perm (getOrgsData networkName channelGenesisHash (db.peer.map ofPeerRow)) ∧
        Reads.getOrgsData networkName db channelGenesisHash = .values (organizations.map Query.Value.ofOption) := by
  let column := (Reads.peersIn networkName db channelGenesisHash).map Fabric.PeerRow.mspid
  have howners : owners networkName channelGenesisHash (db.peer.map ofPeerRow) = column.map some := by
    rw [owners, List.filter_map, List.map_map, List.map_map]
    congr 1
    apply List.filter_congr
    intro p _
    simp [ofPeerRow]
  refine ⟨(column.eraseDups.insertionSort (· ≤ ·)).map some, ?_, ?_⟩
  · rw [getOrgsData, howners]
    exact ((List.perm_insertionSort _ _).map some).trans (eraseDups_perm_dedup column)
  · rw [Reads.getOrgsData, List.map_map]
    rfl

end Explorer.Fabric.OrgTransactions
