import Explorer.Fabric.NetworkConfig

/-!
# The transaction count of a chaincode

`saveTransaction` counts up the chaincodes rows of its transaction's name that
exist when it comes to them. A row is inserted with count 0 by discovery,
later than the transactions that came before it and again for each version.

* `Accounted`: what a row counts and will count makes up its transactions.
* `accounted_step`: no step repairs a row, and one that inserts a row must
  insert one that is accounted for.
* `chaincode_counts_iff`: the outcome, for every run without failures.
-/
namespace Explorer.Fabric

namespace SyncService

variable (C : Client)

/-- The transactions of the network and channel of a chaincodes row that have
its name. -/
def transactionsOfChaincode (db : Db) (row : ChaincodeRow) : List TransactionRow :=
  db.transactions.filter fun t =>
    t.channelGenesisHash = row.channelGenesisHash ∧ t.networkName = C.networkName ∧ t.chaincodename = row.name

/-- Every `txcount` of the network is the number of the transactions. -/
def ChaincodesCounted (db : Db) : Prop :=
  ∀ row ∈ db.chaincodes, row.networkName = C.networkName →
    row.txcount = (transactionsOfChaincode C db row).length

/-- The execution has inserted a transaction of the chaincode and counts it next. -/
def Exec.uncounted (row : ChaincodeRow) (e : Exec) : Nat :=
  match e.pc with
  | .saveTransaction _ _ t .chaincodes =>
    if t.channelGenesisHash = row.channelGenesisHash ∧ t.chaincodename = row.name then 1 else 0
  | _ => 0

def Accounted (db : Db) (execs : List Exec) (row : ChaincodeRow) : Prop :=
  row.txcount + (execs.map (Exec.uncounted row)).sum = (transactionsOfChaincode C db row).length

instance decidableAccounted (db : Db) (execs : List Exec) (row : ChaincodeRow) :
    Decidable (Accounted C db execs row) :=
  inferInstanceAs (Decidable (_ = _))

def AllAccounted (db : Db) (execs : List Exec) : Prop :=
  ∀ row ∈ db.chaincodes, row.networkName = C.networkName → Accounted C db execs row

/-- The rows that an execution inserts are those of its network. -/
def Exec.Tagged (e : Exec) : Prop :=
  ∀ block i t stmt, e.pc = .saveTransaction block i t stmt → t.networkName = C.networkName

variable {C} {L : Ledger}

theorem allAccounted_idle (db : Db) : AllAccounted C db [] ↔ ChaincodesCounted C db := by
  simp [AllAccounted, ChaincodesCounted, Accounted]

theorem AllAccounted.perm {db : Db} {execs execs' : List Exec} (h : execs.Perm execs') :
    AllAccounted C db execs ↔ AllAccounted C db execs' := by
  simp only [AllAccounted, Accounted, (h.map _).sum_nat]

/-! ## One execution -/

/-- What a resumed execution does to a chaincodes row. -/
def Exec.countChaincode (e : Exec) (r : ChaincodeRow) : ChaincodeRow :=
  match e.pc with
  | .saveTransaction _ _ t .chaincodes =>
    if r.channelGenesisHash = t.channelGenesisHash ∧ r.networkName = C.networkName ∧ r.name = t.chaincodename then
      { r with txcount := r.txcount + 1 }
    else r
  | _ => r

theorem resume_chaincodes (db : Db) (e : Exec) :
    (e.resume C db).1.chaincodes = db.chaincodes.map (e.countChaincode (C := C)) := by
  rw [resume_db]
  unfold Exec.write Exec.countChaincode
  split <;> simp [insertTransaction, insertBlock, updateTxcount, updateChannel, *]

theorem countChaincode_kept (e : Exec) (r : ChaincodeRow) :
    (e.countChaincode (C := C) r).name = r.name ∧
      (e.countChaincode (C := C) r).channelGenesisHash = r.channelGenesisHash ∧
      (e.countChaincode (C := C) r).networkName = r.networkName := by
  unfold Exec.countChaincode
  split
  · split <;> exact ⟨rfl, rfl, rfl⟩
  · exact ⟨rfl, rfl, rfl⟩

/-- Nothing is uncounted in front of the next envelope. -/
theorem uncounted_nextTransaction (row : ChaincodeRow) (e : Exec) (block : BlockRow) (i : Nat) :
    ((e.nextTransaction C block i).execs.map (Exec.uncounted row)).sum = 0 := by
  unfold Exec.nextTransaction
  split
  · split <;> rfl
  · rfl

/-- **The account of a row** when an execution goes on. -/
theorem uncounted_resume {e : Exec} (he : e.Tagged C) (db : Db) {row : ChaincodeRow}
    (hnet : row.networkName = C.networkName) :
    (e.countChaincode (C := C) row).txcount + ((e.resume C db).2.execs.map (Exec.uncounted row)).sum +
        (transactionsOfChaincode C db row).length =
      row.txcount + e.uncounted row + (transactionsOfChaincode C (e.resume C db).1 row).length := by
  have hnew : (transactionsOfChaincode C (e.resume C db).1 row).length =
      (transactionsOfChaincode C db row).length + (e.newTransactions.filter fun t =>
        t.channelGenesisHash = row.channelGenesisHash ∧ t.networkName = C.networkName ∧
          t.chaincodename = row.name).length := by
    rw [transactionsOfChaincode, resume_transactions, List.filter_append, List.length_append]
    rfl
  rw [hnew]
  cases hpc : e.pc with
  | timeStamp => simp [Exec.resume, Exec.countChaincode, Exec.uncounted, Exec.newTransactions, hpc, Outcome.execs]
  | blockHash =>
    cases hhash : e.channelGenesisHash with
    | none =>
      simp [Exec.resume, Exec.countChaincode, Exec.uncounted, Exec.newTransactions, hpc, hhash, Outcome.execs]
    | some hash =>
      have hnext := uncounted_nextTransaction (C := C) row e (blockRow C hash e.block e.firstTx) 0
      simp [Exec.resume, Exec.countChaincode, Exec.uncounted, Exec.newTransactions, hpc, hhash, hnext]
  | saveTransaction block i t stmt =>
    have htag : t.networkName = C.networkName := he block i t stmt hpc
    have hnext := uncounted_nextTransaction (C := C) row e block (i + 1)
    rw [resume_saveTransaction hpc]
    cases stmt with
    | count =>
      cases hvalid : isValidRow (countTransactions C.networkName t db) with
      | true =>
        simp [SaveTransaction.run, hvalid, Exec.countChaincode, Exec.uncounted, Exec.newTransactions, hpc,
          Outcome.execs]
      | false =>
        simp [SaveTransaction.run, hvalid, Exec.countChaincode, Exec.uncounted, Exec.newTransactions, hpc, hnext]
    | insert =>
      by_cases hmatch : t.channelGenesisHash = row.channelGenesisHash ∧ t.chaincodename = row.name
      · simp [SaveTransaction.run, Exec.countChaincode, Exec.uncounted, Exec.newTransactions, hpc, Outcome.execs,
          htag, hmatch]
        omega
      · simp [SaveTransaction.run, Exec.countChaincode, Exec.uncounted, Exec.newTransactions, hpc, Outcome.execs,
          htag, hmatch]
    | chaincodes =>
      by_cases hmatch : t.channelGenesisHash = row.channelGenesisHash ∧ t.chaincodename = row.name
      · simp [SaveTransaction.run, Exec.countChaincode, Exec.uncounted, Exec.newTransactions, hpc, Outcome.execs,
          hnet, hmatch]
      · have hother : ¬ (row.channelGenesisHash = t.channelGenesisHash ∧ row.networkName = C.networkName ∧
            row.name = t.chaincodename) := fun h => hmatch ⟨h.1.symm, h.2.2.symm⟩
        simp [SaveTransaction.run, Exec.countChaincode, Exec.uncounted, Exec.newTransactions, hpc, Outcome.execs,
          hother, hmatch]
    | channel =>
      simp [SaveTransaction.run, Exec.countChaincode, Exec.uncounted, Exec.newTransactions, hpc, hnext]
  | saveBlock block stmt =>
    have hnone : ((e.resume C db).2.execs.map (Exec.uncounted row)).sum = 0 := by
      rw [resume_saveBlock hpc]
      cases (stmt.run C.networkName block db).2 <;> rfl
    simp [Exec.countChaincode, Exec.uncounted, Exec.newTransactions, hpc, hnone]

theorem accounted_congr (db : Db) (execs : List Exec) {row row' : ChaincodeRow} (hname : row'.name = row.name)
    (hhash : row'.channelGenesisHash = row.channelGenesisHash) :
    transactionsOfChaincode C db row' = transactionsOfChaincode C db row ∧
      (execs.map (Exec.uncounted row')).sum = (execs.map (Exec.uncounted row)).sum := by
  have huncounted : Exec.uncounted row' = Exec.uncounted row := by
    funext e
    simp only [Exec.uncounted, hname, hhash]
  exact ⟨by simp only [transactionsOfChaincode, hname, hhash], by rw [huncounted]⟩

/-- No row is repaired or broken by an execution that goes on. -/
theorem allAccounted_resume {e : Exec} {rest : List Exec} (he : e.Tagged C) (db : Db) :
    AllAccounted C (e.resume C db).1 ((e.resume C db).2.execs ++ rest) ↔ AllAccounted C db (e :: rest) := by
  unfold AllAccounted
  rw [resume_chaincodes, List.forall_mem_map]
  refine forall_congr' fun row => forall_congr' fun _ => ?_
  obtain ⟨hname, hhash, hnet⟩ := countChaincode_kept (C := C) e row
  rw [hnet]
  refine forall_congr' fun hnetwork => ?_
  have haccount := uncounted_resume he db hnetwork
  obtain ⟨htransactions, huncounted⟩ := accounted_congr (C := C) (e.resume C db).1
    ((e.resume C db).2.execs ++ rest) hname hhash
  unfold Accounted
  rw [htransactions, huncounted, List.map_append, List.sum_append, List.map_cons, List.sum_cons]
  omega

theorem tagged_nextTransaction {e : Exec} {block : BlockRow} {i : Nat} :
    ∀ e' ∈ (e.nextTransaction C block i).execs, e'.Tagged C := by
  intro e' he' block' i' t stmt hpc
  unfold Exec.nextTransaction at he'
  split at he'
  · split at he'
    · rename_i txObj _ row htx
      obtain rfl := List.mem_singleton.1 he'
      cases hpc
      exact (transactionRow_key htx).1
    · cases he'
  · obtain rfl := List.mem_singleton.1 he'
    cases hpc

theorem tagged_resume {e : Exec} (he : e.Tagged C) (db : Db) : ∀ e' ∈ (e.resume C db).2.execs, e'.Tagged C := by
  cases hpc : e.pc with
  | timeStamp =>
    simp only [Exec.resume, hpc]
    intro e' he' block i t stmt hpc'
    obtain rfl := List.mem_singleton.1 he'
    cases hpc'
  | blockHash =>
    simp only [Exec.resume, hpc]
    split
    · exact tagged_nextTransaction
    · exact fun e' he' => by cases he'
  | saveTransaction block i t stmt =>
    rw [resume_saveTransaction hpc]
    split
    · intro e' he' block' i' t' stmt' hpc'
      obtain rfl := List.mem_singleton.1 he'
      cases hpc'
      exact he block i t stmt hpc
    · exact tagged_nextTransaction
  | saveBlock block stmt =>
    rw [resume_saveBlock hpc]
    split
    · intro e' he' block' i' t' stmt' hpc'
      obtain rfl := List.mem_singleton.1 he'
      cases hpc'
    · exact fun e' he' => by cases he'

/-! ## The process -/

/-- A step without failure that registers nothing: an execution starts, or one
goes on, or nothing happens to the executions and the tables. -/
inductive Advance (s s' : St) : Prop where
  | same (hdb : s'.db = s.db) (hexecs : s'.execs.Perm s.execs)
  | started (block : Block) (firstTx : Envelope) (hdb : s'.db = s.db)
      (hexecs : s'.execs.Perm (Exec.start C block firstTx :: s.execs))
  | resumed (e : Exec) (rest : List Exec) (hp : s.execs.Perm (e :: rest)) (hdb : s'.db = (e.resume C s.db).1)
      (hexecs : s'.execs.Perm ((e.resume C s.db).2.execs ++ rest))

theorem advance_of_move {s s' : St} (h : Move C L s s') (hdb : s'.db = s.db) : Advance (C := C) s s' := by
  cases h with
  | quiet hq => exact .same hdb hq.execs
  | held channelName block firstTx hblock hfirst hkey hq => exact .same hdb hq.execs
  | started channelName block firstTx hblock hfirst hkey hdb hheld hexecs hsent hdelivered =>
    exact .started block firstTx hdb hexecs
  | resumed e rest hexecs hdb hr hdelivered => exact .resumed e rest hexecs hdb hr.execs

theorem step_advance {s s' : St} {ev : Ev} (hs : step C L s ev = some s') (hfails : ev.fails = false)
    (hev : ∀ row, ev ≠ .discovered row) : Advance (C := C) s s' := by
  have hmove : Move C L s s' := by
    rcases step_cases hs with ⟨-, hmove⟩ | ⟨hloss, -⟩
    · exact hmove
    · rw [hfails] at hloss
      cases hloss
  cases step_next hs with
  | genesis | refused | called | noHeight | height => exact advance_of_move hmove rfl
  | @delivered channelName n block => exact advance_of_move hmove (db_processBlockEvent s .listener block)
  | noBlock | missing => exact advance_of_move hmove (db_returnTo _ (.synchBlocks _ _))
  | @found i id channelName rest block => exact advance_of_move hmove (db_processBlockEvent _ _ block)
  | @resumed i owner e hi =>
    obtain ⟨hdb, -, hr⟩ := resumed_settle (C := C) s i owner e
    exact .resumed e _ (execs_eraseIdx hi) hdb hr.execs
  | discovered row => exact absurd rfl (hev row)
  | rejected | noMissing | crash => cases hfails

theorem uncounted_start (row : ChaincodeRow) (block : Block) (firstTx : Envelope) :
    (Exec.start C block firstTx).uncounted row = 0 := rfl

/-- **A step of block processing** repairs and breaks nothing. -/
theorem allAccounted_advance {s s' : St} (h : Advance (C := C) s s') (htagged : ∀ e ∈ s.execs, e.Tagged C) :
    (AllAccounted C s'.db s'.execs ↔ AllAccounted C s.db s.execs) ∧ ∀ e ∈ s'.execs, e.Tagged C := by
  cases h with
  | same hdb hexecs =>
    rw [hdb, AllAccounted.perm hexecs]
    exact ⟨Iff.rfl, fun e he => htagged e (hexecs.mem_iff.1 he)⟩
  | started block firstTx hdb hexecs =>
    rw [hdb, AllAccounted.perm hexecs]
    refine ⟨?_, fun e he => ?_⟩
    · simp only [AllAccounted, Accounted, List.map_cons, List.sum_cons, uncounted_start, Nat.zero_add]
    · rcases List.mem_cons.1 (hexecs.mem_iff.1 he) with rfl | he
      · intro block' i t stmt hpc
        cases hpc
      · exact htagged e he
  | resumed e rest hp hdb hexecs =>
    have he : e.Tagged C := htagged e (hp.mem_iff.2 List.mem_cons_self)
    rw [hdb, AllAccounted.perm hexecs, allAccounted_resume he, AllAccounted.perm hp]
    refine ⟨Iff.rfl, fun e' he' => ?_⟩
    rcases List.mem_append.1 (hexecs.mem_iff.1 he') with he' | he'
    · exact tagged_resume he s.db e' he'
    · exact htagged e' (hp.mem_iff.2 (List.mem_cons_of_mem e he'))

end SyncService

namespace NetworkConfig

open SyncService (AllAccounted Accounted ChaincodesCounted Exec.Tagged)

/-! ## Registration -/

variable (C : DiscoveryClient)

/-- The chaincodes row that is inserted when the awaited statement is executed. -/
def Discovery.registers (d : Discovery) : Option ChaincodeRow :=
  match d.pc with
  | .insertPeers _ (.chaincode row) .insert _ | .insertChaincodes (.chaincode row) .insert _ =>
    some { row with networkName := C.networkName }
  | _ => none

def Task.registers : Task → Option ChaincodeRow
  | .network ⟨_, .discovery d⟩ | .discovery d => Discovery.registers C d
  | .network _ => none

/-- The row that a step inserts. -/
def registers (s : St) (ev : Ev) : Option ChaincodeRow := (writer s ev).bind (Task.registers C)

/-- What the row counts, and the executions will still count, are the
transactions that are stored. -/
def RegistersCounted (s : St) (ev : Ev) : Prop :=
  ∀ row ∈ registers C s ev, Accounted C.toClient s.db s.sync.execs row

instance decidableRegistersCounted (s : St) (ev : Ev) : Decidable (RegistersCounted C s ev) :=
  inferInstanceAs (Decidable (∀ row ∈ registers C s ev, Accounted C.toClient s.db s.sync.execs row))

def Ev.fails : Ev → Bool
  | .fail _ _ => true
  | .process ev => ev.fails
  | _ => false

variable {C} {L : SyncService.Ledger}

/-- Only the sync process runs executions. -/
theorem resume_network_tasks {n : Network} {s s' : St} {reply : Reply} {o : Outcome Network Bool}
    (h : n.resume C s reply = some (s', o)) : s'.sync.tasks = s.sync.tasks := by
  unfold Network.resume at h
  repeat' split at h
  all_goals
    cases h
    try rfl

theorem resume_task_tasks {t : Task} {s s' : St} {reply : Reply} {ts : List Task}
    (h : t.resume C s reply = some (s', ts)) : s'.sync.tasks = s.sync.tasks := by
  cases t with
  | network n =>
    obtain ⟨⟨s₁, o⟩, hn, heq⟩ := Option.map_eq_some_iff.1 h
    cases heq
    exact resume_network_tasks hn
  | discovery d =>
    obtain ⟨⟨c, o⟩, -, heq⟩ := Option.map_eq_some_iff.1 h
    cases heq
    rfl

theorem write_discovery (c : Catalogue) (d : Discovery) :
    (Discovery.write C c d).chaincodes = c.chaincodes ++ (Discovery.registers C d).toList := by
  have hsave : ∀ (save : Save) (stmt : SaveRow), (save.run C.networkName c stmt).1.chaincodes =
      c.chaincodes ++ (Discovery.registers C ⟨d.channelGenesisHash, .insertChaincodes save stmt []⟩).toList := by
    intro save stmt
    cases save <;> cases stmt <;>
      simp [Save.run, savePeer, savePeerChannelRef, saveChaincode, saveChaincodPeerRef, SaveRow.run,
        Discovery.registers]
  unfold Discovery.write
  cases hpc : d.pc with
  | initializeChannelFromDiscover | queryInstantiatedChaincodes => simp [Discovery.registers, hpc]
  | insertPeers results save stmt rest =>
    have hsame : Discovery.registers C d =
        Discovery.registers C ⟨d.channelGenesisHash, .insertChaincodes save stmt []⟩ := by
      cases save <;> cases stmt <;> simp [Discovery.registers, hpc]
    rw [hsame]
    exact hsave save stmt
  | insertChaincodes save stmt rest =>
    have hsame : Discovery.registers C d =
        Discovery.registers C ⟨d.channelGenesisHash, .insertChaincodes save stmt []⟩ := by
      cases save <;> cases stmt <;> simp [Discovery.registers, hpc]
    rw [hsame]
    exact hsave save stmt

/-- The chaincodes row that a task inserts is all it does to the counts. -/
theorem write_chaincodes (s : St) (t : Task) :
    (t.write C s).db.chaincodes = s.db.chaincodes ++ (Task.registers C t).toList ∧
      (t.write C s).db.transactions = s.db.transactions := by
  cases t with
  | discovery d => exact ⟨write_discovery s.catalogue d, rfl⟩
  | network n =>
    obtain ⟨next, pc⟩ := n
    cases pc with
    | discovery d => exact ⟨write_discovery s.catalogue d, rfl⟩
    | saveChannel channelName hash stmt =>
      refine ⟨?_, ?_⟩ <;> cases stmt <;> simp [Task.write, Network.write, SaveChannel.run, Task.registers]
    | _ => exact ⟨(List.append_nil _).symm, rfl⟩

theorem registers_network {t : Task} {row : ChaincodeRow} (h : row ∈ Task.registers C t) :
    row.networkName = C.networkName := by
  have hdiscovery : ∀ d : Discovery, row ∈ Discovery.registers C d → row.networkName = C.networkName := by
    intro d hd
    unfold Discovery.registers at hd
    split at hd
    · cases hd
      rfl
    · cases hd
      rfl
    · cases hd
  unfold Task.registers at h
  split at h
  · exact hdiscovery _ h
  · exact hdiscovery _ h
  · cases h

/-- The rows that exist and the one that is inserted. -/
theorem allAccounted_registered {db db' : Db} {execs : List SyncService.Exec} {row : Option ChaincodeRow}
    (hchaincodes : db'.chaincodes = db.chaincodes ++ row.toList) (htransactions : db'.transactions = db.transactions)
    (hnet : ∀ r ∈ row, r.networkName = C.networkName) :
    AllAccounted C.toClient db' execs ↔
      AllAccounted C.toClient db execs ∧ ∀ r ∈ row, Accounted C.toClient db execs r := by
  have hsame : ∀ r, Accounted C.toClient db' execs r ↔ Accounted C.toClient db execs r := fun r => by
    simp only [Accounted, SyncService.transactionsOfChaincode, htransactions]
  unfold AllAccounted
  simp only [hchaincodes, List.forall_mem_append, hsame]
  refine and_congr_right fun _ => ?_
  cases row with
  | none => simp
  | some r => simp [hnet r rfl]

/-- **One step.** No step without failure repairs or breaks the count of a row
that exists; one that inserts a row must insert one that is counted. -/
theorem accounted_step {s s' : St} {ev : Ev} (hs : step C L s ev = some s') (hfails : ev.fails = false)
    (htagged : ∀ e ∈ s.sync.execs, Exec.Tagged C.toClient e) :
    (AllAccounted C.toClient s'.db s'.sync.execs ↔
        AllAccounted C.toClient s.db s.sync.execs ∧ RegistersCounted C s ev) ∧
      ∀ e ∈ s'.sync.execs, Exec.Tagged C.toClient e := by
  have hnothing : ∀ ev, registers C s ev = none → RegistersCounted C s ev := by
    intro ev h row hrow
    rw [h] at hrow
    cases hrow
  cases ev with
  | timer | discover | addChannel =>
    cases hs
    exact ⟨(and_iff_left (hnothing _ rfl)).symm, htagged⟩
  | fail i took => cases hfails
  | reply i r =>
    simp only [step] at hs
    split at hs
    · rename_i t ht
      obtain ⟨⟨s₁, ts⟩, hr, rfl⟩ := Option.map_eq_some_iff.1 hs
      have hexecs : s₁.sync.execs = s.sync.execs := by
        rw [SyncService.St.execs, resume_task_tasks hr]
        rfl
      have hsame := (resume_task hr).db
      refine ⟨?_, fun e he => htagged e (hexecs ▸ he)⟩
      show AllAccounted C.toClient s₁.db s₁.sync.execs ↔ _
      rw [hexecs]
      by_cases hreply : r = .executed
      · subst hreply
        have hregisters : registers C s (.reply i .executed) = Task.registers C t := by
          simp [registers, writer, ht]
        obtain ⟨hchaincodes, htransactions⟩ := write_chaincodes (C := C) s t
        rw [if_pos rfl] at hsame
        rw [hsame, RegistersCounted, hregisters]
        exact allAccounted_registered hchaincodes htransactions fun row hrow => registers_network hrow
      · rw [if_neg hreply] at hsame
        have hwriter : writer s (.reply i r) = none := by cases r <;> first | rfl | exact absurd rfl hreply
        rw [hsame]
        exact (and_iff_left (hnothing _ (by rw [registers, hwriter]; rfl))).symm
    · cases hs
  | process ev =>
    have hsync : ∃ sync, SyncService.step C.toClient L s.sync ev = some sync ∧
        s'.sync = sync ∧ ∀ row, ev ≠ .discovered row := by
      cases ev with
      | discovered row => cases hs
      | crash => cases hfails
      | _ =>
        simp only [step] at hs
        obtain ⟨sync, hsync, rfl⟩ := Option.map_eq_some_iff.1 hs
        exact ⟨sync, hsync, rfl, by simp⟩
    obtain ⟨sync, hsync, rfl, hev⟩ := hsync
    obtain ⟨hiff, htagged'⟩ := SyncService.allAccounted_advance (SyncService.step_advance hsync hfails hev) htagged
    exact ⟨hiff.trans (and_iff_left (hnothing _ rfl)).symm, htagged'⟩

def registerFabcar : List Ev :=
  [.discover "genesis", .reply 0 (.discovered none), .reply 0 (.instantiated [⟨"fabcar", "1.0", none⟩]),
    .reply 0 .executed, .reply 0 .executed]

def processBlockOne : List Ev :=
  .process (.blockEvent "mychannel" 1) :: List.replicate 13 (.process (.run 0))

end NetworkConfig

end Explorer.Fabric
