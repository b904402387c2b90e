import Explorer.Fabric.SyncService

/-!
# The keys in `blocksInProcess` and `synchInProcess`

A call that returns removes its key; one that throws, or whose awaited
statement is rejected, does not, and neither does a `synchBlocks` that awaits
it. Only a restart takes such a key away.

* `Released`: the keys held are those of the calls still running.
* `Holding`: the same, with the keys of the task that is being resumed.
* `releases`: the steps that end no call with its key held.
* `guards_released_iff`: the outcome, for every run.
-/
namespace Explorer.Fabric.SyncService

variable (C : Client) (L : Ledger)

/-! ## What is running -/

/-- The `synchBlocks` that a task is, or that awaits it. -/
def Task.synch? : Task → Option String
  | .synch channelName _ => some channelName
  | .block (.synchBlocks channelName _) _ => some channelName
  | .block .listener _ => none

/-- The channels of the running executions of `synchBlocks`. -/
def St.synchs (s : St) : List String := s.tasks.filterMap Task.synch?

structure Released (s : St) : Prop where
  blocks : Exactly s.blocksInProcess (s.execs.map Exec.key)
  synchs : Exactly s.synchInProcess (s.synchs.map (synchKey C))

/-! ## Which steps give the keys back -/

/-- The envelope that a resumed execution reads. -/
def Exec.reads (db : Db) (e : Exec) : Option Envelope :=
  match e.pc with
  | .blockHash => if e.channelGenesisHash.isSome then e.block.data[0]? else none
  | .saveTransaction _ i row .count =>
    if isValidRow (countTransactions C.networkName row db) then none else e.block.data[i + 1]?
  | .saveTransaction _ i _ .channel => e.block.data[i + 1]?
  | _ => none

/-- No statement is rejected, the ledger tells its height, a block that
`synchBlocks` finds has an envelope, and every envelope read is readable. -/
def releases (s : St) : Ev → Prop
  | .chainInfo _ height => height ≠ none
  | .queryBlock i found =>
    match s.tasks[i]? with
    | some (.synch channelName (.queryBlock id _)) =>
      found = true → ∀ block ∈ L.block channelName id, block.data ≠ []
    | _ => True
  | .run i =>
    match s.tasks[i]? with
    | some (.block _ e) => ∀ txObj ∈ e.reads C s.db, txObj.Readable e.block
    | _ => True
  | .fail _ _ => False
  | _ => True

instance decidableActionReadable (action : TransactionAction) : Decidable action.Readable :=
  decidable_of_iff (action.chaincodeId.isSome ∧ action.response.isSome ∧
      (∃ results ∈ action.results, ∀ i ∈ results.nsRwset, i.rwset.isSome) ∧ action.endorsements ≠ [] ∧
      (∀ endorsement ∈ action.endorsements, endorsement.endorser.isSome) ∧ action.input.isSome)
    ⟨fun h => ⟨h.1, h.2.1, h.2.2.1, h.2.2.2.1, h.2.2.2.2.1, h.2.2.2.2.2⟩,
      fun h => ⟨h.1, h.2, h.3, h.4, h.5, h.6⟩⟩

instance decidableReadable (block : Block) (txObj : Envelope) : Decidable (txObj.Readable block) :=
  decidable_of_iff ((txObj.txId ≠ "" → block.metadata ≠ []) ∧ txObj.creator.isSome ∧
      ∃ data ∈ txObj.data, ∀ actions ∈ data.actions, ∃ action ∈ actions.head?, action.Readable)
    ⟨fun h => ⟨h.1, h.2.1, h.2.2⟩, fun h => ⟨h.1, h.2, h.3⟩⟩

instance decidableReleases (s : St) (ev : Ev) : Decidable (releases C L s ev) := by
  unfold releases
  split
  · infer_instance
  · split <;> infer_instance
  · split <;> infer_instance
  · infer_instance
  · infer_instance

/-! ## The task that is resumed -/

/-- The task taken out of the bag holds `keys`, and runs or returns to the
`synchBlocks` of `synchs`. -/
structure Holding (s : St) (keys synchs : List String) : Prop where
  blocks : Exactly s.blocksInProcess (keys ++ s.execs.map Exec.key)
  synchs : Exactly s.synchInProcess (synchs.map (synchKey C) ++ s.synchs.map (synchKey C))

def Owner.synchs : Owner → List String
  | .listener => []
  | .synchBlocks channelName _ => [channelName]

variable {C L}

theorem Released.holding {s : St} (h : Released C s) : Holding C s [] [] := ⟨h.blocks, h.synchs⟩

/-- A task that is over has given its keys back if it held none. -/
theorem Holding.released_iff {s : St} {keys synchs : List String} (h : Holding C s keys synchs) :
    Released C s ↔ keys = [] ∧ synchs = [] := by
  constructor
  · intro h'
    exact ⟨h.blocks.lost_iff.1 h'.blocks, List.map_eq_nil_iff.1 (h.synchs.lost_iff.1 h'.synchs)⟩
  · rintro ⟨rfl, rfl⟩
    exact ⟨h.blocks, h.synchs⟩

theorem synchs_push (s : St) (t : Task) : (s.push t).synchs = s.synchs ++ t.synch?.toList := by
  cases h : t.synch? <;> simp [St.synchs, St.push, h]

/-- A task that awaits again keeps its keys. -/
theorem released_push {s : St} {t : Task}
    (h : Holding C s (t.exec?.toList.map Exec.key) t.synch?.toList) : Released C (s.push t) := by
  refine ⟨?_, ?_⟩
  · rw [execs_push, List.map_append]
    exact h.blocks.congr List.perm_append_comm
  · rw [synchs_push, List.map_append]
    exact h.synchs.congr List.perm_append_comm

theorem holding_eraseIdx {s : St} {i : Nat} {t : Task} (h : Released C s) (hi : s.tasks[i]? = some t) :
    Holding C { s with tasks := s.tasks.eraseIdx i } (t.exec?.toList.map Exec.key) t.synch?.toList := by
  refine ⟨?_, ?_⟩
  · rw [St.execs, ← List.map_append]
    exact h.blocks.congr ((execs_eraseIdx hi).map Exec.key)
  · have hp := (eraseIdx_perm hi).filterMap Task.synch?
    rw [St.synchs, ← List.map_append]
    refine h.synchs.congr (List.Perm.map _ ?_)
    cases hk : t.synch? with
    | none => simpa [hk, St.synchs] using hp
    | some c => simpa [hk, St.synchs] using hp

theorem released_nextMissing {s : St} {channelName : String} (ids : List Nat)
    (h : Holding C s [] [channelName]) : Released C (s.nextMissing C channelName ids) := by
  cases ids with
  | nil => exact ⟨h.blocks, h.synchs.finish⟩
  | cons id rest => exact released_push h

theorem released_returnTo {s : St} {owner : Owner} (h : Holding C s [] owner.synchs) :
    Released C (s.returnTo C owner) := by
  cases owner with
  | listener => exact h.released_iff.2 ⟨rfl, rfl⟩
  | synchBlocks channelName rest => exact released_nextMissing rest h

theorem synch?_block (owner : Owner) (e : Exec) : (Task.block owner e).synch?.toList = owner.synchs := by
  cases owner <;> rfl

/-- A call gives back what it holds, unless an empty block makes it throw
into `synchBlocks`. -/
theorem released_processBlockEvent {s : St} {owner : Owner} {block : Block}
    (h : Holding C s [] owner.synchs) :
    Released C (s.processBlockEvent C owner block) ↔ (block.data = [] → owner = .listener) := by
  cases hdata : block.data with
  | nil =>
    simp only [St.processBlockEvent, hdata, forall_const]
    rw [h.released_iff]
    cases owner <;> simp [Owner.synchs]
  | cons firstTx txs =>
    simp only [St.processBlockEvent, hdata, reduceCtorEq, false_imp_iff, iff_true]
    split
    · exact released_returnTo ⟨h.blocks, h.synchs⟩
    · rename_i hkey
      refine released_push ⟨h.blocks.start hkey, ?_⟩
      rw [synch?_block]
      exact h.synchs

/-! ## The execution that is resumed -/

theorem nextTransaction_thrown_iff {e : Exec} {block : BlockRow} {i : Nat} :
    e.nextTransaction C block i = .thrown ↔ ∃ txObj ∈ e.block.data[i]?, ¬ txObj.Readable e.block := by
  unfold Exec.nextTransaction
  cases hget : e.block.data[i]? with
  | none => simp
  | some txObj =>
    have hread : (transactionRow C block.channelGenesisHash block.createdt e.block i txObj).isSome ↔
        txObj.Readable e.block := transactionRow_isSome
    cases hrow : transactionRow C block.channelGenesisHash block.createdt e.block i txObj with
    | none => simpa [hrow] using hread
    | some row => simpa [hrow] using hread

/-- An execution throws when the envelope it reads is not readable. -/
theorem resume_thrown_iff {db : Db} {e : Exec} :
    (e.resume C db).2 = .thrown ↔ ¬ ∀ txObj ∈ e.reads C db, txObj.Readable e.block := by
  have hnext : ∀ block i, (e.nextTransaction C block i = .thrown ↔
      ¬ ∀ txObj ∈ e.block.data[i]?, txObj.Readable e.block) := by
    intro block i
    rw [nextTransaction_thrown_iff]
    push Not
    rfl
  unfold Exec.reads
  cases hpc : e.pc with
  | timeStamp => simp [Exec.resume, hpc]
  | blockHash =>
    cases hh : e.channelGenesisHash with
    | none => simp [Exec.resume, hpc, hh]
    | some hash =>
      have hres : (e.resume C db).2 = e.nextTransaction C (blockRow C hash e.block e.firstTx) 0 := by
        simp [Exec.resume, hpc, hh]
      rw [hres]
      simpa using hnext _ 0
  | saveTransaction block i row stmt =>
    rw [resume_saveTransaction hpc]
    cases stmt with
    | count =>
      cases hv : isValidRow (countTransactions C.networkName row db) with
      | true => simp [SaveTransaction.run, hv]
      | false =>
        simp only [SaveTransaction.run, hv, Bool.false_eq_true, if_false]
        exact hnext block (i + 1)
    | insert | chaincodes => simp [SaveTransaction.run]
    | channel => exact hnext block (i + 1)
  | saveBlock block stmt =>
    rw [resume_saveBlock hpc]
    cases stmt with
    | count => cases hv : isValidRow (countBlocks C.networkName block db) <;> simp [SaveBlock.run, hv]
    | insert | channel => simp [SaveBlock.run]

theorem mem_of_reads {db : Db} {e : Exec} {txObj : Envelope} (h : txObj ∈ e.reads C db) : txObj ∈ e.block.data := by
  have hget : ∃ i : Nat, e.block.data[i]? = some txObj := by
    unfold Exec.reads at h
    split at h
    · split at h
      · exact ⟨_, h⟩
      · cases h
    · split at h
      · cases h
      · exact ⟨_, h⟩
    · exact ⟨_, h⟩
    · cases h
  obtain ⟨i, hi⟩ := hget
  exact List.mem_of_getElem? hi

theorem released_settle {s : St} {owner : Owner} {e : Exec} {outcome : Outcome Exec (List Notify)}
    (h : Holding C s [e.key] owner.synchs) (hkey : ∀ e', outcome = .await e' → e'.key = e.key) :
    Released C (s.settle C owner e.key outcome) ↔ outcome ≠ .thrown := by
  cases outcome with
  | await e' =>
    simp only [ne_eq, reduceCtorEq, not_false_eq_true, iff_true]
    refine released_push ⟨?_, ?_⟩
    · simpa [Task.exec?, hkey e' rfl] using h.blocks
    · rw [synch?_block]
      exact h.synchs
  | done notes =>
    simp only [ne_eq, reduceCtorEq, not_false_eq_true, iff_true]
    exact released_returnTo ⟨h.blocks.finish, h.synchs⟩
  | thrown =>
    simp only [ne_eq, not_true_eq_false, iff_false]
    exact fun h' => absurd (h.released_iff.1 h').1 (by simp)

/-! ## The process -/

/-- **A step gives back the keys of what it ends, or breaks the guards.** -/
theorem released_step {s s' : St} {ev : Ev} (h : Released C s) (hs : step C L s ev = some s') :
    Released C s' ↔ releases C L s ev := by
  cases step_next hs with
  | genesis | refused => exact iff_of_true h trivial
  | @delivered channelName n block hblock =>
    have hiff : Released C (s.processBlockEvent C .listener block) ↔ (block.data = [] → Owner.listener = .listener) :=
      released_processBlockEvent h.holding
    exact iff_of_true (hiff.2 fun _ => rfl) trivial
  | called hkey => exact iff_of_true (released_push ⟨h.blocks, h.synchs.start hkey⟩) trivial
  | noHeight hi =>
    rw [(holding_eraseIdx h hi).released_iff]
    simp [releases, Task.synch?]
  | height hi =>
    have hh := holding_eraseIdx h hi
    simp only [releases, ne_eq, reduceCtorEq, not_false_eq_true, iff_true]
    exact released_push ⟨hh.blocks, hh.synchs⟩
  | @noBlock i id channelName rest hi =>
    simp only [releases, hi, Bool.false_eq_true, false_imp_iff, iff_true]
    exact released_nextMissing rest (holding_eraseIdx h hi)
  | found hi hblock =>
    simp only [releases, hi]
    rw [released_processBlockEvent (holding_eraseIdx h hi)]
    simp [hblock]
  | @resumed i owner e hi =>
    have hh := holding_eraseIdx h hi
    rw [synch?_block] at hh
    refine (released_settle (s := { s with db := (e.resume C s.db).1, tasks := s.tasks.eraseIdx i })
      ⟨hh.blocks, hh.synchs⟩ fun e' => key_resume).trans ?_
    rw [ne_eq, resume_thrown_iff, not_not]
    simp only [releases, hi]
  | missing hi => simpa [releases, hi] using released_nextMissing _ (holding_eraseIdx h hi)
  | rejected hi =>
    have hh := holding_eraseIdx h hi
    refine iff_of_false (fun h' => ?_) id
    have hnone := (hh.released_iff.1 ⟨h'.blocks, h'.synchs⟩).1
    simp [Task.exec?] at hnone
  | noMissing hi =>
    refine iff_of_false (fun h' => ?_) id
    have hnone := ((holding_eraseIdx h hi).released_iff.1 h').2
    simp [Task.synch?] at hnone
  | discovered row => exact iff_of_true ⟨h.blocks, h.synchs⟩ trivial
  | crash => exact iff_of_true ⟨Exactly.nil, Exactly.nil⟩ trivial

theorem released_init (db : Db) : Released C (init db) := ⟨Exactly.nil, Exactly.nil⟩

/-- **The guards are exact until a call throws.** Every state that a run goes
through holds exactly the keys of the running calls, if and only if every step
met `releases`. -/
theorem guards_released_iff (db : Db) (evs : List Ev) (s : St)
    (hr : (lts C L fun _ => True).Run (init db) evs s) :
    (∀ pre post m, evs = pre ++ post → (lts C L fun _ => True).Run (init db) pre m → Released C m) ↔
      ((lts C L fun _ => True).restrict (releases C L)).Run (init db) evs s :=
  hr.always_iff (J := fun _ => True) (fun _ _ _ _ _ => trivial)
    (fun _ _ _ _ h hs => released_step h hs) trivial (released_init db)

/-- A catch-up run finds block 1 missing while the listener is processing it,
and both return. -/
def bothReturn : List Ev :=
  [.synchBlocks "mychannel", .chainInfo 0 (some 2), .run 0, .queryBlock 0 false, .blockEvent "mychannel" 1,
    .queryBlock 0 true] ++ List.replicate 13 (.run 0)

theorem guards_released_iff_bothReturn :
    ∃ s, LTS.exec (step mychannel ledgerOne) (init ⟨[], [], [], []⟩) bothReturn = some s ∧
      s.blocksInProcess = [] ∧ s.synchInProcess = [] ∧ ∀ pre post m, bothReturn = pre ++ post →
        (lts mychannel ledgerOne fun _ => True).Run (init ⟨[], [], [], []⟩) pre m → Released mychannel m := by
  have hrun : (LTS.exec (LTS.guarded (releases mychannel ledgerOne) (step mychannel ledgerOne))
      (init ⟨[], [], [], []⟩) bothReturn).map (fun s => (s.blocksInProcess, s.synchInProcess)) =
        some ([], []) := by
    decide +kernel
  obtain ⟨s, hs, hfinal⟩ := Option.map_eq_some_iff.1 hrun
  simp only [Prod.mk.injEq] at hfinal
  have hrestrict : ((lts mychannel ledgerOne fun _ => True).restrict
      (releases mychannel ledgerOne)).Run (init ⟨[], [], [], []⟩) bothReturn s :=
    LTS.restrict_run_of_exec hs
  exact ⟨s, LTS.exec_of_guarded hs, hfinal.1, hfinal.2,
    (guards_released_iff _ bothReturn s hrestrict.of_restrict).2 hrestrict⟩

/-- The query of the ledger fails, and so does the first statement of block 1;
then both are tried again. -/
def bothThrow : List Ev :=
  [.synchBlocks "mychannel", .chainInfo 0 none, .blockEvent "mychannel" 1, .run 0, .run 0, .fail 0 false,
    .synchBlocks "mychannel", .blockEvent "mychannel" 1]

/-- Nothing is running, both keys are held, and the second attempts have
started nothing. -/
theorem guards_released_bothThrow :
    ∃ s, (lts mychannel ledgerOne fun _ => True).Reachable s ∧ s.tasks = [] ∧
      s.blocksInProcess = ["mychannel_1"] ∧ s.synchInProcess = ["org1_mychannel"] ∧
      ¬ Released mychannel s := by
  have hrun : (LTS.exec (step mychannel ledgerOne) (init ⟨[], [], [], []⟩) bothThrow).map (fun s =>
      (s.tasks, s.blocksInProcess, s.synchInProcess)) =
        some ([], ["mychannel_1"], ["org1_mychannel"]) := by
    decide +kernel
  obtain ⟨s, hs, hfinal⟩ := Option.map_eq_some_iff.1 hrun
  simp only [Prod.mk.injEq] at hfinal
  obtain ⟨htasks, hblocks, hsynchs⟩ := hfinal
  refine ⟨s, LTS.reachable_of_exec ⟨_, trivial, rfl⟩ hs, htasks, hblocks, hsynchs, fun h => ?_⟩
  have hnone := h.blocks.perm
  rw [hblocks, St.execs, htasks] at hnone
  simp at hnone

end Explorer.Fabric.SyncService
