import Explorer.Fabric.ExactlyOnce

/-!
# The counters of a channel, whatever fails

A row is inserted by one statement and counted by a later one, and a retry
counts only what it has inserted itself. An execution that ends between the
two leaves a row that nothing counts any more.

* `Short`: how many rows of a channel are neither counted nor going to be.
* `short_step`: that number never gets smaller, and grows in the steps that
  end an execution between its two statements (`keepsCounts`).
* `counters_survive_iff`: the outcome, for every run.
-/
namespace Explorer.Fabric.SyncService

variable (C : Client) (L : Ledger) (channelName hash : String)

/-- `blocks` and `trans` of the channel's one row are the numbers of its rows. -/
def CountersMatch (db : Db) : Prop :=
  ∃ row, channelRows C.networkName db hash = [row] ∧
    row.blocks = (blocksOf C.networkName db hash).length ∧
    row.trans = (transactionsOf C.networkName db hash).length

/-! ## What is lost -/

/-- Rejecting the awaited statement, with or without effect, leaves an
inserted row that is not counted. -/
def Exec.losesCount (took : Bool) (e : Exec) : Bool :=
  match e.pc with
  | .saveTransaction _ _ _ .insert | .saveBlock _ .insert => took
  | .saveTransaction _ _ _ .chaincodes => true
  | .saveTransaction _ _ _ .channel | .saveBlock _ .channel => !took
  | _ => false

/-- The step ends no execution of the channel between the insertion of a row
and its count. A crash ends all of them, before their statements. -/
def keepsCounts (s : St) : Ev → Bool
  | .fail i took =>
    match s.tasks[i]? with
    | some (.block _ e) => !(e.channelName = channelName && e.losesCount took)
    | _ => true
  | .crash => s.execs.all fun e => !(e.channelName = channelName && e.losesCount false)
  | _ => true

/-- The rows that a rejected execution leaves uncounted: those it has just
inserted, or those it had inserted before. -/
def Exec.lost (took : Bool) (e : Exec) : Nat :=
  if e.channelName = channelName ∧ e.losesCount took = true then 1 else 0

/-- What is counted, will be counted and is lost makes up the rows. -/
def Account (s : St) (n : Nat) : Prop :=
  ∃ row b t, channelRows C.networkName s.db hash = [row] ∧ n = b + t ∧
    row.blocks + (s.execs.flatMap (Exec.pendingBlocks C channelName)).length + b =
      (blocksOf C.networkName s.db hash).length ∧
    row.trans + (s.execs.map (Exec.pendingTransactions channelName)).sum + t =
      (transactionsOf C.networkName s.db hash).length

/-- The rows of the channel are `n` more than are or will be counted. -/
def Short (s : St) (n : Nat) : Prop := Inv C L s ∧ Account C channelName hash s n

variable {C L channelName hash}

theorem short_unique {s : St} {m n : Nat} (hm : Short C L channelName hash s m)
    (hn : Short C L channelName hash s n) : m = n := by
  obtain ⟨-, row, b, t, hrow, rfl, hb, ht⟩ := hm
  obtain ⟨-, row', b', t', hrow', rfl, hb', ht'⟩ := hn
  rw [hrow, List.cons.injEq] at hrow'
  obtain ⟨rfl, -⟩ := hrow'
  omega

/-- When nothing is running, nothing is pending. -/
theorem short_idle {s : St} (h : Inv C L s) (hidle : s.execs = []) :
    Short C L channelName hash s 0 ↔ CountersMatch C hash s.db := by
  constructor
  · rintro ⟨-, row, b, t, hrow, hn, hb, ht⟩
    simp only [hidle, List.flatMap_nil, List.length_nil, List.map_nil, List.sum_nil] at hb ht
    exact ⟨row, hrow, by omega, by omega⟩
  · rintro ⟨row, hrow, hb, ht⟩
    exact ⟨h, row, 0, 0, hrow, rfl, by simp [hidle, hb], by simp [hidle, ht]⟩

/-! ## One execution -/

/-- **The account of a resumed execution.** -/
theorem account_resume (hch : C.getChannelGenHash channelName = some hash) {e : Exec} {db : Db}
    (he : e.From C L) (hat : e.At C db) {row : ChannelRow}
    (hrow : channelRows C.networkName db hash = [row]) :
    channelRows C.networkName (e.resume C db).1 hash = [e.countUp C row] ∧
    (e.countUp C row).blocks + ((e.resume C db).2.execs.flatMap (Exec.pendingBlocks C channelName)).length +
        (blocksOf C.networkName db hash).length =
      row.blocks + (e.pendingBlocks C channelName).length +
        (blocksOf C.networkName (e.resume C db).1 hash).length ∧
    (e.countUp C row).trans + ((e.resume C db).2.execs.map (Exec.pendingTransactions channelName)).sum +
        (transactionsOf C.networkName db hash).length =
      row.trans + e.pendingTransactions channelName +
        (transactionsOf C.networkName (e.resume C db).1 hash).length := by
  obtain ⟨hhash, hnet⟩ : row.channelGenesisHash = hash ∧ row.networkName = C.networkName := by
    have hmem : row ∈ channelRows C.networkName db hash := by simp [hrow]
    simpa [channelRows] using (List.mem_filter.1 hmem).2
  have hblocks := (countUp_eq hch he hat hhash hnet).1
  have htrans := (counted_resume hch he hat hhash hnet).2
  have hnew := congrArg List.length (pendingBlocks_new hch he hat)
  rw [List.length_map] at hnew
  refine ⟨by rw [channelRows_resume, hrow, List.map_singleton], ?_, ?_⟩
  · rw [blocksOf, blocksOf, resume_blocks, List.filter_append, List.length_append, hblocks, hnew,
      pendingBlocks_eq]
    omega
  · rw [transactionsOf, transactionsOf, resume_transactions, List.filter_append, List.length_append]
    omega

theorem pending_of_ne {e : Exec} (hname : e.channelName ≠ channelName) :
    e.pendingBlocks C channelName = [] ∧ e.pendingTransactions channelName = 0 := by
  unfold Exec.pendingBlocks Exec.pendingTransactions
  cases e.pc with
  | timeStamp | blockHash => simp
  | saveTransaction block i row stmt => cases stmt <;> simp [hname]
  | saveBlock block stmt => cases stmt <;> simp [hname]

/-- What a rejected execution leaves uncounted: the rows that were pending,
or those that are pending once its statement has taken effect. -/
theorem lost_eq (e : Exec) (db : Db) (took : Bool) :
    e.lost channelName took =
      if took then
        ((e.resume C db).2.execs.flatMap (Exec.pendingBlocks C channelName)).length +
          ((e.resume C db).2.execs.map (Exec.pendingTransactions channelName)).sum
      else (e.pendingBlocks C channelName).length + e.pendingTransactions channelName := by
  obtain ⟨-, hb, ht⟩ := outcome_resume (C := C) channelName e db
  by_cases hname : e.channelName = channelName
  · unfold Exec.lost Exec.losesCount
    cases took with
    | false =>
      rw [Exec.pendingBlocks.eq_def, Exec.pendingTransactions.eq_def]
      cases e.pc with
      | timeStamp | blockHash => simp
      | saveTransaction block i row stmt => cases stmt <;> simp [hname]
      | saveBlock block stmt => cases stmt <;> simp [hname]
    | true =>
      unfold Exec.newBlocks at hb
      unfold Exec.counts Exec.newTransactions at ht
      rw [Exec.pendingTransactions.eq_def channelName e] at ht
      rw [hb]
      cases hpc : e.pc with
      | timeStamp | blockHash => simpa [hpc, eq_comm] using ht
      | saveTransaction block i row stmt =>
        cases stmt <;> simp only [hpc, hname, if_true, List.length_singleton, List.length_nil] at ht <;>
          simp [hname] <;> omega
      | saveBlock block stmt =>
        cases stmt <;> simp only [hpc, hname, if_true, List.length_nil] at ht <;> simp [hname] <;> omega
  · obtain ⟨hpb, hpt⟩ := pending_of_ne (C := C) hname
    rw [Exec.lost, if_neg fun h => hname h.1, hb, hpb, hpt]
    simp only [hname, if_false, hpt] at ht ⊢
    cases took
    · simp
    · simp only [List.length_flatMap]
      simp
      omega

/-! ## The process -/

theorem account_congr {s s' : St} {n : Nat} (h : Account C channelName hash s n)
    (hblocks : s'.db.blocks = s.db.blocks) (htransactions : s'.db.transactions = s.db.transactions)
    (hchannel : s'.db.channel = s.db.channel) (hexecs : s'.execs.Perm s.execs) :
    Account C channelName hash s' n := by
  obtain ⟨row, b, t, hrow, hn, hb, ht⟩ := h
  refine ⟨row, b, t, ?_, hn, ?_, ?_⟩
  · rw [channelRows, hchannel]
    exact hrow
  · rw [blocksOf, hblocks, (hexecs.flatMap_right _).length_eq]
    exact hb
  · rw [transactionsOf, htransactions, (hexecs.map _).sum_nat]
    exact ht

theorem account_move (hch : C.getChannelGenHash channelName = some hash) {s s' : St} {n : Nat}
    (hi : Inv C L s) (h : Account C channelName hash s n) (hm : Move C L s s') :
    Account C channelName hash s' n := by
  cases hm with
  | quiet hq => exact account_congr h hq.blocks hq.transactions hq.channel hq.execs
  | held name block firstTx hblock hfirst hkey hq =>
    exact account_congr (s := { s with delivered := _ }) h hq.blocks hq.transactions hq.channel hq.execs
  | started name block firstTx hblock hfirst hkey hdb hheld hexecs hsent hdelivered =>
    obtain ⟨row, b, t, hrow, hn, hb, ht⟩ := h
    refine ⟨row, b, t, by rw [hdb, hrow], hn, ?_, ?_⟩
    · rw [hdb, (hexecs.flatMap_right _).length_eq]
      simpa [Exec.pendingBlocks, Exec.start] using hb
    · rw [hdb, (hexecs.map _).sum_nat]
      simpa [Exec.pendingTransactions, Exec.start] using ht
  | resumed e rest hp hdb hr hdelivered =>
    obtain ⟨-, ⟨hfrom, hat⟩, -⟩ := rest_resume hi hp
    obtain ⟨row, b, t, hrow, hn, hb, ht⟩ := h
    obtain ⟨hrow', hblocks, htrans⟩ := account_resume hch hfrom hat hrow
    refine ⟨_, b, t, by rw [hdb, hrow'], hn, ?_, ?_⟩
    · rw [hdb, (hr.execs.flatMap_right _).length_eq]
      rw [(hp.flatMap_right _).length_eq] at hb
      simp only [List.flatMap_append, List.flatMap_cons, List.length_append] at hb ⊢
      omega
    · rw [hdb, (hr.execs.map _).sum_nat]
      rw [(hp.map _).sum_nat] at ht
      simp only [List.map_append, List.map_cons, List.sum_append, List.sum_cons] at ht ⊢
      omega

/-- A rejected statement: what was pending, or has become pending, is lost. -/
theorem account_failed (hch : C.getChannelGenHash channelName = some hash) {s s' : St} {n : Nat}
    {took : Bool} {e : Exec} {rest : List Exec} (hi : Inv C L s) (h : Account C channelName hash s n)
    (hp : s.execs.Perm (e :: rest)) (hdb : s'.db = if took then (e.resume C s.db).1 else s.db)
    (hrest : s'.execs = rest) : Account C channelName hash s' (n + e.lost channelName took) := by
  obtain ⟨-, ⟨hfrom, hat⟩, -⟩ := rest_resume hi hp
  obtain ⟨row, b, t, hrow, rfl, hb, ht⟩ := h
  rw [(hp.flatMap_right _).length_eq] at hb
  rw [(hp.map _).sum_nat] at ht
  simp only [List.flatMap_cons, List.length_append, List.map_cons, List.sum_cons] at hb ht
  have he : e.lost channelName took = _ := lost_eq (C := C) e s.db took
  rw [he]
  cases took with
  | false =>
    simp only [Bool.false_eq_true, if_false] at hdb ⊢
    refine ⟨row, b + (e.pendingBlocks C channelName).length, t + e.pendingTransactions channelName,
      by rw [hdb, hrow], by omega, ?_, ?_⟩
    · rw [hdb, hrest]
      omega
    · rw [hdb, hrest]
      omega
  | true =>
    simp only [if_true] at hdb ⊢
    obtain ⟨hrow', hblocks, htrans⟩ := account_resume hch hfrom hat hrow
    refine ⟨e.countUp C row,
      b + ((e.resume C s.db).2.execs.flatMap (Exec.pendingBlocks C channelName)).length,
      t + ((e.resume C s.db).2.execs.map (Exec.pendingTransactions channelName)).sum,
      by rw [hdb, hrow'], by omega, ?_, ?_⟩
    · rw [hdb, hrest]
      omega
    · rw [hdb, hrest]
      omega

theorem lost_eq_zero {e : Exec} {took : Bool} :
    e.lost channelName took = 0 ↔ (!(e.channelName = channelName && e.losesCount took)) = true := by
  unfold Exec.lost
  by_cases hname : e.channelName = channelName <;> simp [hname]

/-- A crash loses what every execution had pending. -/
theorem account_crashed {s s' : St} {n : Nat} (h : Account C channelName hash s n) (hdb : s'.db = s.db)
    (hexecs : s'.execs = []) :
    Account C channelName hash s' (n + (s.execs.map (Exec.lost channelName false)).sum) := by
  obtain ⟨row, b, t, hrow, rfl, hb, ht⟩ := h
  have hlost : ∀ es : List Exec, (es.map (Exec.lost channelName false)).sum =
      (es.flatMap (Exec.pendingBlocks C channelName)).length +
        (es.map (Exec.pendingTransactions channelName)).sum := by
    intro es
    induction es with
    | nil => rfl
    | cons e es ih =>
      have he : e.lost channelName false = _ := lost_eq (C := C) e s.db false
      simp only [Bool.false_eq_true, if_false] at he
      simp only [List.map_cons, List.sum_cons, List.flatMap_cons, List.length_append, ih, he]
      omega
  refine ⟨row, b + (s.execs.flatMap (Exec.pendingBlocks C channelName)).length,
    t + (s.execs.map (Exec.pendingTransactions channelName)).sum, by rw [hdb, hrow], ?_, ?_, ?_⟩
  · rw [hlost]
    omega
  · rw [hdb, hexecs]
    simp only [List.flatMap_nil, List.length_nil]
    omega
  · rw [hdb, hexecs]
    simp only [List.map_nil, List.sum_nil]
    omega

/-- **The account of a step.** -/
theorem short_step (hch : C.getChannelGenHash channelName = some hash) {s s' : St} {ev : Ev} {n : Nat}
    (h : Short C L channelName hash s n) (hs : step C L s ev = some s') :
    ∃ k, Short C L channelName hash s' (n + k) ∧ (k = 0 ↔ keepsCounts channelName s ev = true) := by
  obtain ⟨hi, haccount⟩ := h
  have hi' : Inv C L s' := (inv_inductive (I := Fresh C) fun _ hdb => hdb).step s ev s' hi hs
  have hmove : ev.fails = false → Account C channelName hash s' n := by
    intro hev
    rcases step_cases hs with ⟨-, hm⟩ | ⟨hfails, -⟩
    · exact account_move hch hi haccount hm
    · rw [hev] at hfails
      cases hfails
  cases step_next hs with
  | rejected htask =>
    refine ⟨_, ⟨hi', account_failed hch hi haccount (execs_eraseIdx htask) rfl rfl⟩, ?_⟩
    simpa [keepsCounts, htask] using lost_eq_zero
  | noMissing htask =>
    have hq := quiet_eraseIdx htask
    refine ⟨0, ⟨hi', account_congr haccount hq.blocks hq.transactions hq.channel hq.execs⟩, ?_⟩
    simp [keepsCounts, htask]
  | crash =>
    refine ⟨_, ⟨hi', account_crashed haccount rfl rfl⟩, ?_⟩
    simp only [List.sum_eq_zero_iff_forall_eq_nat, List.mem_map, forall_exists_index, and_imp,
      forall_apply_eq_imp_iff₂, lost_eq_zero, keepsCounts, List.all_eq_true]
  | _ => exact ⟨0, ⟨hi', hmove rfl⟩, by simp [keepsCounts]⟩

theorem short_init {db : Db} (h : Ready C hash db) : Short C L channelName hash (init db) 0 := by
  obtain ⟨hfresh, row, hrow, hblocks, htrans⟩ := h
  have hi : Inv C L (init db) := inv_init hfresh
  refine (short_idle hi rfl).2 ⟨row, hrow, ?_, ?_⟩
  · rw [hblocks, eq_comm, List.length_eq_zero_iff, blocksOf, List.filter_eq_nil_iff]
    intro r hr
    have := hfresh.blocks r hr
    simp [this]
  · rw [htrans, eq_comm, List.length_eq_zero_iff, transactionsOf, List.filter_eq_nil_iff]
    intro r hr
    have := hfresh.transactions r hr
    simp [this]

/-! ## Counters -/

/-- **The counters survive every failure but one kind.** In any run, with
failures, crashes and restarts, whenever no `processBlockEvent` is running:
the counters of a channel match its rows if and only if no step of the run
has ended one of its executions between the insertion of a row and the count
of it. -/
theorem counters_survive_iff (channelName hash : String)
    (hch : C.getChannelGenHash channelName = some hash) (db : Db) (hdb : Ready C hash db)
    (evs : List Ev) (s : St) (hr : (lts C L (Ready C hash)).Run (init db) evs s)
    (hidle : s.execs = []) :
    CountersMatch C hash s.db ↔
      ((lts C L (Ready C hash)).restrict fun s ev => keepsCounts channelName s ev = true).Run
        (init db) evs s := by
  have hi : Inv C L s := hr.keeps (inv_inductive fun _ h => h.fresh).step (inv_init hdb.fresh)
  rw [← short_idle hi hidle]
  have huniq : ∀ s m n, Short C L channelName hash s m → Short C L channelName hash s n → m = n :=
    fun _ _ _ => short_unique
  refine hr.restrict_iff huniq ?_ (short_init hdb)
  intro s ev s' n h hs
  exact short_step hch h hs

/-- The first count is rejected and the process restarted; the second time
the block is saved, and the listener replays it. -/
def countRejected : List Ev :=
  [.blockEvent "mychannel" 1, .run 0, .run 0, .fail 0 false, .crash, .blockEvent "mychannel" 1] ++
    List.replicate 13 (.run 0) ++ .blockEvent "mychannel" 1 :: List.replicate 5 (.run 0)

theorem counters_survive_iff_countRejected :
    ∃ s, LTS.exec (step mychannel ledgerOne) (init emptyChannel) countRejected = some s ∧
      s.db.channel = [⟨"mychannel", 1, 2, "genesis", "first-network"⟩] ∧
      CountersMatch mychannel "genesis" s.db := by
  have hrun : (LTS.exec (LTS.guarded (fun s ev => keepsCounts "mychannel" s ev = true)
      (step mychannel ledgerOne)) (init emptyChannel) countRejected).map (fun s =>
        (s.execs, s.db.channel)) = some ([], [⟨"mychannel", 1, 2, "genesis", "first-network"⟩]) := by
    decide +kernel
  obtain ⟨s, hs, hfinal⟩ := Option.map_eq_some_iff.1 hrun
  simp only [Prod.mk.injEq] at hfinal
  have hrestrict : ((lts mychannel ledgerOne (Ready mychannel "genesis")).restrict
      fun s ev => keepsCounts "mychannel" s ev = true).Run (init emptyChannel) countRejected s :=
    LTS.restrict_run_of_exec hs
  have hmatch := (counters_survive_iff (L := ledgerOne) "mychannel" "genesis" rfl emptyChannel
    ready_emptyChannel countRejected s hrestrict.of_restrict hfinal.1).2 hrestrict
  exact ⟨s, LTS.exec_of_guarded hs, hfinal.2, hmatch⟩

/-- The process dies after the row of block 1 is inserted and before it is
counted; the block comes again, and its row is there already. -/
def diesUncounted : List Ev :=
  .blockEvent "mychannel" 1 :: List.replicate 12 (.run 0) ++
    .crash :: .blockEvent "mychannel" 1 :: List.replicate 5 (.run 0)

theorem counters_survive_diesUncounted :
    ∃ s, (lts mychannel ledgerOne (Ready mychannel "genesis")).Reachable s ∧ s.execs = [] ∧
      s.db.channel = [⟨"mychannel", 0, 2, "genesis", "first-network"⟩] ∧ s.db.blocks.length = 1 ∧
      ¬ CountersMatch mychannel "genesis" s.db := by
  have hrun : (LTS.exec (step mychannel ledgerOne) (init emptyChannel) diesUncounted).map (fun s =>
      (s.execs, s.db.channel, s.db.blocks.length, (blocksOf "first-network" s.db "genesis").length)) =
        some ([], [⟨"mychannel", 0, 2, "genesis", "first-network"⟩], 1, 1) := by decide +kernel
  obtain ⟨s, hs, hfinal⟩ := Option.map_eq_some_iff.1 hrun
  simp only [Prod.mk.injEq] at hfinal
  obtain ⟨hidle, hchannel, hlen, hblocks⟩ := hfinal
  refine ⟨s, LTS.reachable_of_exec ⟨_, ready_emptyChannel, rfl⟩ hs, hidle, hchannel, hlen, ?_⟩
  rintro ⟨row, hrow, hb, -⟩
  have hmem : row ∈ s.db.channel := by
    have : row ∈ channelRows mychannel.networkName s.db "genesis" := by simp [hrow]
    exact List.mem_of_mem_filter this
  rw [hchannel, List.mem_singleton] at hmem
  rw [show (blocksOf mychannel.networkName s.db "genesis").length = 1 from hblocks, hmem] at hb
  cases hb

end Explorer.Fabric.SyncService
