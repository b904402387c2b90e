import Explorer.Fabric.Complete
import Explorer.Fabric.Guards

/-!
# Blocks are ingested exactly once

The runs without a failing statement, seen from one channel whose row is
there with both counters at 0. `Complete` says which rows cannot be there
twice; here every delivered block gets its rows, its counts and its
notification, unless it makes `processBlockEvent` throw: then it has no block
row, and its key stays held.

A block row is counted and notified in later steps than it is inserted in,
and a transaction row is counted later too. What is still to come is read off
the executions (`Exec.pendingBlocks`, `Exec.pendingTransactions`), so that the
accounts balance in every state, and exactly when no execution is running.

* `Exact`: the balanced accounts, and where every delivered block is.
* `ingested_exactly_once_iff`: the outcome, whenever nothing is running.
-/
namespace Explorer.Fabric.SyncService

variable (C : Client) (L : Ledger) (channelName hash : String)

/-- Nothing is stored for the network; the channel has its row. -/
structure Ready (db : Db) : Prop where
  fresh : Fresh C db
  channel : ∃ row, channelRows C.networkName db hash = [row] ∧ row.blocks = 0 ∧ row.trans = 0

/-- The notification of a block row. -/
def rowNotify (row : BlockRow) : Notify where
  notifyType := "4"
  networkName := C.networkName
  clientName := C.clientName
  channelName := channelName
  title := s!"Block {row.blocknum} added to Channel: {channelName}"
  type := "block"
  message := s!"Block {row.blocknum} established with {row.txcount} tx"
  time := row.createdt
  txcount := row.txcount
  datahash := row.datahash
  blksize := row.blksize

/-- The tx ids of the envelopes of block `n`. -/
def Ledger.txIds (n : Nat) : List String :=
  match L.block channelName n with
  | some block => block.data.map Envelope.txId
  | none => []

/-! ## Accounts -/

/-- Block rows inserted by an execution, neither counted nor notified. -/
def Exec.pendingBlocks (e : Exec) : List Notify :=
  match e.pc with
  | .saveBlock block .channel => if e.channelName = channelName then [blockNotify C e block] else []
  | _ => []

/-- Transaction rows inserted by an execution and not counted. -/
def Exec.pendingTransactions (e : Exec) : Nat :=
  match e.pc with
  | .saveTransaction _ _ _ .chaincodes | .saveTransaction _ _ _ .channel =>
    if e.channelName = channelName then 1 else 0
  | _ => 0

/-- An execution for block `n` of the channel is running. -/
def Running (s : St) (n : Nat) : Prop := ∃ e ∈ s.execs, e.channelName = channelName ∧ e.number = n

/-- Block `n` makes `processBlockEvent` throw. -/
def Unreadable (n : Nat) : Prop := ∃ block, L.block channelName n = some block ∧ ¬ block.Readable

def notifiesOf (sent : List Notify) : List Notify := sent.filter fun n => n.channelName = channelName

structure Exact (s : St) : Prop where
  notified : ((blocksOf C.networkName s.db hash).map (rowNotify C channelName)).Perm
    (notifiesOf channelName s.sent ++ s.execs.flatMap (Exec.pendingBlocks C channelName))
  counted : ∃ row, channelRows C.networkName s.db hash = [row] ∧
    row.blocks = (notifiesOf channelName s.sent).length ∧
    row.trans + (s.execs.map (Exec.pendingTransactions channelName)).sum =
      (transactionsOf C.networkName s.db hash).length
  held : ∀ n, blockProKey channelName n ∈ s.blocksInProcess →
    Running channelName s n ∨ Unreadable L channelName n
  reached : ∀ n, (channelName, n) ∈ s.delivered →
    Running channelName s n ∨ Unreadable L channelName n ∨ (hash, n) ∈ blockKeys C.networkName s.db
  running : ∀ n, Running channelName s n → (channelName, n) ∈ s.delivered
  blocks : ∀ n, (hash, n) ∈ blockKeys C.networkName s.db → (channelName, n) ∈ s.delivered
  transactions : ∀ n txhash, (hash, n, txhash) ∈ txKeys C.networkName s.db →
    (channelName, n) ∈ s.delivered

variable {C L channelName hash}

/-- A row of this channel is one of an execution of this channel. -/
theorem hash_iff (hch : C.getChannelGenHash channelName = some hash) {e : Exec} (he : e.From C L)
    {h : String} (hh : e.channelGenesisHash = some h) : h = hash ↔ e.channelName = channelName := by
  rw [he.hash] at hh
  constructor
  · rintro rfl
    exact C.distinct _ _ _ hh hch
  · intro hname
    rw [hname, hch] at hh
    exact (Option.some.inj hh).symm

/-- Between two envelopes nothing is pending. -/
theorem pending_nextTransaction (channelName : String) (e : Exec) (block : BlockRow) (i : Nat) :
    notes (e.nextTransaction C block i) = [] ∧
      (e.nextTransaction C block i).execs.flatMap (Exec.pendingBlocks C channelName) = [] ∧
      ((e.nextTransaction C block i).execs.map (Exec.pendingTransactions channelName)).sum = 0 := by
  unfold Exec.nextTransaction
  split
  · split <;> simp [notes, Outcome.execs, Exec.pendingBlocks, Exec.pendingTransactions]
  · simp [notes, Outcome.execs, Exec.pendingBlocks, Exec.pendingTransactions]

variable (C) in
/-- What an execution sends when it is resumed. -/
def Exec.sends (e : Exec) : List Notify :=
  match e.pc with
  | .saveBlock block .channel => [blockNotify C e block]
  | _ => []

variable (channelName) in
/-- By how much it counts up the transactions of the channel. -/
def Exec.counts (e : Exec) : Nat :=
  match e.pc with
  | .saveTransaction _ _ _ .channel => if e.channelName = channelName then 1 else 0
  | _ => 0

/-- What is sent and what is pending after a resumption. -/
theorem outcome_resume (channelName : String) (e : Exec) (db : Db) :
    notes (e.resume C db).2 = e.sends C ∧
    (e.resume C db).2.execs.flatMap (Exec.pendingBlocks C channelName) =
      ((e.newBlocks C).flatMap fun r =>
        if e.channelName = channelName then [blockNotify C e r] else []) ∧
    ((e.resume C db).2.execs.map (Exec.pendingTransactions channelName)).sum + e.counts channelName =
      e.pendingTransactions channelName +
        if e.channelName = channelName then e.newTransactions.length else 0 := by
  unfold Exec.sends Exec.newBlocks Exec.counts Exec.newTransactions
  rw [Exec.pendingTransactions.eq_def channelName e]
  cases hpc : e.pc with
  | timeStamp =>
    simp [Exec.resume, hpc, notes, Outcome.execs, Exec.pendingBlocks, Exec.pendingTransactions]
  | blockHash =>
    cases hh : e.channelGenesisHash with
    | none => simp [Exec.resume, hpc, hh, notes, Outcome.execs]
    | some h =>
      have ho : (e.resume C db).2 = e.nextTransaction C (blockRow C h e.block e.firstTx) 0 := by
        simp [Exec.resume, hpc, hh]
      rw [ho]
      simpa using pending_nextTransaction (C := C) channelName e (blockRow C h e.block e.firstTx) 0
  | saveTransaction block i row stmt =>
    obtain ⟨h1, h2, h3⟩ := pending_nextTransaction (C := C) channelName e block (i + 1)
    rw [resume_saveTransaction hpc]
    cases stmt with
    | count =>
      cases hv : isValidRow (countTransactions C.networkName row db) with
      | true =>
        simp [SaveTransaction.run, hv, notes, Outcome.execs, Exec.pendingBlocks, Exec.pendingTransactions]
      | false => simp [SaveTransaction.run, hv, h1, h2, h3]
    | insert | chaincodes =>
      simp [SaveTransaction.run, notes, Outcome.execs, Exec.pendingBlocks, Exec.pendingTransactions]
    | channel => simp [SaveTransaction.run, h1, h2, h3]
  | saveBlock block stmt =>
    rw [resume_saveBlock hpc]
    cases stmt with
    | count =>
      cases hv : isValidRow (countBlocks C.networkName block db) <;>
        simp [SaveBlock.run, hv, notes, Outcome.execs, Exec.pendingBlocks, Exec.pendingTransactions]
    | insert =>
      simp [SaveBlock.run, notes, Outcome.execs, Exec.pendingBlocks, Exec.pendingTransactions, blockNotify]
    | channel => simp [SaveBlock.run, notes, Outcome.execs]

/-- What was pending is sent. -/
theorem pendingBlocks_eq (e : Exec) :
    e.pendingBlocks C channelName = notifiesOf channelName (e.sends C) := by
  unfold Exec.pendingBlocks Exec.sends notifiesOf
  split
  · simp [List.filter_cons, blockNotify]
  · rfl

/-- What is inserted is pending. -/
theorem pendingBlocks_new (hch : C.getChannelGenHash channelName = some hash) {e : Exec} {db : Db}
    (he : e.From C L) (hat : e.At C db) :
    ((e.newBlocks C).filter fun r => r.channelGenesisHash = hash ∧ r.networkName = some C.networkName).map
        (rowNotify C channelName) =
      (e.resume C db).2.execs.flatMap (Exec.pendingBlocks C channelName) := by
  rw [(outcome_resume channelName e db).2.1]
  cases hnew : e.newBlocks C with
  | nil => rfl
  | cons r rest =>
    have hr := newBlock hat (r := r) (by simp [hnew])
    have hsingle := hr.single
    rw [hnew, List.cons.injEq] at hsingle
    have hiff := hash_iff hch he hr.hash
    have hnet : r.networkName = some C.networkName := by rw [hr.row]
    rw [hsingle.2]
    by_cases hname : e.channelName = channelName
    · have hnote : rowNotify C e.channelName r = blockNotify C e r := by
        rw [hr.row]
        rfl
      subst hname
      simp [hiff, hnet, hnote]
    · simp [hiff, hname]

/-- **The account of block rows.** What is inserted or was pending is notified
or pending after the step. -/
theorem pendingBlocks_resume (hch : C.getChannelGenHash channelName = some hash) {e : Exec} {db : Db}
    (he : e.From C L) (hat : e.At C db) :
    (((e.newBlocks C).filter fun r =>
        r.channelGenesisHash = hash ∧ r.networkName = some C.networkName).map
          (rowNotify C channelName) ++ e.pendingBlocks C channelName).Perm
      (notifiesOf channelName (notes (e.resume C db).2) ++
        (e.resume C db).2.execs.flatMap (Exec.pendingBlocks C channelName)) := by
  rw [pendingBlocks_new hch he hat, pendingBlocks_eq, (outcome_resume channelName e db).1]
  exact List.perm_append_comm

theorem channelRows_resume (e : Exec) (db : Db) :
    channelRows C.networkName (e.resume C db).1 hash =
      (channelRows C.networkName db hash).map (e.countUp C) := by
  have hkey : ∀ r : ChannelRow, (e.countUp C r).channelGenesisHash = r.channelGenesisHash ∧
      (e.countUp C r).networkName = r.networkName := by
    intro r
    unfold Exec.countUp
    split
    · split <;> exact ⟨rfl, rfl⟩
    · split <;> exact ⟨rfl, rfl⟩
    · exact ⟨rfl, rfl⟩
  rw [channelRows, resume_channel, List.filter_map, channelRows]
  refine congrArg (List.map (e.countUp C)) (List.filter_congr fun r _ => ?_)
  simp only [Function.comp, (hkey r).1, (hkey r).2]

theorem countUp_eq (hch : C.getChannelGenHash channelName = some hash) {e : Exec} {db : Db}
    (he : e.From C L) (hat : e.At C db) {row : ChannelRow} (hhash : row.channelGenesisHash = hash)
    (hnet : row.networkName = C.networkName) :
    (e.countUp C row).blocks = row.blocks + (notifiesOf channelName (e.sends C)).length ∧
      (e.countUp C row).trans = row.trans + e.counts channelName := by
  have heq : ∀ h, e.channelGenesisHash = some h → (hash = h) = (e.channelName = channelName) :=
    fun h hh => propext (eq_comm.trans (hash_iff hch he hh))
  unfold Exec.At at hat
  unfold Exec.countUp Exec.sends Exec.counts
  cases hpc : e.pc with
  | timeStamp | blockHash => simp [notifiesOf]
  | saveTransaction block i transaction stmt =>
    simp only [hpc] at hat
    obtain ⟨hrow, ⟨txObj, -, htx⟩, -, -⟩ := hat
    have hkey := (transactionRow_key htx).2.1
    cases stmt with
    | count | insert | chaincodes => simp [notifiesOf]
    | channel =>
      by_cases hname : e.channelName = channelName <;>
        simp [hhash, hnet, hkey, heq _ hrow.1, hname, notifiesOf]
  | saveBlock block stmt =>
    simp only [hpc] at hat
    obtain ⟨hrow, -, -⟩ := hat
    cases stmt with
    | count | insert => simp [notifiesOf]
    | channel =>
      by_cases hname : e.channelName = channelName <;>
        simp [hhash, hnet, heq _ hrow.1, hname, notifiesOf, blockNotify]

theorem length_newTransactions (hch : C.getChannelGenHash channelName = some hash) {e : Exec} {db : Db}
    (he : e.From C L) (hat : e.At C db) :
    (e.newTransactions.filter fun r =>
        r.channelGenesisHash = hash ∧ r.networkName = C.networkName).length =
      if e.channelName = channelName then e.newTransactions.length else 0 := by
  cases hnew : e.newTransactions with
  | nil => simp
  | cons r rest =>
    have hr := newTransaction hat (r := r) (by simp [hnew])
    have hsingle := hr.single
    rw [hnew, List.cons.injEq] at hsingle
    rw [hsingle.2]
    by_cases hname : e.channelName = channelName <;>
      simp [hash_iff hch he hr.hash, hr.network, hname]

/-- **The accounts of the channel row.** `blocks` is counted up in the step
that notifies, `trans` in the last one of a transaction. -/
theorem counted_resume (hch : C.getChannelGenHash channelName = some hash) {e : Exec} {db : Db}
    (he : e.From C L) (hat : e.At C db) {row : ChannelRow} (hhash : row.channelGenesisHash = hash)
    (hnet : row.networkName = C.networkName) :
    (e.countUp C row).blocks = row.blocks + (notifiesOf channelName (notes (e.resume C db).2)).length ∧
      (e.countUp C row).trans +
          ((e.resume C db).2.execs.map (Exec.pendingTransactions channelName)).sum =
        row.trans + e.pendingTransactions channelName +
          (e.newTransactions.filter fun r =>
            r.channelGenesisHash = hash ∧ r.networkName = C.networkName).length := by
  obtain ⟨hsends, -, hpending⟩ := outcome_resume channelName e db
  obtain ⟨hblocks, htrans⟩ := countUp_eq hch he hat hhash hnet
  rw [hsends, hblocks, htrans, length_newTransactions hch he hat]
  exact ⟨rfl, by omega⟩

/-! ## Deliveries -/

theorem resume_not_thrown {e : Exec} (h : e.block.Readable) (db : Db) : (e.resume C db).2 ≠ .thrown := by
  rw [ne_eq, resume_thrown_iff, not_not]
  exact fun txObj htx => h txObj (mem_of_reads htx)

/-- An execution of a known channel ends with its block stored. -/
theorem execs_resume {e : Exec} {db : Db} (h : e.Built C db) (hread : e.block.Readable)
    (hh : e.channelGenesisHash = some hash) (hend : (e.resume C db).2.execs = []) :
    (hash, e.number) ∈ blockKeys C.networkName (e.resume C db).1 := by
  cases hout : (e.resume C db).2 with
  | await e' => simp [hout, Outcome.execs] at hend
  | done notes => exact done_resume h hh hout
  | thrown => exact absurd hout (resume_not_thrown hread db)

/-! ## Invariant -/

theorem running_perm {s s' : St} (hp : s'.execs.Perm s.execs) {n : Nat} :
    Running channelName s' n ↔ Running channelName s n := by
  unfold Running
  exact exists_congr fun e => and_congr_left fun _ => hp.mem_iff

theorem exact_quiet {s s' : St} (h : Exact C L channelName hash s) (hq : Quiet s s') :
    Exact C L channelName hash s' := by
  obtain ⟨h1, ⟨row, h2, h3, h4⟩, h5, h6, h7, h8, h9⟩ := h
  obtain ⟨q1, q2, q3, q4, q5, q6, q7⟩ := hq
  refine ⟨?_, ⟨row, ?_, ?_, ?_⟩, ?_, ?_, ?_, ?_, ?_⟩
  · rw [blocksOf, q1, q6]
    exact h1.trans (List.Perm.append_left _ (q5.symm.flatMap_right _))
  · rw [channelRows, q3]
    exact h2
  · rw [q6]
    exact h3
  · rw [transactionsOf, q2, (q5.map _).sum_nat]
    exact h4
  · intro n hn
    rw [q4] at hn
    exact (h5 n hn).imp_left (running_perm q5).2
  · intro n hn
    rw [blockKeys_congr q1, running_perm q5]
    rw [q7] at hn
    exact h6 n hn
  · intro n hn
    rw [q7]
    exact h7 n ((running_perm q5).1 hn)
  · rw [blockKeys_congr q1, q7]
    exact h8
  · rw [txKeys_congr q2, q7]
    exact h9

/-- One more block is delivered, whose key is held. -/
theorem exact_deliver {s s' : St} (h : Exact C L channelName hash s) (name : String) (n : Nat)
    (hq : Quiet { s with delivered := s.delivered ++ [(name, n)] } s')
    (hrun : name = channelName → Running channelName s n ∨ Unreadable L channelName n) :
    Exact C L channelName hash s' := by
  refine exact_quiet ?_ hq
  obtain ⟨h1, h2, h3, h4, h5, h6, h7⟩ := h
  refine ⟨h1, h2, h3, fun m hm => ?_, fun m hm => ?_, fun m hm => ?_, fun m txhash hm => ?_⟩
  · rcases List.mem_append.1 hm with hm | hm
    · exact h4 m hm
    · cases List.mem_singleton.1 hm
      exact (hrun rfl).imp_right .inl
  · exact List.mem_append_left _ (h5 m hm)
  · exact List.mem_append_left _ (h6 m hm)
  · exact List.mem_append_left _ (h7 m txhash hm)

theorem exact_started (hch : C.getChannelGenHash channelName = some hash) {s s' : St}
    (h : Exact C L channelName hash s) {e : Exec} (hpc : e.pc = .timeStamp) (hdb : s'.db = s.db)
    (hheld : s'.blocksInProcess = s.blocksInProcess ++ [e.key])
    (hexecs : s'.execs.Perm (e :: s.execs)) (hsent : s'.sent = s.sent)
    (hdelivered : s'.delivered = s.delivered ++ [(e.channelName, e.number)]) :
    Exact C L channelName hash s' := by
  obtain ⟨h1, ⟨row, h2, h3, h4⟩, h5, h6, h7, h8, h9⟩ := h
  have hrun : ∀ n, Running channelName s n → Running channelName s' n := fun n ⟨a, ha, hid⟩ =>
    ⟨a, hexecs.mem_iff.2 (List.mem_cons_of_mem _ ha), hid⟩
  have hnew : ∀ n, e.channelName = channelName → e.number = n → Running channelName s' n :=
    fun n hname hn => ⟨e, hexecs.mem_iff.2 (List.mem_cons_self ..), hname, hn⟩
  refine ⟨?_, ⟨row, ?_, ?_, ?_⟩, ?_, ?_, ?_, ?_, ?_⟩
  · rw [hdb, hsent]
    refine h1.trans (List.Perm.append_left _ ?_)
    refine List.Perm.trans ?_ (hexecs.symm.flatMap_right _)
    simp [Exec.pendingBlocks, hpc]
  · rw [hdb]
    exact h2
  · rw [hsent]
    exact h3
  · rw [hdb, (hexecs.map _).sum_nat]
    simpa [Exec.pendingTransactions, hpc] using h4
  · intro n hn
    rw [hheld] at hn
    rcases List.mem_append.1 hn with hn | hn
    · exact (h5 n hn).imp_left (hrun n)
    · obtain ⟨hname, hnum⟩ := blockProKey_inj (List.mem_singleton.1 hn)
      exact .inl (hnew n hname.symm hnum.symm)
  · intro n hn
    rw [hdelivered] at hn
    rw [hdb]
    rcases List.mem_append.1 hn with hn | hn
    · exact (h6 n hn).imp_left (hrun n)
    · cases List.mem_singleton.1 hn
      exact .inl (hnew _ rfl rfl)
  · rintro n ⟨a, ha, hname, hnum⟩
    rw [hdelivered]
    rcases List.mem_cons.1 (hexecs.mem_iff.1 ha) with rfl | ha
    · rw [← hname, ← hnum]
      simp
    · exact List.mem_append_left _ (h7 n ⟨a, ha, hname, hnum⟩)
  · intro n hn
    rw [hdelivered]
    rw [hdb] at hn
    exact List.mem_append_left _ (h8 n hn)
  · intro n txhash hn
    rw [hdelivered]
    rw [hdb] at hn
    exact List.mem_append_left _ (h9 n txhash hn)

/-- After a resumption the same blocks are running, but for the one that has
come to its end. -/
theorem running_resumed (channelName : String) {s s' : St} {e : Exec} {rest : List Exec}
    (hp : s.execs.Perm (e :: rest)) (hr : Resumed s s' e rest (e.resume C s.db).2) (n : Nat) :
    (Running channelName s' n → Running channelName s n) ∧
      (Running channelName s n → Running channelName s' n ∨
        (e.channelName = channelName ∧ e.number = n ∧ (e.resume C s.db).2.execs = [])) := by
  have hexecs := hr.execs
  have hmem : ∀ a ∈ (e.resume C s.db).2.execs, a = { e with pc := a.pc } := fun a ha =>
    await_resume (Outcome.mem_execs.1 ha)
  constructor
  · rintro ⟨a, ha, hname, hnum⟩
    rcases List.mem_append.1 (hexecs.mem_iff.1 ha) with ha | ha
    · rw [hmem a ha] at hname hnum
      exact ⟨e, hp.mem_iff.2 (List.mem_cons_self ..), hname, hnum⟩
    · exact ⟨a, hp.mem_iff.2 (List.mem_cons_of_mem _ ha), hname, hnum⟩
  · rintro ⟨a, ha, hname, hnum⟩
    rcases List.mem_cons.1 (hp.mem_iff.1 ha) with rfl | ha
    · cases hout : (a.resume C s.db).2.execs with
      | nil => exact .inr ⟨hname, hnum, rfl⟩
      | cons a' others =>
        have ha' : a' ∈ (a.resume C s.db).2.execs := by simp [hout]
        refine .inl ⟨a', hexecs.mem_iff.2 (List.mem_append_left _ ha'), ?_, ?_⟩
        · rw [hmem a' ha']
          exact hname
        · rw [hmem a' ha']
          exact hnum
    · exact .inl ⟨a, hexecs.mem_iff.2 (List.mem_append_right _ ha), hname, hnum⟩

theorem readable_or {e : Exec} (he : e.From C L) :
    e.block.Readable ∨ Unreadable L e.channelName e.number := by
  by_cases hread : e.block.Readable
  · exact .inl hread
  · exact .inr ⟨e.block, he.ledger, hread⟩

section

variable {s s' : St} {e : Exec} {rest : List Exec} (hch : C.getChannelGenHash channelName = some hash)
  (hi : Inv C L s) (h : Exact C L channelName hash s) (hp : s.execs.Perm (e :: rest))
  (hdb : s'.db = (e.resume C s.db).1) (hr : Resumed s s' e rest (e.resume C s.db).2)

include hi h hp hr

/-- A resumed execution releases its key when it returns, and keeps it when it
throws. -/
theorem held_resumed (n : Nat) (hn : blockProKey channelName n ∈ s'.blocksInProcess) :
    Running channelName s' n ∨ Unreadable L channelName n := by
  obtain ⟨hg, ⟨hfrom, hat⟩, -⟩ := rest_resume hi hp
  have hrun := running_resumed channelName hp hr n
  have hheld : blockProKey channelName n ∈ s.blocksInProcess := by
    cases ho : (e.resume C s.db).2 with
    | await e' | thrown =>
      rw [ho] at hr
      rwa [hr.1] at hn
    | done notes =>
      rw [ho] at hr
      rw [hr.1, hg.mem_release] at hn
      exact hn.2
  rcases h.held n hheld with hold | hnot
  · rcases hrun.2 hold with hnew | ⟨hname, hnum, hend⟩
    · exact .inl hnew
    · cases ho : (e.resume C s.db).2 with
      | await e' =>
        rw [ho] at hend
        cases hend
      | done notes =>
        rw [ho] at hr
        rw [hr.1, hg.mem_release, ← hname, ← hnum] at hn
        exact absurd rfl hn.1
      | thrown =>
        rw [← hname, ← hnum]
        exact .inr ((readable_or hfrom).resolve_left fun hread => resume_not_thrown hread s.db ho)
  · exact .inr hnot

include hch hdb

theorem notified_resumed : ((blocksOf C.networkName s'.db hash).map (rowNotify C channelName)).Perm
    (notifiesOf channelName s'.sent ++ s'.execs.flatMap (Exec.pendingBlocks C channelName)) := by
  obtain ⟨-, ⟨hfrom, hat⟩, -⟩ := rest_resume hi hp
  have hbalance := h.notified
  have hacc := pendingBlocks_resume hch hfrom hat
  rw [hdb, hr.sent, blocksOf, resume_blocks, List.filter_append, List.map_append]
  rw [List.perm_iff_count] at hbalance ⊢
  intro n
  have hbefore := (hp.flatMap_right (Exec.pendingBlocks C channelName)).count_eq n
  have hafter := (hr.execs.flatMap_right (Exec.pendingBlocks C channelName)).count_eq n
  have hacc := hacc.count_eq n
  have hbalance := hbalance n
  simp only [blocksOf, notifiesOf, List.filter_append, List.flatMap_append, List.flatMap_cons,
    List.count_append] at hbefore hafter hacc hbalance ⊢
  omega

theorem counted_resumed : ∃ row, channelRows C.networkName s'.db hash = [row] ∧
    row.blocks = (notifiesOf channelName s'.sent).length ∧
    row.trans + (s'.execs.map (Exec.pendingTransactions channelName)).sum =
      (transactionsOf C.networkName s'.db hash).length := by
  obtain ⟨-, ⟨hfrom, hat⟩, -⟩ := rest_resume hi hp
  obtain ⟨row, hrow, hblocks, htrans⟩ := h.counted
  obtain ⟨hhash, hnet⟩ : row.channelGenesisHash = hash ∧ row.networkName = C.networkName := by
    have hmem : row ∈ channelRows C.networkName s.db hash := by simp [hrow]
    simpa [channelRows] using (List.mem_filter.1 hmem).2
  obtain ⟨hup, hcount⟩ := counted_resume hch hfrom hat hhash hnet
  refine ⟨e.countUp C row, ?_, ?_, ?_⟩
  · rw [hdb, channelRows_resume, hrow]
    rfl
  · rw [hup, hblocks, hr.sent, notifiesOf, notifiesOf, notifiesOf, List.filter_append,
      List.length_append]
  · have hbefore := (hp.map (Exec.pendingTransactions channelName)).sum_nat
    have hafter := (hr.execs.map (Exec.pendingTransactions channelName)).sum_nat
    rw [hdb, transactionsOf, resume_transactions, List.filter_append, List.length_append]
    simp only [transactionsOf, List.map_append, List.map_cons, List.sum_append, List.sum_cons]
      at htrans hbefore hafter ⊢
    omega

omit h hr in
/-- An execution that is over has stored its block, or has thrown. -/
theorem ended_resumed (hname : e.channelName = channelName)
    (hend : (e.resume C s.db).2.execs = []) :
    Unreadable L channelName e.number ∨ (hash, e.number) ∈ blockKeys C.networkName s'.db := by
  obtain ⟨-, ⟨hfrom, hat⟩, -⟩ := rest_resume hi hp
  have hhash := hfrom.hash
  have hread := readable_or hfrom
  rw [hname] at hhash hread
  rcases hread with hread | hnot
  · rw [hdb]
    exact .inr (execs_resume hat.built hread (hhash.trans hch) hend)
  · exact .inl hnot

theorem exact_resumed (hdelivered : s'.delivered = s.delivered) : Exact C L channelName hash s' := by
  obtain ⟨-, ⟨hfrom, hat⟩, -⟩ := rest_resume hi hp
  have hrun := running_resumed channelName hp hr
  have hdelivers : e.channelGenesisHash = some hash → (channelName, e.number) ∈ s.delivered :=
    fun hhash => h.running _ ⟨e, hp.mem_iff.2 (List.mem_cons_self ..), (hash_iff hch hfrom hhash).1 rfl, rfl⟩
  refine ⟨notified_resumed hch hi h hp hdb hr, counted_resumed hch hi h hp hdb hr,
    held_resumed hi h hp hr, fun n hn => ?_, fun n hn => ?_, fun n hn => ?_,
    fun n txhash hn => ?_⟩
  · rw [hdelivered] at hn
    rcases h.reached n hn with hold | hnot | hold
    · rcases (hrun n).2 hold with hnew | ⟨hname, rfl, hend⟩
      · exact .inl hnew
      · exact .inr (ended_resumed hch hi hp hdb hname hend)
    · exact .inr (.inl hnot)
    · rw [hdb]
      exact .inr (.inr (blockKeys_subset_resume e s.db _ hold))
  · rw [hdelivered]
    exact h.running n ((hrun n).1 hn)
  · rw [hdelivered]
    rw [hdb] at hn
    rcases blockKeys_resume_of hat.built hn with hn | ⟨hhash, rfl⟩
    · exact h.blocks n hn
    · exact hdelivers hhash
  · rw [hdelivered]
    rw [hdb] at hn
    rcases txKeys_resume_of hat hn with hn | ⟨hhash, rfl⟩
    · exact h.transactions n txhash hn
    · exact hdelivers hhash

end

theorem exact_move (hch : C.getChannelGenHash channelName = some hash) {s s' : St}
    (hi : Inv C L s) (h : Exact C L channelName hash s) (hm : Move C L s s') :
    Exact C L channelName hash s' := by
  cases hm with
  | quiet hq => exact exact_quiet h hq
  | held name block firstTx hblock hfirst hkey hq =>
    refine exact_deliver h name _ hq fun hname => ?_
    have hid := L.channel _ _ _ _ hblock hfirst
    subst hname
    refine h.held _ ?_
    rw [← hid]
    exact hkey
  | started name block firstTx hblock hfirst hkey hdb hheld hexecs hsent hdelivered =>
    have hid := L.channel _ _ _ _ hblock hfirst
    refine exact_started hch h rfl hdb hheld hexecs hsent ?_
    rw [hdelivered, ← hid]
    rfl
  | resumed e rest hp hdb hr hdelivered => exact exact_resumed hch hi h hp hdb hr hdelivered

theorem exact_init {db : Db} (h : Ready C hash db) : Exact C L channelName hash (init db) := by
  obtain ⟨hfresh, row, hrow, hblocks, htrans⟩ := h
  have hb : blocksOf C.networkName db hash = [] := by
    rw [blocksOf, List.filter_eq_nil_iff]
    intro r hr
    have := hfresh.blocks r hr
    simp [this]
  have ht : transactionsOf C.networkName db hash = [] := by
    rw [transactionsOf, List.filter_eq_nil_iff]
    intro r hr
    have := hfresh.transactions r hr
    simp [this]
  refine ⟨?_, ⟨row, hrow, ?_, ?_⟩, ?_, ?_, ?_, ?_, ?_⟩
  · simp [init, hb, notifiesOf, St.execs]
  · simp [hblocks, init, notifiesOf]
  · simp [htrans, init, ht, St.execs]
  · simp [init]
  · simp [init]
  · simp [Running, init, St.execs]
  · simp [init, hfresh.blockKeys]
  · simp [init, hfresh.txKeys]

variable (C L hash) in
/-- The runs without a failing statement. -/
def lively : LTS St Ev := (lts C L (Ready C hash)).restrict fun _ ev => ev.fails = false

theorem exact_inductive (hch : C.getChannelGenHash channelName = some hash) :
    (lively C L hash).Inductive fun s => Inv C L s ∧ Exact C L channelName hash s := by
  refine ((inv_inductive fun _ hdb => hdb.fresh).restrict _).and_of ?_ ?_
  · rintro s ⟨db, hdb, rfl⟩
    exact exact_init hdb
  · rintro s ev s' hi h ⟨hev, hs⟩
    rcases step_cases hs with ⟨-, hm⟩ | ⟨hfails, -⟩
    · exact exact_move hch hi h hm
    · rw [hev] at hfails
      cases hfails

/-! ## Exactly once -/

variable (C L channelName hash) in
/-- Every delivered block has one row and every other none; every tx id of a
delivered block has one transaction row in it and every other none; the
counters of the channel's row are the numbers of its block and transaction
rows; and its block notifications are one for each block row. -/
structure IngestedOnce (s : St) : Prop where
  blocks : ∀ n, (blockRows C.networkName s.db hash n).length =
    if (channelName, n) ∈ s.delivered then 1 else 0
  transactions : ∀ n txid, (transactionRows C.networkName s.db hash n txid).length =
    if (channelName, n) ∈ s.delivered ∧ txid ∈ Ledger.txIds L channelName n then 1 else 0
  counters : ∃ row, channelRows C.networkName s.db hash = [row] ∧
    row.blocks = (blocksOf C.networkName s.db hash).length ∧
    row.trans = (transactionsOf C.networkName s.db hash).length
  notifications : (notifiesOf channelName s.sent).Perm
    ((blocksOf C.networkName s.db hash).map (rowNotify C channelName))

theorem ingestedOnce_of_readable (hch : C.getChannelGenHash channelName = some hash) {s : St}
    (hi : Inv C L s) (h : Exact C L channelName hash s) (hidle : s.execs = [])
    (hread : ∀ n block, (channelName, n) ∈ s.delivered → L.block channelName n = some block →
      block.Readable) : IngestedOnce C L channelName hash s := by
  obtain ⟨hnotified, ⟨row, hrow, hblocks, htrans⟩, -, hreached, -, hb, ht⟩ := h
  have hstored := hi.stored
  rw [hidle, List.flatMap_nil, List.append_nil] at hnotified
  rw [hidle, List.map_nil, List.sum_nil, Nat.add_zero] at htrans
  have hblock : ∀ n, (hash, n) ∈ blockKeys C.networkName s.db ↔ (channelName, n) ∈ s.delivered := by
    refine fun n => ⟨hb n, fun hn => ?_⟩
    rcases hreached n hn with ⟨e, he, -⟩ | ⟨block, hledger, hnot⟩ | hmem
    · rw [hidle] at he
      cases he
    · exact absurd (hread n block hn hledger) hnot
    · exact hmem
  refine ⟨fun n => ?_, fun n txid => ?_, ⟨row, hrow, ?_, htrans⟩, hnotified.symm⟩
  · rw [length_blockRows, hstored.blocks.count]
    exact if_congr (hblock n) rfl rfl
  · rw [length_transactionRows, hstored.transactions.count]
    refine if_congr ⟨fun hmem => ⟨ht n txid hmem, ?_⟩, fun ⟨hn, hmem⟩ => ?_⟩ rfl rfl
    · obtain ⟨name, block, hname, hhash, txObj, htx, rfl⟩ := hstored.txOrigin _ _ _ hmem
      rw [C.distinct _ _ _ hhash hch] at hname
      rw [Ledger.txIds, hname]
      exact List.mem_map_of_mem htx
    · unfold Ledger.txIds at hmem
      split at hmem
      · rename_i block hname
        obtain ⟨txObj, htx, rfl⟩ := List.mem_map.1 hmem
        exact (hstored.complete _ _ _ _ hname hch ((hblock n).2 hn) txObj htx).2
      · cases hmem
  · rw [hblocks, ← hnotified.length_eq, List.length_map]

/-- A channel with its row, and no block yet. -/
def emptyChannel : Db := ⟨[], [], [⟨"mychannel", 0, 0, "genesis", "first-network"⟩], []⟩

theorem ready_emptyChannel : Ready mychannel "genesis" emptyChannel :=
  ⟨⟨by simp [emptyChannel], by simp [emptyChannel]⟩, _, rfl, rfl, rfl⟩

/-- The listener delivers block 1; a catch-up run counts it as missing while
it is being processed, and finds its key held; then the listener replays it. -/
def replayed : List Ev :=
  [.blockEvent "mychannel" 1, .synchBlocks "mychannel", .chainInfo 1 (some 2), .run 0, .run 0, .run 0,
    .queryBlock 0 false, .queryBlock 1 true] ++ List.replicate 11 (.run 0) ++
  .blockEvent "mychannel" 1 :: List.replicate 5 (.run 0)

/-- An endorser transaction without an action. -/
def noAction : Block :=
  ⟨⟨1, "p0", "d1"⟩, [{ transfer "t1" with data := some ⟨some []⟩ }], [[16]]⟩

def ledgerNoAction : Ledger := oneBlock noAction rfl (by decide)

end Explorer.Fabric.SyncService
