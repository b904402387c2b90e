import Mathlib.Data.List.Forall2
import Explorer.Fabric.NetworkConfig

/-!
# One row for a channel, with counters that never go down

A channel is registered after three checks, each a statement of its own:
`getChannel`, `existChannel` and the count of `saveChannel`. What they answer
can be old when `saveChannel` writes: another run has inserted the row, and
block processing has counted it up.

* `keepsChannels`: the INSERT still finds what `existChannel` had answered,
  and the UPDATE overwrites no counter above zero.
* `keepsChannels_iff`: a step keeps the table as it should if and only if it
  meets that condition.
* `registered_once_iff`: the outcome, for every run.
* `alone_keepsChannels`: runs that do not overlap always meet it.
-/
namespace Explorer.Fabric.NetworkConfig

variable (C : DiscoveryClient) (L : SyncService.Ledger)

/-- At most one row for each network and channel name. -/
def Once (db : Db) : Prop := (db.channel.map fun r => (r.networkName, r.name)).Nodup

/-- The same row, with counters that are no lower. -/
structure Kept (r r' : ChannelRow) : Prop where
  name : r'.name = r.name
  channelGenesisHash : r'.channelGenesisHash = r.channelGenesisHash
  networkName : r'.networkName = r.networkName
  blocks : r.blocks ≤ r'.blocks
  trans : r.trans ≤ r'.trans

/-- Every row is kept; others may have been added. -/
def NotLowered (db db' : Db) : Prop :=
  ∃ rows added, db'.channel = rows ++ added ∧ List.Forall₂ Kept db.channel rows

/-- Every state of the run has each channel once, and no step lowers a counter. -/
def RegisteredOnce (s₀ : St) (evs : List Ev) : Prop :=
  ∀ pre post m, evs = pre ++ post → (lts C L (Once ·.db)).Run s₀ pre m →
    Once m.db ∧ ∀ ev post' m', post = ev :: post' → step C L m ev = some m' → NotLowered m.db m'.db

/-! ## The condition on a step -/

/-- The statement awaited, executed now, leaves the channels registered once. -/
def Network.keepsChannels (s : St) (n : Network) : Bool :=
  match n.pc with
  | .saveChannel channelName _ .insert => existChannel C.networkName channelName s.db = 0
  | .saveChannel channelName hash .update =>
    s.db.channel.all fun r =>
      !(r.name = channelName ∧ r.channelGenesisHash = hash ∧ r.networkName = C.networkName) ||
        (r.blocks = 0 ∧ r.trans = 0)
  | _ => true

def keepsChannels (s : St) (ev : Ev) : Bool :=
  match writer s ev with
  | some (.network n) => n.keepsChannels C s
  | _ => true

variable {C} {L}

/-! ## Rows -/

theorem kept_refl (r : ChannelRow) : Kept r r := ⟨rfl, rfl, rfl, Nat.le_refl _, Nat.le_refl _⟩

theorem notLowered_map {db db' : Db} {f : ChannelRow → ChannelRow}
    (h : db'.channel = db.channel.map f) : NotLowered db db' ↔ ∀ r ∈ db.channel, Kept r (f r) := by
  constructor
  · rintro ⟨rows, added, heq, hkept⟩
    have hlen := congrArg List.length (h.symm.trans heq)
    rw [List.length_map, List.length_append, ← hkept.length_eq] at hlen
    obtain rfl : added = [] := List.eq_nil_of_length_eq_zero (by omega)
    rw [List.append_nil] at heq
    rw [← heq, h, List.forall₂_map_right_iff, List.forall₂_same] at hkept
    exact hkept
  · intro hall
    refine ⟨db'.channel, [], (List.append_nil _).symm, ?_⟩
    rw [h, List.forall₂_map_right_iff, List.forall₂_same]
    exact hall

theorem notLowered_append {db db' : Db} {added : List ChannelRow}
    (h : db'.channel = db.channel ++ added) : NotLowered db db' := by
  refine ⟨db.channel, added, h, ?_⟩
  rw [List.forall₂_same]
  exact fun r _ => kept_refl r

theorem once_map {db db' : Db} {f : ChannelRow → ChannelRow} (h : db'.channel = db.channel.map f)
    (hname : ∀ r, (f r).name = r.name) (hnet : ∀ r, (f r).networkName = r.networkName) :
    Once db' ↔ Once db := by
  have hcomp : ((fun r : ChannelRow => (r.networkName, r.name)) ∘ f) = fun r => (r.networkName, r.name) := by
    funext r
    simp [hname, hnet]
  rw [Once, Once, h, List.map_map, hcomp]

theorem existChannel_eq_zero {networkName channelName : String} {db : Db} :
    existChannel networkName channelName db = 0 ↔
      (networkName, channelName) ∉ db.channel.map fun r => (r.networkName, r.name) := by
  simp only [existChannel, List.countP_eq_zero, decide_eq_true_eq, List.mem_map, Prod.mk.injEq, not_exists,
    not_and]
  exact forall₂_congr fun r _ => ⟨fun h hnet hname => h hname hnet, fun h hname hnet => h hnet hname⟩

theorem once_insert {db db' : Db} {row : ChannelRow} (h : db'.channel = db.channel ++ [row])
    (hdb : Once db) : Once db' ↔ existChannel row.networkName row.name db = 0 := by
  rw [existChannel_eq_zero, Once, h, List.map_append, List.map_singleton, List.nodup_append_comm,
    List.singleton_append, List.nodup_cons]
  exact and_iff_left hdb

theorem keeps_same {db db' : Db} (h : db'.channel = db.channel) (hdb : Once db) :
    Once db' ∧ NotLowered db db' := by
  refine ⟨by rwa [Once, h], ?_⟩
  exact notLowered_append (h.trans (List.append_nil _).symm)

/-! ## One step -/

/-- Block processing counts up. -/
theorem keeps_countUp {db db' : Db} {e : SyncService.Exec}
    (h : db'.channel = db.channel.map (e.countUp C.toClient)) (hdb : Once db) :
    Once db' ∧ NotLowered db db' := by
  have hkept : ∀ r, Kept r (e.countUp C.toClient r) := by
    intro r
    unfold SyncService.Exec.countUp
    split
    · split
      · exact ⟨rfl, rfl, rfl, Nat.le_refl _, Nat.le_succ _⟩
      · exact kept_refl r
    · split
      · exact ⟨rfl, rfl, rfl, Nat.le_succ _, Nat.le_refl _⟩
      · exact kept_refl r
    · exact kept_refl r
  refine ⟨(once_map h (fun r => (hkept r).name) fun r => (hkept r).networkName).2 hdb, ?_⟩
  exact (notLowered_map h).2 fun r _ => hkept r

theorem keeps_write {s : St} {n : Network} (hdb : Once s.db) :
    Once (n.write C s).db ∧ NotLowered s.db (n.write C s).db ↔ n.keepsChannels C s = true := by
  obtain ⟨next, pc⟩ := n
  cases pc with
  | saveChannel channelName hash stmt =>
    cases stmt with
    | count => exact iff_of_true (keeps_same rfl hdb) rfl
    | insert =>
      have heq : (Network.write C s ⟨next, .saveChannel channelName hash .insert⟩).db.channel =
          s.db.channel ++ [channelRow C channelName hash] := rfl
      rw [once_insert heq hdb, Network.keepsChannels, decide_eq_true_eq]
      exact and_iff_left (notLowered_append heq)
    | update =>
      have heq : (Network.write C s ⟨next, .saveChannel channelName hash .update⟩).db.channel =
          s.db.channel.map fun r =>
            if r.name = channelName ∧ r.channelGenesisHash = hash ∧ r.networkName = C.networkName then
              { r with blocks := 0, trans := 0 }
            else r := rfl
      have honce : Once (Network.write C s ⟨next, .saveChannel channelName hash .update⟩).db := by
        refine (once_map heq (fun r => ?_) fun r => ?_).2 hdb <;> split <;> rfl
      rw [and_iff_right honce, notLowered_map heq, Network.keepsChannels, List.all_eq_true]
      refine forall₂_congr fun r _ => ?_
      by_cases hr : r.name = channelName ∧ r.channelGenesisHash = hash ∧ r.networkName = C.networkName
      · rw [if_pos hr, decide_eq_true hr, Bool.not_true, Bool.false_or, decide_eq_true_eq]
        refine ⟨fun h => ⟨Nat.le_zero.1 h.blocks, Nat.le_zero.1 h.trans⟩, fun h => ?_⟩
        exact ⟨rfl, rfl, rfl, Nat.le_of_eq h.1, Nat.le_of_eq h.2⟩
      · simp [hr, kept_refl]
  | queryChannels | newGenesisBlock | newBlockHash | genesisBlock | blockHash | getChannel
  | existChannel | timeStamp | discovery => exact iff_of_true (keeps_same rfl hdb) rfl

/-- **What one step does to the channels.** -/
theorem keepsChannels_iff {s s' : St} {ev : Ev} (hdb : Once s.db) (hs : step C L s ev = some s') :
    Once s'.db ∧ NotLowered s.db s'.db ↔ keepsChannels C s ev = true := by
  obtain ⟨t, ht, hsame⟩ | ⟨hw, hsame⟩ | ⟨hw, hprocess⟩ := step_cases hs
  · rw [keepsChannels, ht, hsame.db]
    cases t with
    | network n => exact keeps_write hdb
    | discovery d => exact iff_of_true (keeps_same rfl hdb) rfl
  · rw [keepsChannels, hw, hsame.db]
    exact iff_of_true (keeps_same rfl hdb) rfl
  · rw [keepsChannels, hw]
    refine iff_of_true ?_ rfl
    obtain heq | ⟨e, heq⟩ := hprocess.db
    · exact keeps_same (congrArg Db.channel heq) hdb
    · exact keeps_countUp ((congrArg Db.channel heq).trans (SyncService.resume_channel _ e)) hdb

/-! ## Runs that do not overlap -/

/-- What the checks made so far have found, and what is still so. -/
def Network.Checked (C : DiscoveryClient) (db : Db) (n : Network) : Prop :=
  match n.pc with
  | .timeStamp channelName _ | .saveChannel channelName _ .count | .saveChannel channelName _ .insert =>
    existChannel C.networkName channelName db = 0
  | .saveChannel _ _ .update => False
  | _ => True

/-- The same for a task. -/
def Checked (C : DiscoveryClient) (s : St) : Task → Prop
  | .network n => n.Checked C s.db
  | .discovery _ => True

theorem checked_congr {db db' : Db} {n : Network}
    (h : ∀ channelName, existChannel C.networkName channelName db' =
      existChannel C.networkName channelName db) (hn : n.Checked C db) : n.Checked C db' := by
  unfold Network.Checked at hn ⊢
  split <;> simp_all

theorem existChannel_countUp {db db' : Db} {e : SyncService.Exec}
    (h : db'.channel = db.channel.map (e.countUp C.toClient)) (channelName : String) :
    existChannel C.networkName channelName db' = existChannel C.networkName channelName db := by
  rw [existChannel, existChannel, h, List.countP_map]
  refine List.countP_congr fun r _ => ?_
  have hr : (e.countUp C.toClient r).name = r.name ∧ (e.countUp C.toClient r).networkName = r.networkName := by
    unfold SyncService.Exec.countUp
    split <;> first | (split <;> exact ⟨rfl, rfl⟩) | exact ⟨rfl, rfl⟩
  simp only [Function.comp, hr.1, hr.2]

theorem checked_nextChannel {channels : List String} {next : Nat} {db : Db} :
    ∀ n ∈ (nextChannel channels next).execs, n.Checked C db := by
  intro n hn
  unfold nextChannel at hn
  split at hn
  · obtain rfl := List.mem_singleton.1 hn
    trivial
  · cases hn

theorem checked_nextNewChannel {channels rest : List String} {db : Db} :
    ∀ n ∈ (nextNewChannel channels rest).execs, n.Checked C db := by
  induction rest with
  | nil => exact checked_nextChannel
  | cons channelName rest ih =>
    intro n hn
    unfold nextNewChannel at hn
    split at hn
    · exact ih n hn
    · obtain rfl := List.mem_singleton.1 hn
      trivial

/-- The count of `saveChannel` asks for more than `existChannel`. -/
theorem saveChannel_count {channelName hash : String} {db : Db}
    (h : existChannel C.networkName channelName db = 0) :
    SaveChannel.run C.networkName (channelRow C channelName hash) db .count = (db, some .insert) := by
  simp only [existChannel, List.countP_eq_zero, decide_eq_true_eq] at h
  have hcount : isValidRow (db.channel.countP fun r => r.name = (channelRow C channelName hash).name ∧
      r.channelGenesisHash = (channelRow C channelName hash).channelGenesisHash ∧
        r.networkName = C.networkName) = true := by
    simp only [isValidRow, List.countP_eq_zero, decide_eq_true_eq]
    exact fun r hr hsame => h r hr ⟨hsame.1, hsame.2.2⟩
  simp only [SaveChannel.run]
  rw [if_pos hcount]

theorem checked_resume {n : Network} {s s' : St} {reply : Reply} {o : Outcome Network Bool}
    (hn : n.Checked C s.db) (h : n.resume C s reply = some (s', o)) :
    ∀ n' ∈ o.execs, n'.Checked C s'.db := by
  unfold Network.resume at h
  split at h
  · cases h
    simp [Outcome.execs]
  · cases h
    exact checked_nextNewChannel
  · cases h
    simp [Outcome.execs, Network.Checked]
  · cases h
    simp [Outcome.execs]
  · cases h
    exact checked_nextNewChannel
  · cases h
    simp [Outcome.execs, Network.Checked]
  · cases h
    simp [Outcome.execs]
  · cases h
    simp [Outcome.execs, Network.Checked]
  · split at h <;> cases h <;> simp [Outcome.execs, Network.Checked]
  · split at h
    · rename_i hexist
      split at h <;> cases h <;> simp [Outcome.execs, Network.Checked, hexist]
    · cases h
      simp [Outcome.execs]
  · rename_i hpc
    cases h
    simpa [Outcome.execs, Network.Checked, hpc] using hn
  · rename_i channelName hash stmt hpc
    simp only [Network.Checked, hpc] at hn
    cases stmt with
    | count =>
      rw [saveChannel_count hn] at h
      cases h
      simpa [Outcome.execs, Network.Checked] using hn
    | insert =>
      cases h
      simp [Outcome.execs, Network.Checked]
    | update => exact hn.elim
  · split at h
    · cases h
      simp [Outcome.execs, Network.Checked]
    · cases h
      exact checked_nextChannel
    · cases h
      simp [Outcome.execs]
    · cases h
  · cases h

theorem checked_knowledge : Knowledge C (Checked C) where
  timer s := trivial
  discover s hash := trivial
  same s s' t h ht := by
    cases t with
    | network n =>
      unfold Checked at ht ⊢
      rwa [h.db]
    | discovery d => trivial
  processed s s' t h ht := by
    cases t with
    | network n =>
      refine checked_congr (fun channelName => ?_) ht
      obtain heq | ⟨e, heq⟩ := h.db
      · rw [heq]
      · exact existChannel_countUp ((congrArg Db.channel heq).trans (SyncService.resume_channel _ e)) _
    | discovery d => trivial
  resume s s' t r ts ht h t' ht' := by
    cases t with
    | network n =>
      obtain ⟨⟨s₁, o⟩, hn, heq⟩ := Option.map_eq_some_iff.1 h
      cases heq
      obtain ⟨n', hn', rfl⟩ := List.mem_map.1 ht'
      exact checked_resume ht hn n' hn'
    | discovery d =>
      obtain ⟨⟨c, o⟩, -, heq⟩ := Option.map_eq_some_iff.1 h
      cases heq
      obtain ⟨d', -, rfl⟩ := List.mem_map.1 ht'
      trivial

theorem alone_keepsChannels {s : St} (h : Alone (Checked C) s) (ev : Ev) : keepsChannels C s ev = true := by
  unfold keepsChannels
  split
  · rename_i n hn
    have hchecked : n.Checked C s.db := h.knows _ (mem_of_writer hn)
    unfold Network.Checked at hchecked
    unfold Network.keepsChannels
    split
    · rename_i hpc
      simpa [hpc] using hchecked
    · rename_i hpc
      simp [hpc] at hchecked
    · rfl
  · rfl

/-! ## Whole runs -/

theorem registered_iff {s₀ s : St} {evs : List Ev} (hdb : Once s₀.db)
    (hr : (lts C L (Once ·.db)).Run s₀ evs s) :
    RegisteredOnce C L s₀ evs ↔
      ((lts C L (Once ·.db)).restrict fun s ev => keepsChannels C s ev = true).Run s₀ evs s := by
  have hstep : ∀ s ev s', True → Once s.db → step C L s ev = some s' →
      (Once s'.db ∧ NotLowered s.db s'.db ↔ keepsChannels C s ev = true) :=
    fun s ev s' _ hdb hs => keepsChannels_iff hdb hs
  exact hr.always_steps_iff (fun _ _ _ _ _ => trivial) hstep trivial hdb

/-- **One row for each channel, and its counters.** From tables that hold no
channel twice, every state of a run holds none twice and no step lowers a
counter, if and only if at each step of the run `existChannel` is still zero
when a row is inserted, and no counter is above zero where a row is
overwritten. -/
theorem registered_once_iff (db : Db) (c : Catalogue) (hdb : Once db) (evs : List Ev) (s : St)
    (hr : (lts C L (Once ·.db)).Run (.init db c) evs s) :
    RegisteredOnce C L (.init db c) evs ↔
      ((lts C L (Once ·.db)).restrict fun s ev => keepsChannels C s ev = true).Run (.init db c) evs s :=
  registered_iff hdb hr

/-- **Runs that do not overlap.** -/
theorem registered_once_alone (db : Db) (c : Catalogue) (hdb : Once db) (evs : List Ev) (s : St)
    (hr : ((lts C L (Once ·.db)).restrict fun s ev => alone s ev = true).Run (.init db c) evs s) :
    RegisteredOnce C L (.init db c) evs := by
  have honce : Once (St.init db c).db := hdb
  have halone : Alone (Checked C) (St.init db c) := alone_init db c
  refine (registered_iff honce hr.of_restrict).2 (hr.restrict_of (fun s ev s' h ha hs => ?_) halone)
  exact ⟨alone_step checked_knowledge h ha hs, alone_keepsChannels h ev⟩

/-! ## Two runs -/

def genesisBlock : Block := ⟨⟨0, "", "genesis"⟩, [SyncService.transfer "config"], [[0]]⟩

/-- The replies to one run, from `queryChannels` to the count of `saveChannel`. -/
def untilCount : List Reply :=
  [.queryChannels (some ["mychannel"]), .genesisBlock (some genesisBlock), .executed, .executed, .executed,
    .executed]

/-- The channel is registered, discovery fails, block 1 is saved, and the next
run finds the channel. -/
def oneRun : List Ev :=
  [.addChannel "mychannel", .timer] ++ untilCount.map (.reply 0) ++
    [.reply 0 .executed, .reply 0 .executed, .fail 0 false] ++
    (.blockEvent "mychannel" 1 :: List.replicate 13 (.run 0)).map .process ++
    [.timer] ++ (untilCount.take 4).map (.reply 0)

theorem registered_once_iff_oneRun :
    ∃ s, LTS.exec (step networkClient SyncService.ledgerOne) (.init emptyDb emptyCatalogue) oneRun = some s ∧
      s.db.channel = [⟨"mychannel", 1, 2, "genesis", "first-network"⟩] ∧
      RegisteredOnce networkClient SyncService.ledgerOne (.init emptyDb emptyCatalogue) oneRun := by
  have hrun : (LTS.exec (LTS.guarded (fun s ev => keepsChannels networkClient s ev = true)
      (step networkClient SyncService.ledgerOne)) (.init emptyDb emptyCatalogue) oneRun).map
        (·.db.channel) = some [⟨"mychannel", 1, 2, "genesis", "first-network"⟩] := by
    decide +kernel
  obtain ⟨s, hs, hfinal⟩ := Option.map_eq_some_iff.1 hrun
  have hrestrict : ((lts networkClient SyncService.ledgerOne (Once ·.db)).restrict
      fun s ev => keepsChannels networkClient s ev = true).Run (.init emptyDb emptyCatalogue) oneRun s :=
    LTS.restrict_run_of_exec hs
  exact ⟨s, LTS.exec_of_guarded hs, hfinal,
    (registered_once_iff emptyDb emptyCatalogue List.nodup_nil oneRun s hrestrict.of_restrict).2 hrestrict⟩

/-- Two runs make their checks before either inserts. -/
def insertTwice : List Ev :=
  [.addChannel "mychannel", .timer, .timer] ++
    (untilCount ++ [Reply.executed, .executed]).flatMap fun r => [.reply 0 r, .reply 0 r]

/-- The second run registers the channel, block 1 is saved, and the first run
goes on with what it has found. -/
def staleRun : List Ev :=
  [.addChannel "mychannel", .timer, .timer] ++ (untilCount.flatMap fun r => [.reply 0 r, .reply 0 r]) ++
    [.reply 1 .executed, .reply 1 .executed] ++
    (.blockEvent "mychannel" 1 :: List.replicate 13 (.run 0)).map .process ++ [.reply 0 .executed]

theorem registered_once_overlapping :
    ¬ RegisteredOnce networkClient SyncService.ledgerOne (.init emptyDb emptyCatalogue) insertTwice ∧
      (∃ m m', LTS.exec (step networkClient SyncService.ledgerOne) (.init emptyDb emptyCatalogue) staleRun =
          some m ∧ step networkClient SyncService.ledgerOne m (.reply 1 .executed) = some m' ∧
        m.db.channel = [⟨"mychannel", 1, 2, "genesis", "first-network"⟩] ∧
        m'.db.channel = [⟨"mychannel", 0, 0, "genesis", "first-network"⟩] ∧
        ¬ NotLowered m.db m'.db) := by
  constructor
  · intro h
    have hrun : (LTS.exec (step networkClient SyncService.ledgerOne) (.init emptyDb emptyCatalogue)
        insertTwice).map (·.db.channel) =
          some (List.replicate 2 ⟨"mychannel", 0, 0, "genesis", "first-network"⟩) := by
      decide +kernel
    obtain ⟨m, hm, hfinal⟩ := Option.map_eq_some_iff.1 hrun
    obtain ⟨honce, -⟩ := h insertTwice [] m (List.append_nil _).symm (LTS.run_of_exec hm)
    rw [Once, hfinal] at honce
    revert honce
    decide
  · have hrun : (LTS.exec (step networkClient SyncService.ledgerOne) (.init emptyDb emptyCatalogue)
        staleRun).bind (fun m => (step networkClient SyncService.ledgerOne m (.reply 1 .executed)).map
          fun m' => (m.db.channel, m'.db.channel)) =
          some ([⟨"mychannel", 1, 2, "genesis", "first-network"⟩],
            [⟨"mychannel", 0, 0, "genesis", "first-network"⟩]) := by
      decide +kernel
    obtain ⟨m, hm, hstep⟩ := Option.bind_eq_some_iff.1 hrun
    obtain ⟨m', hm', hfinal⟩ := Option.map_eq_some_iff.1 hstep
    simp only [Prod.mk.injEq] at hfinal
    refine ⟨m, m', hm, hm', hfinal.1, hfinal.2, fun hlow => ?_⟩
    obtain ⟨rows, added, heq, hkept⟩ := hlow
    rw [hfinal.1] at hkept
    rw [hfinal.2] at heq
    cases hkept with
    | cons hrow hrest =>
      simp only [List.cons_append, List.cons.injEq] at heq
      have := hrow.blocks
      simp [← heq.1] at this

end Explorer.Fabric.NetworkConfig
