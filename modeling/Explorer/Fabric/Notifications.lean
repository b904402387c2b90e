import Explorer.Core.Broadcast
import Explorer.Fabric.ExactlyOnce

/-!
# Block notifications, from the sync process to the web clients

The sync process sends its notifications to the main process, in order; that
one broadcasts those for blocks to the web sockets that are open. `Notify` is
what the first sends, `WebNotify` what the second makes of it.

Statements fail, web clients come and go, and either process ends: when the
explorer is started again, what was in the pipe is lost and every socket is
closed. The main process also ends some time after an error, so `stop` can
happen at any moment. What its other messages make it do is `ClientChannels`.

* `Announced`: what was sent, and what an execution will send, is for rows
  that are stored, each at most once.
* `announced_at_most_once`: so is what any web client has received.
* `announced_exactly_once`: without a failure, each block stored meanwhile has
  been announced to every client that stayed.
-/
namespace Explorer.Fabric.Notifications

open SyncService Broadcast

/-! ## The main process -/

/-- What goes through the pipe: a block, or a channel that is new or has
changed. -/
inductive Message where
  | block (notify : Notify)
  | channel (notifyType networkName clientName channelName : String)
  deriving DecidableEq, Repr

structure WebNotify where
  title : String
  type : String
  message : String
  time : Nat
  txcount : Nat
  datahash : String
  deriving DecidableEq, Repr

/-- mirrors app/platform/fabric/Proxy.js:361-369 -/
def webNotify (msg : Notify) : WebNotify where
  title := msg.title
  type := msg.type
  message := msg.message
  time := msg.time
  txcount := msg.txcount
  datahash := msg.datahash

/-- What a message makes the main process broadcast.
mirrors app/platform/fabric/Proxy.js:322-381 -/
def processSyncMessage : Message → Option WebNotify
  | .block msg => if msg.notifyType = "4" then some (webNotify msg) else none
  | .channel .. => none

/-- Both processes, with the sockets. -/
structure St where
  sync : SyncService.St
  relay : Relay Message WebNotify
  up : Bool
  deriving DecidableEq, Repr

/-- What the timers of the sync process and `insertNewChannel` send. -/
inductive ChannelNotice where
  | newChannel
  | updateChannel
  | chaincode
  | existChannel
  deriving DecidableEq, Repr

/-- mirrors app/platform/fabric/utils/FabricConst.js:12-16 -/
def ChannelNotice.notifyType : ChannelNotice → String
  | .newChannel => "1"
  | .updateChannel => "2"
  | .chaincode => "3"
  | .existChannel => "5"

/-- `message`: the main process takes a message out of the pipe. `stop`: it
ends. With `sync .crash` the explorer is started again. -/
inductive Ev where
  | sync (ev : SyncService.Ev)
  | send (notice : ChannelNotice) (channelName : String)
  | message
  | connection
  | close (i : Nat)
  | stop
  deriving DecidableEq, Repr

variable (C : Client) (L : Ledger)

/-- What the process has sent in a step. -/
def newMessages (s s' : SyncService.St) : List Message := (s'.sent.drop s.sent.length).map .block

/-- mirrors app/platform/fabric/sync/SyncPlatform.js:181-185, app/sync/sender/ForkSenderHandler.js:35-39,
app/sync/listener/ForkListenerHandler.js:36-38, main.js:62-69 -/
def step (s : St) : Ev → Option St
  | .sync ev =>
    (SyncService.step C L s.sync ev).map fun sync =>
      if ev = .crash then ⟨sync, s.relay.lose, true⟩
      else { s with sync := sync, relay := s.relay.put (newMessages s.sync sync) }
  | .send notice channelName =>
    some { s with relay := s.relay.put [.channel notice.notifyType C.networkName C.clientName channelName] }
  | .message =>
    if s.up then (s.relay.take processSyncMessage).map fun relay => { s with relay := relay } else none
  | .connection => if s.up then some { s with relay := s.relay.join } else none
  | .close i => some { s with relay := s.relay.leave i }
  | .stop => some { s with relay := s.relay.closeAll, up := false }

def start (db : Db) : St := ⟨init db, ⟨[], []⟩, true⟩

/-- The runs from a database that meets `I`. -/
def lts (I : Db → Prop) : LTS St Ev := LTS.ofFn (fun s => ∃ db, I db ∧ s = start db) (step C L)

/-! ## What the sync process sends -/

/-- What was sent, and what an execution will send, is for rows that are
stored, each at most once. -/
structure Announced (s : SyncService.St) : Prop where
  rows : ∀ channelName hash, C.getChannelGenHash channelName = some hash →
    (notifiesOf channelName s.sent ++ s.execs.flatMap (Exec.pendingBlocks C channelName)).Subperm
      ((blocksOf C.networkName s.db hash).map (rowNotify C channelName))
  known : ∀ m ∈ s.sent, m.notifyType = "4" ∧ ∃ hash, C.getChannelGenHash m.channelName = some hash

variable {C L}

/-- Nothing was sent; no row is gone, and no more is pending. -/
theorem Announced.same {s s' : SyncService.St} (h : Announced C s) (hsent : s'.sent = s.sent)
    (hblocks : ∀ hash, (blocksOf C.networkName s.db hash).Sublist (blocksOf C.networkName s'.db hash))
    (hexecs : ∀ channelName, (s'.execs.flatMap (Exec.pendingBlocks C channelName)).Subperm
      (s.execs.flatMap (Exec.pendingBlocks C channelName))) : Announced C s' := by
  refine ⟨fun channelName hash hch => ?_, by rw [hsent]; exact h.known⟩
  have hrows := h.rows channelName hash hch
  have hmore := ((hblocks hash).map (rowNotify C channelName)).subperm
  rw [hsent]
  exact (((List.subperm_append_left _).2 (hexecs channelName)).trans hrows).trans hmore

theorem announced_quiet {s s' : SyncService.St} (h : Announced C s) (hq : Quiet s s') : Announced C s' := by
  refine h.same hq.sent (fun hash => ?_) fun channelName => (hq.execs.flatMap_right _).subperm
  rw [blocksOf, blocksOf, hq.blocks]

theorem blocksOf_resume (e : Exec) (db : Db) (hash : String) :
    (blocksOf C.networkName db hash).Sublist (blocksOf C.networkName (e.resume C db).1 hash) := by
  rw [blocksOf, blocksOf, resume_blocks, List.filter_append]
  exact List.sublist_append_left ..

/-- An execution that sends has the hash of its channel. -/
theorem known_sends {e : Exec} {db : Db} (hfrom : e.From C L) (hat : e.At C db) :
    ∀ m ∈ e.sends C, m.notifyType = "4" ∧ ∃ hash, C.getChannelGenHash m.channelName = some hash := by
  intro m hm
  have hbuilt := hat.built
  unfold Exec.Built at hbuilt
  unfold Exec.sends at hm
  split at hm
  · rename_i block hpc
    rw [hpc] at hbuilt
    rw [List.mem_singleton.1 hm]
    exact ⟨rfl, _, hfrom.hash.symm.trans hbuilt.1.1⟩
  · cases hm

theorem announced_resumed {s s' : SyncService.St} {e : Exec} {rest : List Exec} (hi : Inv C L s)
    (h : Announced C s) (hp : s.execs.Perm (e :: rest)) (hdb : s'.db = (e.resume C s.db).1)
    (hr : Resumed s s' e rest (e.resume C s.db).2) : Announced C s' := by
  obtain ⟨-, ⟨hfrom, hat⟩, -⟩ := rest_resume hi hp
  refine ⟨fun channelName hash hch => ?_, fun m hm => ?_⟩
  · have hrows := h.rows channelName hash hch
    have hacc := pendingBlocks_resume hch hfrom hat
    rw [hdb, hr.sent, blocksOf, resume_blocks, List.filter_append, List.map_append]
    rw [List.subperm_ext_iff] at hrows ⊢
    intro n _
    have hbefore := (hp.flatMap_right (Exec.pendingBlocks C channelName)).count_eq n
    have hafter := (hr.execs.flatMap_right (Exec.pendingBlocks C channelName)).count_eq n
    have hacc := hacc.count_eq n
    have hrow : (notifiesOf channelName s.sent ++ s.execs.flatMap (Exec.pendingBlocks C channelName)).count n ≤
        ((blocksOf C.networkName s.db hash).map (rowNotify C channelName)).count n :=
      (List.subperm_ext_iff.2 hrows).count_le n
    simp only [blocksOf, notifiesOf, List.filter_append, List.flatMap_append, List.flatMap_cons,
      List.count_append] at hbefore hafter hacc hrow ⊢
    omega
  · rw [hr.sent, (outcome_resume "" e s.db).1, List.mem_append] at hm
    rcases hm with hold | hnew
    · exact h.known m hold
    · exact known_sends hfrom hat m hnew

theorem announced_move {s s' : SyncService.St} (hi : Inv C L s) (h : Announced C s) (hm : Move C L s s') :
    Announced C s' := by
  cases hm with
  | quiet hq => exact announced_quiet h hq
  | held name block firstTx hblock hfirst hkey hq =>
    have hsame : Announced C { s with delivered := s.delivered ++ [(name, block.header.number)] } :=
      ⟨h.rows, h.known⟩
    exact announced_quiet hsame hq
  | started name block firstTx hblock hfirst hkey hdb hheld hexecs hsent hdelivered =>
    refine h.same hsent (fun hash => by rw [hdb]) fun channelName => ?_
    -- nothing is pending for an execution that starts
    have hnone : Exec.pendingBlocks C channelName (Exec.start C block firstTx) = [] := rfl
    have hperm := hexecs.flatMap_right (Exec.pendingBlocks C channelName)
    rw [List.flatMap_cons, hnone, List.nil_append] at hperm
    exact hperm.subperm
  | resumed e rest hp hdb hr hdelivered => exact announced_resumed hi h hp hdb hr

theorem sent_of_fails {s s' : SyncService.St} {ev : SyncService.Ev} (hs : SyncService.step C L s ev = some s')
    (hev : ev.fails = true) : s'.sent = s.sent := by
  cases step_next hs with
  | rejected | noMissing | crash => rfl
  | _ => cases hev

theorem announced_loss {s s' : SyncService.St} (h : Announced C s) (hl : Loss C s s') (hsent : s'.sent = s.sent) :
    Announced C s' := by
  cases hl with
  | quiet hq => exact announced_quiet h hq
  | failed e rest hexecs hdb hheld hrest =>
    refine h.same hsent (fun hash => ?_) fun channelName => ?_
    · rcases hdb with hdb | hdb <;> rw [hdb]
      exact blocksOf_resume e s.db hash
    · have hbefore := hexecs.flatMap_right (Exec.pendingBlocks C channelName)
      have hafter := hrest.flatMap_right (Exec.pendingBlocks C channelName)
      rw [List.flatMap_cons] at hbefore
      exact (hafter.subperm.trans (List.sublist_append_right ..).subperm).trans hbefore.symm.subperm
  | crashed hdb hheld hexecs =>
    refine h.same hsent (fun hash => by rw [hdb]) fun channelName => ?_
    rw [hexecs]
    exact List.nil_subperm

theorem announced_inductive {I : Db → Prop} (hI : ∀ db, I db → Fresh C db) :
    (SyncService.lts C L I).Inductive fun s => Inv C L s ∧ Announced C s := by
  refine (inv_inductive hI).and_of ?_ ?_
  · rintro s ⟨db, -, rfl⟩
    exact ⟨fun _ _ _ => List.nil_subperm, nofun⟩
  · intro s ev s' hi h hs
    rcases step_cases hs with ⟨-, hm⟩ | ⟨hfails, hl⟩
    · exact announced_move hi h hm
    · exact announced_loss h hl (sent_of_fails hs hfails)

/-! ## Titles -/

/-- mirrors app/platform/fabric/sync/SyncService.js:674 -/
def blockTitle (n : Nat) (channelName : String) : String := s!"Block {n} added to Channel: {channelName}"

/-- The digits end at the first space, and the name of the channel is what is
left. -/
theorem blockTitle_inj {m n : Nat} {a b : String} (h : blockTitle m a = blockTitle n b) : m = n ∧ a = b := by
  have htitle : ∀ (n : Nat) (a : String), (blockTitle n a).toList =
      "Block ".toList ++ ((toString n).toList ++ (" added to Channel: ".toList ++ a.toList)) := fun n a => by
    show ("Block " ++ toString n ++ " added to Channel: " ++ a).toList = _
    simp only [String.toList_append, List.append_assoc]
  have hdigits : ∀ n : Nat, ∀ c ∈ (toString n).toList, (decide (c ≠ ' ')) = true := by
    intro n c hc
    rw [Nat.toString_eq_repr, Nat.toList_repr] at hc
    have hdigit := Nat.isDigit_of_mem_toDigits (by decide) (by decide) hc
    rw [decide_eq_true_eq]
    rintro rfl
    exact absurd hdigit (by decide)
  have hrest := congrArg String.toList h
  rw [htitle, htitle, List.append_cancel_left_eq] at hrest
  have hnum := congrArg (List.takeWhile fun c => decide (c ≠ ' ')) hrest
  have hstop : ∀ l : List Char, (" added to Channel: ".toList ++ l).takeWhile (fun c => decide (c ≠ ' ')) = [] :=
    fun l => rfl
  rw [List.takeWhile_append_of_pos (hdigits m), List.takeWhile_append_of_pos (hdigits n), hstop, hstop,
    List.append_nil, List.append_nil, String.toList_inj] at hnum
  obtain rfl : m = n := Nat.repr_inj.1 hnum
  rw [List.append_cancel_left_eq, List.append_cancel_left_eq, String.toList_inj] at hrest
  exact ⟨rfl, hrest⟩

/-- Only notifications of the channel have such a title. -/
theorem count_title {ms : List Notify} (h : ∀ m ∈ ms, ∃ k, m.title = blockTitle k m.channelName) (n : Nat)
    (channelName : String) :
    (ms.map Notify.title).count (blockTitle n channelName) =
      ((notifiesOf channelName ms).map Notify.title).count (blockTitle n channelName) := by
  rw [List.count, List.countP_map, List.countP_map, notifiesOf, List.countP_filter]
  refine List.countP_congr fun m hm => ?_
  obtain ⟨k, hk⟩ := h m hm
  simp only [Function.comp, beq_iff_eq, Bool.and_eq_true, decide_eq_true_eq, iff_self_and]
  intro htitle
  exact (blockTitle_inj (hk.symm.trans htitle)).2

/-- The rows of block `n`, told by their titles. -/
theorem count_rowNotify (db : Db) (hash : String) (n : Nat) (channelName : String) :
    (((blocksOf C.networkName db hash).map (rowNotify C channelName)).map Notify.title).count
        (blockTitle n channelName) = (blockRows C.networkName db hash n).length := by
  rw [List.count, List.countP_map, List.countP_map, blocksOf, List.countP_filter, blockRows,
    ← List.countP_eq_length_filter]
  refine List.countP_congr fun r _ => ?_
  have hiff : blockTitle r.blocknum channelName = blockTitle n channelName ↔ r.blocknum = n :=
    ⟨fun htitle => (blockTitle_inj htitle).1, fun hnum => by rw [hnum]⟩
  have htitle : (rowNotify C channelName r).title = blockTitle r.blocknum channelName := rfl
  simp only [Function.comp, beq_iff_eq, Bool.and_eq_true, decide_eq_true_eq, htitle, hiff]
  tauto

theorem Announced.row {s : SyncService.St} (h : Announced C s) {m : Notify} (hm : m ∈ s.sent) :
    ∃ hash, C.getChannelGenHash m.channelName = some hash ∧
      ∃ row ∈ blocksOf C.networkName s.db hash, rowNotify C m.channelName row = m := by
  obtain ⟨-, hash, hch⟩ := h.known m hm
  have hof : m ∈ notifiesOf m.channelName s.sent := List.mem_filter.2 ⟨hm, decide_eq_true rfl⟩
  exact ⟨hash, hch, List.mem_map.1 ((h.rows _ _ hch).subset (List.mem_append_left _ hof))⟩

theorem Announced.title {s : SyncService.St} (h : Announced C s) :
    ∀ m ∈ s.sent, ∃ k, m.title = blockTitle k m.channelName := by
  intro m hm
  obtain ⟨-, -, row, -, hrow⟩ := h.row hm
  exact ⟨row.blocknum, by rw [← hrow]; rfl⟩

/-- No title is sent twice. -/
theorem Announced.nodup {s : SyncService.St} (hi : Inv C L s) (h : Announced C s) :
    (s.sent.map Notify.title).Nodup := by
  rw [List.nodup_iff_count_le_one]
  intro title
  by_cases hmem : title ∈ s.sent.map Notify.title
  · obtain ⟨m, hm, rfl⟩ := List.mem_map.1 hmem
    obtain ⟨k, hk⟩ := h.title m hm
    obtain ⟨-, hash, hch⟩ := h.known m hm
    obtain ⟨l, hperm, hsub⟩ := (List.sublist_append_left ..).subperm.trans (h.rows _ _ hch)
    have hle := (hsub.map Notify.title).count_le (blockTitle k m.channelName)
    have hone := List.nodup_iff_count_le_one.1 hi.stored.blocks (hash, k)
    rw [count_rowNotify, length_blockRows, (hperm.map Notify.title).count_eq] at hle
    rw [hk, count_title h.title]
    exact hle.trans hone
  · rw [List.count_eq_zero_of_not_mem hmem]
    exact Nat.zero_le 1

/-! ## What reaches the web clients -/

/-- A step that loses something. -/
def Ev.fails : Ev → Bool
  | .sync ev => ev.fails
  | _ => false

theorem sent_prefix {s s' : SyncService.St} {ev : SyncService.Ev} (hs : SyncService.step C L s ev = some s') :
    s.sent <+: s'.sent := by
  rcases step_cases hs with ⟨-, hm⟩ | ⟨hfails, -⟩
  · cases hm with
    | quiet hq => rw [hq.sent]
    | held _ _ _ _ _ _ hq => rw [hq.sent]
    | started _ _ _ _ _ _ _ _ _ hsent => rw [hsent]
    | resumed e rest hp hdb hr =>
      rw [hr.sent]
      exact List.prefix_append ..
  · rw [sent_of_fails hs hfails]

theorem read_blocks {ns : List Notify} (h : ∀ m ∈ ns, m.notifyType = "4") :
    (ns.map Message.block).filterMap processSyncMessage = ns.map webNotify := by
  rw [List.filterMap_map, ← List.filterMap_eq_map]
  exact List.filterMap_congr fun m hm => if_pos (h m hm)

/-- What one step sends, puts into the pipe and broadcasts. -/
theorem step_carried {s s' : St} {ev : Ev} (hs : step C L s ev = some s')
    (hknown : ∀ m ∈ s'.sync.sent, m.notifyType = "4") :
    ∃ ns new ms, s'.sync.sent = s.sync.sent ++ ns ∧ new.filterMap processSyncMessage = ns.map webNotify ∧
      Carried processSyncMessage new ms s.relay s'.relay ∧
      (ev.fails = false → CarriedAll processSyncMessage new ms s.relay s'.relay) := by
  have hnothing : ∀ {relay : Relay Message WebNotify} {ms : List WebNotify} {new : List Message},
      new.filterMap processSyncMessage = [] → CarriedAll processSyncMessage new ms s.relay relay →
      s'.sync.sent = s.sync.sent → s'.relay = relay →
      ∃ ns new ms, s'.sync.sent = s.sync.sent ++ ns ∧ new.filterMap processSyncMessage = ns.map webNotify ∧
        Carried processSyncMessage new ms s.relay s'.relay ∧
        (ev.fails = false → CarriedAll processSyncMessage new ms s.relay s'.relay) := by
    rintro relay ms new hread hcarried hsent rfl
    exact ⟨[], new, ms, by rw [hsent, List.append_nil], hread, hcarried.carried, fun _ => hcarried⟩
  cases ev with
  | sync ev =>
    obtain ⟨sync, hsync, rfl⟩ := Option.map_eq_some_iff.1 hs
    obtain ⟨ns, hns⟩ := sent_prefix hsync
    by_cases hcrash : ev = .crash
    · subst hcrash
      cases hsync
      exact ⟨[], [], [], (List.append_nil _).symm, rfl, carried_lose s.relay, nofun⟩
    · rw [if_neg hcrash] at hknown ⊢
      have hmessages : newMessages s.sync sync = ns.map .block := by
        rw [newMessages, ← hns, List.drop_left]
      refine ⟨ns, newMessages s.sync sync, [], hns.symm, ?_, (carriedAll_put _ _).carried,
        fun _ => carriedAll_put _ _⟩
      rw [hmessages]
      exact read_blocks fun m hm => hknown m (hns ▸ List.mem_append_right _ hm)
  | send notice channelName =>
    cases hs
    exact hnothing rfl (carriedAll_put _ _) rfl rfl
  | message =>
    rw [step] at hs
    split at hs
    · obtain ⟨relay, hrelay, rfl⟩ := Option.map_eq_some_iff.1 hs
      obtain ⟨ms, hms⟩ := carriedAll_take hrelay
      exact hnothing rfl hms rfl rfl
    · cases hs
  | connection =>
    rw [step] at hs
    split at hs
    · cases hs
      exact hnothing rfl (carriedAll_join _) rfl rfl
    · cases hs
  | close i =>
    cases hs
    exact hnothing rfl (carriedAll_leave i _) rfl rfl
  | stop =>
    cases hs
    exact hnothing rfl (carriedAll_closeAll _) rfl rfl

/-- What a run sends, puts into the pipe and broadcasts. -/
theorem run_carried {I : Db → Prop} {s s' : St} {evs : List Ev} (hr : (lts C L I).Run s evs s')
    (hknown : ∀ m ∈ s'.sync.sent, m.notifyType = "4") :
    ∃ ns new ms, s'.sync.sent = s.sync.sent ++ ns ∧ new.filterMap processSyncMessage = ns.map webNotify ∧
      Carried processSyncMessage new ms s.relay s'.relay ∧
      ((∀ ev ∈ evs, ev.fails = false) → CarriedAll processSyncMessage new ms s.relay s'.relay) := by
  induction hr with
  | nil s =>
    exact ⟨[], [], [], (List.append_nil _).symm, rfl, (carriedAll_refl _).carried, fun _ => carriedAll_refl _⟩
  | @cons s s₁ s' ev evs hs _ ih =>
    obtain ⟨ns', new', ms', hsent', hread', hcarried', hall'⟩ := ih hknown
    obtain ⟨ns, new, ms, hsent, hread, hcarried, hall⟩ := step_carried hs fun m hm =>
      hknown m (hsent' ▸ List.mem_append_left _ hm)
    refine ⟨ns ++ ns', new ++ new', ms ++ ms', ?_, ?_, hcarried.trans hcarried', fun hevs => ?_⟩
    · rw [hsent', hsent, List.append_assoc]
    · rw [List.filterMap_append, hread, hread', List.map_append]
    · rw [List.forall_mem_cons] at hevs
      exact (hall hevs.1).trans (hall' hevs.2)

/-- What a step of the sync process keeps, a step of both keeps. -/
theorem sync_step {J : SyncService.St → Prop} {s s' : St} {ev : Ev} (hs : step C L s ev = some s') (h : J s.sync)
    (hJ : ∀ sev sync, ev = .sync sev → SyncService.step C L s.sync sev = some sync → J sync) : J s'.sync := by
  cases ev with
  | sync ev =>
    obtain ⟨sync, hsync, rfl⟩ := Option.map_eq_some_iff.1 hs
    have h' := hJ ev sync rfl hsync
    by_cases hcrash : ev = .crash
    · rwa [if_pos hcrash]
    · rwa [if_neg hcrash]
  | send | close | stop =>
    cases hs
    exact h
  | message =>
    rw [step] at hs
    split at hs
    · obtain ⟨relay, -, rfl⟩ := Option.map_eq_some_iff.1 hs
      exact h
    · cases hs
  | connection =>
    rw [step] at hs
    split at hs
    · cases hs
      exact h
    · cases hs

theorem sync_inductive {I : Db → Prop} (hI : ∀ db, I db → Fresh C db) :
    (lts C L I).Inductive fun s => Inv C L s.sync ∧ Announced C s.sync where
  init := by
    rintro s ⟨db, hdb, rfl⟩
    exact (announced_inductive hI).init _ ⟨db, hdb, rfl⟩
  step _ _ _ h hs := sync_step hs h fun _ _ _ hsync => (announced_inductive hI).step _ _ _ h hsync

/-! ## At most once -/

variable (C) in
/-- Each notification is for a row that is stored, and tells what is in it; no
block is announced twice. -/
structure Truthful (db : Db) (received : List WebNotify) : Prop where
  stored : ∀ m ∈ received, ∃ channelName hash row, C.getChannelGenHash channelName = some hash ∧
    row ∈ blocksOf C.networkName db hash ∧ m = webNotify (rowNotify C channelName row)
  once : (received.map WebNotify.title).Nodup

/-- **At most once.** After any run, with its failures, crashes and restarts,
whenever a web client was connected: what it has received is for blocks that
are stored, and no block is announced to it twice. -/
theorem announced_at_most_once (s : St) (hr : (lts C L (Fresh C)).Reachable s) :
    ∀ c ∈ s.relay.subscribers, Truthful C s.sync.db c.received := by
  obtain ⟨hi, h⟩ := (sync_inductive fun _ hdb => hdb).reachable s hr
  obtain ⟨s₀, evs, ⟨db, -, rfl⟩, hrun⟩ := hr
  obtain ⟨ns, new, ms, hsent, hread, hcarried, -⟩ := run_carried hrun fun m hm => (h.known m hm).1
  intro c hc
  have hsub := (hcarried.received_sublist rfl rfl c hc).2
  have hns : ns = s.sync.sent := hsent.symm
  rw [hread, hns] at hsub
  constructor
  · intro m hm
    obtain ⟨notify, hnotify, rfl⟩ := List.mem_map.1 (hsub.subset hm)
    obtain ⟨hash, hch, row, hrow, hsame⟩ := h.row hnotify
    exact ⟨_, hash, row, hch, hrow, by rw [hsame]⟩
  · have htitles := hsub.map WebNotify.title
    rw [List.map_map] at htitles
    exact htitles.nodup (h.nodup hi)

/-- A web client hears of block 1; the process dies after that, the client
comes back, and the listener replays the block. -/
def replayed : List Ev :=
  .connection :: .sync (.blockEvent "mychannel" 1) :: List.replicate 13 (.sync (.run 0)) ++
    .message :: .sync .crash :: .connection :: .sync (.blockEvent "mychannel" 1) ::
      List.replicate 5 (.sync (.run 0))

theorem announced_at_most_once_replayed :
    ∃ s, LTS.exec (step mychannel ledgerOne) (start emptyChannel) replayed = some s ∧
      (s.relay.subscribers.map fun c => (c.isOpen, c.received.length)) = [(false, 1), (true, 0)] ∧
      ∀ c ∈ s.relay.subscribers, Truthful mychannel s.sync.db c.received := by
  have hexec : (LTS.exec (step mychannel ledgerOne) (start emptyChannel) replayed).map (fun s =>
      s.relay.subscribers.map fun c => (c.isOpen, c.received.length)) = some [(false, 1), (true, 0)] := by
    decide +kernel
  obtain ⟨s, hs, hclients⟩ := Option.map_eq_some_iff.1 hexec
  exact ⟨s, hs, hclients, announced_at_most_once s
    (LTS.reachable_of_exec ⟨_, ready_emptyChannel.fresh, rfl⟩ hs)⟩

/-! ## Exactly once -/

variable (C L) in
/-- The runs in which no statement fails and nothing is lost. -/
def attentive (hash : String) : LTS St Ev := (lts C L (Ready C hash)).restrict fun _ ev => ev.fails = false

/-- No `processBlockEvent` is running and the pipe is empty. -/
structure Resting (s : St) : Prop where
  execs : s.sync.execs = []
  pipe : s.relay.pipe = []

theorem attentive_inductive {channelName hash : String} (hch : C.getChannelGenHash channelName = some hash) :
    (attentive C L hash).Inductive fun s => Inv C L s.sync ∧ Exact C L channelName hash s.sync where
  init := by
    rintro s ⟨db, hdb, rfl⟩
    exact (exact_inductive hch).init _ ⟨db, hdb, rfl⟩
  step _ _ _ h hs := sync_step hs.2 h fun sev _ hev hsync =>
    (exact_inductive hch).step _ _ _ h ⟨(congrArg Ev.fails hev).symm.trans hs.1, hsync⟩

/-- At rest, what was sent for block `n` are its rows. -/
theorem Resting.count_title {channelName hash : String} {s : St} (hrest : Resting s)
    (h : Exact C L channelName hash s.sync)
    (htitle : ∀ m ∈ s.sync.sent, ∃ k, m.title = blockTitle k m.channelName) (n : Nat) : (s.sync.sent.map Notify.title).count (blockTitle n channelName) =
      (blockRows C.networkName s.sync.db hash n).length := by
  have hperm := h.notified
  rw [hrest.execs, List.flatMap_nil, List.append_nil] at hperm
  rw [Notifications.count_title htitle, ← (hperm.map Notify.title).count_eq, count_rowNotify]

/-- **Exactly once.** Between two moments of rest, in runs without a failing
statement: a web client that stayed connected has got one notification for
each block of the channel that was stored meanwhile, and none for another. -/
theorem announced_exactly_once (channelName hash : String) (hch : C.getChannelGenHash channelName = some hash)
    (s₁ s : St) (evs : List Ev) (hr₁ : (attentive C L hash).Reachable s₁) (hrest₁ : Resting s₁)
    (hrun : (attentive C L hash).Run s₁ evs s) (hrest : Resting s) (i : Nat) (c₁ c : Subscriber WebNotify)
    (hc₁ : s₁.relay.subscribers[i]? = some c₁) (hc : s.relay.subscribers[i]? = some c) (hopen : c.isOpen = true) :
    ∃ ms, c.received = c₁.received ++ ms ∧ ∀ n,
      (ms.map WebNotify.title).count (blockTitle n channelName) +
        (blockRows C.networkName s₁.sync.db hash n).length = (blockRows C.networkName s.sync.db hash n).length := by
  have hr : (attentive C L hash).Reachable s := by
    obtain ⟨s₀, evs₁, hs₀, hrun₁⟩ := hr₁
    exact ⟨s₀, evs₁ ++ evs, hs₀, hrun₁.append hrun⟩
  have hexact₁ := ((attentive_inductive hch).reachable s₁ hr₁).2
  have hexact := ((attentive_inductive hch).reachable s hr).2
  have hann₁ := (((sync_inductive fun _ hdb => hdb.fresh).restrict _).reachable s₁ hr₁).2
  have hann := (((sync_inductive fun _ hdb => hdb.fresh).restrict _).reachable s hr).2
  have hevs : ∀ ev ∈ evs, ev.fails = false := hrun.labels
  obtain ⟨ns, new, ms, hsent, hread, -, hall⟩ := run_carried hrun.of_restrict fun m hm => (hann.known m hm).1
  obtain ⟨hpipe, hheard⟩ := hall hevs
  rw [hrest₁.pipe, hrest.pipe, List.filterMap_nil, List.append_nil, List.nil_append, hread] at hpipe
  obtain ⟨c', hc', hheard⟩ := hheard.old i c₁ hc₁
  obtain rfl : c = c' := Option.some.inj (hc.symm.trans hc')
  refine ⟨ms, (hheard.still hopen).2, fun n => ?_⟩
  have hcount₁ := hrest₁.count_title hexact₁ hann₁.title n
  have hcount := hrest.count_title hexact hann.title n
  rw [hsent, List.map_append, List.count_append, hcount₁] at hcount
  rw [hpipe, List.map_map, Nat.add_comm]
  exact hcount

/-- A web client has come, and nothing is stored. -/
def firstClient : St := ⟨init emptyChannel, ⟨[], [.joined]⟩, true⟩

/-- Block 1 is stored, and the main process is told of it behind another
message. -/
def watched : List Ev :=
  .send .updateChannel "mychannel" :: .sync (.blockEvent "mychannel" 1) ::
    List.replicate 13 (.sync (.run 0)) ++ [.message, .message]

theorem announced_exactly_once_watched :
    ∃ s c, (attentive mychannel ledgerOne "genesis").Run firstClient watched s ∧
      s.relay.subscribers[0]? = some c ∧ c.received.length = 1 ∧
      ∀ n, (c.received.map WebNotify.title).count (blockTitle n "mychannel") =
        (blockRows "first-network" s.sync.db "genesis" n).length := by
  have hexec : (LTS.exec (LTS.guarded (fun _ ev => ev.fails = false) (step mychannel ledgerOne)) firstClient
      watched).map (fun s => (s.sync.execs, s.relay.pipe, (s.relay.subscribers.map fun c =>
        (c.isOpen, c.received.length)))) = some ([], [], [(true, 1)]) := by
    decide +kernel
  obtain ⟨s, hs, hfinal⟩ := Option.map_eq_some_iff.1 hexec
  simp only [Prod.mk.injEq] at hfinal
  obtain ⟨hidle, hpipe, hclients⟩ := hfinal
  obtain ⟨c, hc, hopen, hlen⟩ : ∃ c, s.relay.subscribers[0]? = some c ∧ c.isOpen = true ∧
      c.received.length = 1 := by
    have hfirst := congrArg (fun l => l[0]?) hclients
    rw [List.getElem?_map] at hfirst
    obtain ⟨c, hc, hpair⟩ := Option.map_eq_some_iff.1 hfirst
    rw [Prod.mk.injEq] at hpair
    exact ⟨c, hc, hpair⟩
  have hrun : (attentive mychannel ledgerOne "genesis").Run firstClient watched s := LTS.restrict_run_of_exec hs
  have hfirst : LTS.exec (LTS.guarded (fun _ ev => ev.fails = false) (step mychannel ledgerOne))
      (start emptyChannel) [.connection] = some firstClient := rfl
  have hr₁ : (attentive mychannel ledgerOne "genesis").Reachable firstClient :=
    LTS.restrict_reachable_of_exec ⟨_, ready_emptyChannel, rfl⟩ hfirst
  obtain ⟨ms, hms, hcount⟩ := announced_exactly_once "mychannel" "genesis" rfl firstClient s watched hr₁
    ⟨rfl, rfl⟩ hrun ⟨hidle, hpipe⟩ 0 .joined c rfl hc hopen
  refine ⟨s, c, hrun, hc, hlen, fun n => ?_⟩
  rw [hms]
  exact hcount n

end Explorer.Fabric.Notifications
