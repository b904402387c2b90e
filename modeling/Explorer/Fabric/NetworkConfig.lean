import Explorer.Fabric.SyncService
import Explorer.Fabric.Discovery

/-!
# `SyncServices.synchNetworkConfigToDB`

The sync process with everything that registers channels in it: the runs of
`synchNetworkConfigToDB`, which a timer starts every 30 seconds without
waiting for the one before, the runs of `insertFromDiscoveryResults` that
block processing starts ten seconds after a CONFIG block or an lscc
transaction, and block processing itself. `Network` is one run with the await
it stands at, `Network.resume` runs it to the next one.

The list of channels is the client's own: the loop over it sees the channels
that are added while it runs. What a peer answers is arbitrary, also when it
is asked twice. A rejected statement has taken effect or not. Channels are
also added by others (`addChannel`): when the client starts, by
`initializeChannelFromDiscover`, and for a block of a channel that is not
known, whose timer then ends at the undefined variable `channel`.

`insertNewChannel` sends a notification before it throws, and sets the genesis
hash of the client, which is fixed here (`getChannelGenHash`). The columns
`createdt` and `channel_hash` are left out.
-/
namespace Explorer.Fabric.NetworkConfig

/-! ## Channels -/

/-- mirrors app/persistence/fabric/CRUDService.js:178-183 -/
def getChannel (networkName channelname channelGenesisHash : String) (db : Db) : Option ChannelRow :=
  db.channel.find? fun r =>
    r.name = channelname ∧ r.channelGenesisHash = channelGenesisHash ∧ r.networkName = networkName

/-- mirrors app/persistence/fabric/CRUDService.js:191-196 -/
def existChannel (networkName channelname : String) (db : Db) : Nat :=
  db.channel.countP fun r => r.name = channelname ∧ r.networkName = networkName

/-- The awaits of `saveChannel`. -/
inductive SaveChannel where
  | count
  | insert
  | update
  deriving DecidableEq, Repr

/-- The statement awaited is executed.
mirrors app/persistence/fabric/CRUDService.js:364-394 -/
def SaveChannel.run (networkName : String) (channel : ChannelRow) (db : Db) :
    SaveChannel → Db × Option SaveChannel
  | .count =>
    let c := db.channel.countP fun r =>
      r.name = channel.name ∧ r.channelGenesisHash = channel.channelGenesisHash ∧
        r.networkName = networkName
    (db, some (if isValidRow c then .insert else .update))
  | .insert => ({ db with channel := db.channel ++ [{ channel with networkName := networkName }] }, none)
  | .update =>
    ({ db with channel := db.channel.map fun r =>
        if r.name = channel.name ∧ r.channelGenesisHash = channel.channelGenesisHash ∧
            r.networkName = networkName then
          { r with blocks := channel.blocks, trans := channel.trans }
        else r }, none)

/-! ## The process -/

/-- The awaits of `synchNetworkConfigToDB` and the functions it calls:
`initializeNewChannel` for the channels that are new, with those still to do,
then `insertNewChannel` and discovery for every channel. -/
inductive NetworkPc where
  | queryChannels
  | newGenesisBlock (channelName : String) (rest : List String)
  | newBlockHash (channelName : String) (rest : List String)
  | genesisBlock (channelName : String)
  | blockHash (channelName : String) (block : Block)
  | getChannel (channelName hash : String) (block : Block)
  | existChannel (channelName hash : String) (block : Block)
  | timeStamp (channelName hash : String)
  | saveChannel (channelName hash : String) (stmt : SaveChannel)
  | discovery (d : Discovery)
  deriving DecidableEq, Repr

/-- A run of `synchNetworkConfigToDB`; `next` is how far its loop over the
client's channels has come. -/
structure Network where
  next : Nat
  pc : NetworkPc
  deriving DecidableEq, Repr

inductive Task where
  | network (n : Network)
  | discovery (d : Discovery)
  deriving DecidableEq, Repr

structure St where
  sync : SyncService.St
  peer : List PeerRow
  peerRefChannel : List PeerRefChannelRow
  peerRefChaincode : List PeerRefChaincodeRow
  channels : List String
  tasks : List Task
  deriving DecidableEq, Repr

def St.db (s : St) : Db := s.sync.db

def St.withDb (s : St) (db : Db) : St := { s with sync := { s.sync with db := db } }

def St.catalogue (s : St) : Catalogue where
  peer := s.peer
  peerRefChannel := s.peerRefChannel
  chaincodes := s.db.chaincodes
  peerRefChaincode := s.peerRefChaincode

def St.withCatalogue (s : St) (c : Catalogue) : St :=
  { s.withDb { s.db with chaincodes := c.chaincodes } with
    peer := c.peer
    peerRefChannel := c.peerRefChannel
    peerRefChaincode := c.peerRefChaincode }

/-- The head of the loop over the client's channels.
mirrors app/platform/fabric/sync/SyncService.js:77-85,106 -/
def nextChannel (channels : List String) (next : Nat) : Outcome Network Bool :=
  match channels[next]? with
  | some channelName => .await ⟨next + 1, .genesisBlock channelName⟩
  | none => .done true

/-- The head of the loop over the channels that the peer answered.
mirrors app/platform/fabric/sync/SyncService.js:70-75 -/
def nextNewChannel (channels : List String) : List String → Outcome Network Bool
  | [] => nextChannel channels 0
  | channelName :: rest =>
    if channelName ∈ channels then nextNewChannel channels rest
    else .await ⟨0, .newGenesisBlock channelName rest⟩

variable (C : DiscoveryClient)

/-- The row that `insertNewChannel` saves. -/
def channelRow (channelName hash : String) : ChannelRow where
  name := channelName
  blocks := 0
  trans := 0
  channelGenesisHash := hash
  networkName := C.networkName

def discover (hash : String) : Discovery := ⟨hash, .initializeChannelFromDiscover⟩

/-- The await is over and the run goes on to its next one; `none` when the
reply is not one to this await.
mirrors app/platform/fabric/sync/SyncService.js:62-162,
app/platform/fabric/FabricClient.js:236-250 -/
def Network.resume (s : St) (n : Network) (reply : Reply) : Option (St × Outcome Network Bool) :=
  match n.pc, reply with
  | .queryChannels, .queryChannels none => some (s, .done false)
  | .queryChannels, .queryChannels (some channels) => some (s, nextNewChannel s.channels channels)
  | .newGenesisBlock channelName rest, .genesisBlock (some _) =>
    some (s, .await { n with pc := .newBlockHash channelName rest })
  -- `block.header` of null
  | .newGenesisBlock _ _, .genesisBlock none => some (s, .thrown)
  | .newBlockHash channelName rest, .executed =>
    let channels := s.channels ++ [channelName]
    some ({ s with channels := channels }, nextNewChannel channels rest)
  | .genesisBlock channelName, .genesisBlock (some block) =>
    some (s, .await { n with pc := .blockHash channelName block })
  | .genesisBlock _, .genesisBlock none => some (s, .thrown)
  | .blockHash channelName block, .executed =>
    some (s, .await { n with pc := .getChannel channelName (C.sdk.generateBlockHash block.header) block })
  | .getChannel channelName hash block, .executed =>
    match getChannel C.networkName channelName hash s.db with
    | some _ => some (s, .await { n with pc := .discovery (discover hash) })
    | none => some (s, .await { n with pc := .existChannel channelName hash block })
  | .existChannel channelName hash block, .executed =>
    if existChannel C.networkName channelName s.db = 0 then
      match block.data with
      | _ :: _ => some (s, .await { n with pc := .timeStamp channelName hash })
      | [] => some (s, .await { n with pc := .discovery (discover hash) })
    else some (s, .thrown)
  | .timeStamp channelName hash, .executed =>
    some (s, .await { n with pc := .saveChannel channelName hash .count })
  | .saveChannel channelName hash stmt, .executed =>
    match stmt.run C.networkName (channelRow C channelName hash) s.db with
    | (db, some stmt) => some (s.withDb db, .await { n with pc := .saveChannel channelName hash stmt })
    | (db, none) => some (s.withDb db, .await { n with pc := .discovery (discover hash) })
  | .discovery d, reply =>
    match d.resume C s.catalogue reply with
    | some (c, .await d) => some (s.withCatalogue c, .await { n with pc := .discovery d })
    | some (c, .done _) => some (s.withCatalogue c, nextChannel s.channels n.next)
    | some (c, .thrown) => some (s.withCatalogue c, .thrown)
    | none => none
  | _, _ => none

/-- The task goes on; nobody awaits its result. -/
def Task.resume (s : St) (reply : Reply) : Task → Option (St × List Task)
  | .network n => (n.resume C s reply).map fun (s, o) => (s, o.execs.map .network)
  | .discovery d =>
    (d.resume C s.catalogue reply).map fun (c, o) => (s.withCatalogue c, o.execs.map .discovery)

/-- The effect of the statement that is awaited. -/
def Discovery.write (c : Catalogue) (d : Discovery) : Catalogue :=
  match d.pc with
  | .insertPeers _ save stmt _ | .insertChaincodes save stmt _ => (save.run C.networkName c stmt).1
  | _ => c

def Network.write (s : St) (n : Network) : St :=
  match n.pc with
  | .saveChannel channelName hash stmt =>
    s.withDb (stmt.run C.networkName (channelRow C channelName hash) s.db).1
  | .discovery d => s.withCatalogue (Discovery.write C s.catalogue d)
  | _ => s

def Task.write (s : St) : Task → St
  | .network n => n.write C s
  | .discovery d => s.withCatalogue (Discovery.write C s.catalogue d)

/-- `reply i r`: what task `i` awaits is over. `fail i took`: it is rejected,
having taken effect or not. `process` is a step of block processing. -/
inductive Ev where
  | timer
  | discover (channelGenesisHash : String)
  | addChannel (channelName : String)
  | reply (i : Nat) (r : Reply)
  | fail (i : Nat) (took : Bool)
  | process (ev : SyncService.Ev)
  deriving DecidableEq, Repr

variable (L : SyncService.Ledger)

/-- Discovery is a task here, so block processing does not stand in for it.
mirrors app/platform/fabric/sync/SyncPlatform.js:108-117 -/
def step (s : St) : Ev → Option St
  | .timer => some { s with tasks := s.tasks ++ [.network ⟨0, .queryChannels⟩] }
  | .discover channelGenesisHash =>
    some { s with tasks := s.tasks ++ [.discovery (NetworkConfig.discover channelGenesisHash)] }
  | .addChannel channelName => some { s with channels := s.channels ++ [channelName] }
  | .reply i r =>
    match s.tasks[i]? with
    | some t =>
      (t.resume C s r).map fun (s', ts) => { s' with tasks := s.tasks.eraseIdx i ++ ts }
    | none => none
  | .fail i took =>
    match s.tasks[i]? with
    | some t => some { (if took then t.write C s else s) with tasks := s.tasks.eraseIdx i }
    | none => none
  | .process (.discovered _) => none
  | .process .crash =>
    (SyncService.step C.toClient L s.sync .crash).map fun sync =>
      { s with sync := sync, channels := [], tasks := [] }
  | .process ev => (SyncService.step C.toClient L s.sync ev).map fun sync => { s with sync := sync }

def lts (start : St → Prop) : LTS St Ev := LTS.ofFn start (step C L)

/-- A process that has just been started, on what the tables hold. -/
def St.init (db : Db) (c : Catalogue) : St :=
  { sync := SyncService.init { db with chaincodes := c.chaincodes }
    peer := c.peer
    peerRefChannel := c.peerRefChannel
    peerRefChaincode := c.peerRefChaincode
    channels := []
    tasks := [] }

/-! ## What a step writes -/

/-- The task whose statement takes effect. -/
def writer (s : St) : Ev → Option Task
  | .reply i .executed | .fail i true => s.tasks[i]?
  | _ => none

variable {C} {L}

@[simp] theorem db_withDb (s : St) (db : Db) : (s.withDb db).db = db := rfl
@[simp] theorem db_withCatalogue (s : St) (c : Catalogue) :
    (s.withCatalogue c).db = { s.db with chaincodes := c.chaincodes } := rfl
@[simp] theorem catalogue_withDb (s : St) (db : Db) :
    (s.withDb db).catalogue = { s.catalogue with chaincodes := db.chaincodes } := rfl
@[simp] theorem catalogue_withCatalogue (s : St) (c : Catalogue) : (s.withCatalogue c).catalogue = c := rfl

/-- The same tables. -/
structure Same (s s' : St) : Prop where
  db : s'.db = s.db
  catalogue : s'.catalogue = s.catalogue

theorem Same.refl (s : St) : Same s s := ⟨rfl, rfl⟩

theorem resume_discovery {d : Discovery} {c c' : Catalogue} {reply : Reply} {o : Outcome Discovery Unit}
    (h : d.resume C c reply = some (c', o)) :
    c' = if reply = .executed then Discovery.write C c d else c := by
  unfold Discovery.resume at h
  unfold Discovery.write
  split at h
  · rename_i hpc _
    cases h
    rfl
  · rename_i save stmt rest hpc
    rw [hpc, if_pos rfl]
    split at h
    · rename_i hrun
      cases h
      exact (congrArg Prod.fst hrun).symm
    · rename_i hrun
      cases h
      exact (congrArg Prod.fst hrun).symm
  · cases h
    rfl
  · rename_i save stmt rest hpc
    rw [hpc, if_pos rfl]
    split at h
    · rename_i hrun
      cases h
      exact (congrArg Prod.fst hrun).symm
    · rename_i hrun
      cases h
      exact (congrArg Prod.fst hrun).symm
  · cases h

theorem resume_network {n : Network} {s s' : St} {reply : Reply} {o : Outcome Network Bool}
    (h : n.resume C s reply = some (s', o)) :
    Same (if reply = .executed then n.write C s else s) s' := by
  obtain ⟨next, pc⟩ := n
  cases pc with
  | queryChannels =>
    cases reply with
    | queryChannels channels =>
      cases channels <;> cases h <;> exact Same.refl s
    | executed | genesisBlock | discovered | instantiated => cases h
  | newGenesisBlock channelName rest | genesisBlock channelName =>
    cases reply with
    | genesisBlock block => cases block <;> cases h <;> exact Same.refl s
    | executed | queryChannels | discovered | instantiated => cases h
  | newBlockHash channelName rest =>
    cases reply with
    | executed =>
      cases h
      exact ⟨rfl, rfl⟩
    | queryChannels | genesisBlock | discovered | instantiated => cases h
  | blockHash channelName block | timeStamp channelName hash =>
    cases reply with
    | executed =>
      cases h
      exact Same.refl s
    | queryChannels | genesisBlock | discovered | instantiated => cases h
  | getChannel channelName hash block =>
    cases reply with
    | executed =>
      simp only [Network.resume] at h
      split at h <;> cases h <;> exact Same.refl s
    | queryChannels | genesisBlock | discovered | instantiated => cases h
  | existChannel channelName hash block =>
    cases reply with
    | executed =>
      simp only [Network.resume] at h
      split at h
      · split at h <;> cases h <;> exact Same.refl s
      · cases h
        exact Same.refl s
    | queryChannels | genesisBlock | discovered | instantiated => cases h
  | saveChannel channelName hash stmt =>
    cases reply with
    | executed =>
      simp only [Network.resume] at h
      simp only [if_true, Network.write]
      split at h <;> rename_i hrun <;> cases h <;> rw [hrun] <;> exact Same.refl _
    | queryChannels | genesisBlock | discovered | instantiated => cases h
  | discovery d =>
    simp only [Network.resume] at h
    cases hd : d.resume C s.catalogue reply with
    | none =>
      rw [hd] at h
      cases h
    | some r =>
      obtain ⟨c, o⟩ := r
      have hsame : Same (if reply = .executed then Network.write C s ⟨next, .discovery d⟩ else s)
          (s.withCatalogue c) := by
        rw [resume_discovery hd]
        split <;> exact Same.refl _
      rw [hd] at h
      cases o <;> cases h <;> exact hsame

theorem resume_task {t : Task} {s s' : St} {reply : Reply} {ts : List Task}
    (h : t.resume C s reply = some (s', ts)) :
    Same (if reply = .executed then t.write C s else s) s' := by
  cases t with
  | network n =>
    obtain ⟨⟨s₁, o⟩, hn, heq⟩ := Option.map_eq_some_iff.1 h
    cases heq
    exact resume_network hn
  | discovery d =>
    obtain ⟨⟨c, o⟩, hd, heq⟩ := Option.map_eq_some_iff.1 h
    cases heq
    rw [resume_discovery hd]
    split <;> exact Same.refl _

/-- What block processing does: one execution goes on, and a crash ends the
tasks. -/
structure Processed (C : DiscoveryClient) (s s' : St) : Prop where
  db : s'.db = s.db ∨ ∃ e : SyncService.Exec, s'.db = (e.resume C.toClient s.db).1
  tasks : s'.tasks = s.tasks ∨ s'.tasks = []
  peer : s'.peer = s.peer
  peerRefChannel : s'.peerRefChannel = s.peerRefChannel
  peerRefChaincode : s'.peerRefChaincode = s.peerRefChaincode

theorem processed {s s' : St} {ev : SyncService.Ev} (hs : step C L s (.process ev) = some s') :
    Processed C s s' := by
  cases ev with
  | discovered row => cases hs
  | crash =>
    simp only [step] at hs
    obtain ⟨sync, hsync, rfl⟩ := Option.map_eq_some_iff.1 hs
    exact ⟨SyncService.step_db hsync (by simp), .inr rfl, rfl, rfl, rfl⟩
  | blockEvent | synchBlocks | chainInfo | queryBlock | run | fail =>
    simp only [step] at hs
    obtain ⟨sync, hsync, rfl⟩ := Option.map_eq_some_iff.1 hs
    exact ⟨SyncService.step_db hsync (by simp), .inl rfl, rfl, rfl, rfl⟩

theorem step_cases {s s' : St} {ev : Ev} (hs : step C L s ev = some s') :
    (∃ t, writer s ev = some t ∧ Same (t.write C s) s') ∨
      (writer s ev = none ∧ Same s s') ∨ (writer s ev = none ∧ Processed C s s') := by
  cases ev with
  | timer =>
    cases hs
    exact .inr (.inl ⟨rfl, rfl, rfl⟩)
  | discover channelGenesisHash =>
    cases hs
    exact .inr (.inl ⟨rfl, rfl, rfl⟩)
  | addChannel channelName =>
    cases hs
    exact .inr (.inl ⟨rfl, rfl, rfl⟩)
  | reply i r =>
    simp only [step] at hs
    split at hs
    · rename_i t ht
      obtain ⟨⟨s₁, ts⟩, hr, rfl⟩ := Option.map_eq_some_iff.1 hs
      have hsame := resume_task hr
      by_cases hreply : r = .executed
      · subst hreply
        rw [if_pos rfl] at hsame
        exact .inl ⟨t, ht, hsame.db, hsame.catalogue⟩
      · rw [if_neg hreply] at hsame
        refine .inr (.inl ⟨?_, hsame.db, hsame.catalogue⟩)
        cases r <;> first | rfl | exact absurd rfl hreply
    · cases hs
  | fail i took =>
    simp only [step] at hs
    split at hs
    · rename_i t ht
      cases hs
      cases took with
      | true => exact .inl ⟨t, ht, rfl, rfl⟩
      | false => exact .inr (.inl ⟨rfl, rfl, rfl⟩)
    · cases hs
  | process ev => exact .inr (.inr ⟨rfl, processed hs⟩)

theorem mem_of_writer {s : St} {ev : Ev} {t : Task} (h : writer s ev = some t) : t ∈ s.tasks := by
  unfold writer at h
  split at h
  · exact List.mem_of_getElem? h
  · exact List.mem_of_getElem? h
  · cases h

/-! ## Runs that do not overlap -/

/-- A run starts when no other is under way. -/
def alone (s : St) : Ev → Bool
  | .timer | .discover _ => s.tasks = []
  | _ => true

/-- At most one run, and it knows `I` about the tables. -/
structure Alone (I : St → Task → Prop) (s : St) : Prop where
  length : s.tasks.length ≤ 1
  knows : ∀ t ∈ s.tasks, I s t

/-- What the one run knows when it starts, learns when it goes on, and still
knows when only block processing has written. -/
structure Knowledge (C : DiscoveryClient) (I : St → Task → Prop) : Prop where
  timer : ∀ s, I s (.network ⟨0, .queryChannels⟩)
  discover : ∀ s hash, I s (.discovery (discover hash))
  same : ∀ s s' t, Same s s' → I s t → I s' t
  processed : ∀ s s' t, Processed C s s' → I s t → I s' t
  resume : ∀ s s' t r ts, I s t → t.resume C s r = some (s', ts) → ∀ t' ∈ ts, I s' t'

theorem length_resume {t : Task} {s s' : St} {r : Reply} {ts : List Task}
    (h : t.resume C s r = some (s', ts)) : ts.length ≤ 1 := by
  have hexecs : ∀ {P R : Type} (o : Outcome P R), o.execs.length ≤ 1 := by
    intro P R o
    cases o <;> simp [Outcome.execs]
  cases t with
  | network n =>
    obtain ⟨⟨s₁, o⟩, -, heq⟩ := Option.map_eq_some_iff.1 h
    cases heq
    simpa using hexecs o
  | discovery d =>
    obtain ⟨⟨c, o⟩, -, heq⟩ := Option.map_eq_some_iff.1 h
    cases heq
    simpa using hexecs o

/-- With one task there is nothing left when it is taken out. -/
theorem eraseIdx_eq_nil {tasks : List Task} {i : Nat} {t : Task} (hlen : tasks.length ≤ 1)
    (h : tasks[i]? = some t) : tasks = [t] ∧ tasks.eraseIdx i = [] := by
  obtain ⟨hi, rfl⟩ := List.getElem?_eq_some_iff.1 h
  obtain ⟨x, rfl⟩ : ∃ x, tasks = [x] := List.length_eq_one_iff.1 (by omega)
  obtain rfl : i = 0 := by simpa using hi
  exact ⟨rfl, rfl⟩

theorem alone_step {I : St → Task → Prop} (hI : Knowledge C I) {s s' : St} {ev : Ev} (h : Alone I s)
    (ha : alone s ev = true) (hs : step C L s ev = some s') : Alone I s' := by
  cases ev with
  | timer =>
    cases hs
    have hidle : s.tasks = [] := by simpa [alone] using ha
    refine ⟨by simp [hidle], fun t ht => ?_⟩
    obtain rfl : t = .network ⟨0, .queryChannels⟩ := by simpa [hidle] using ht
    exact hI.timer _
  | discover channelGenesisHash =>
    cases hs
    have hidle : s.tasks = [] := by simpa [alone] using ha
    refine ⟨by simp [hidle], fun t ht => ?_⟩
    obtain rfl : t = .discovery (NetworkConfig.discover channelGenesisHash) := by simpa [hidle] using ht
    exact hI.discover _ _
  | addChannel channelName =>
    cases hs
    exact ⟨h.length, fun t ht => hI.same s _ t ⟨rfl, rfl⟩ (h.knows t ht)⟩
  | reply i r =>
    simp only [step] at hs
    split at hs
    · rename_i t ht
      obtain ⟨htasks, hrest⟩ := eraseIdx_eq_nil h.length ht
      obtain ⟨⟨s₁, ts⟩, hr, rfl⟩ := Option.map_eq_some_iff.1 hs
      rw [hrest, List.nil_append]
      refine ⟨length_resume hr, fun t' ht' => ?_⟩
      have ht₁ : I s₁ t' := hI.resume s s₁ t r ts (h.knows t (by simp [htasks])) hr t' ht'
      exact hI.same s₁ _ t' ⟨rfl, rfl⟩ ht₁
    · cases hs
  | fail i took =>
    simp only [step] at hs
    split at hs
    · rename_i t ht
      obtain ⟨htasks, hrest⟩ := eraseIdx_eq_nil h.length ht
      cases hs
      rw [hrest]
      exact ⟨by simp, by simp⟩
    · cases hs
  | process ev =>
    have hprocess := processed hs
    obtain htasks | htasks := hprocess.tasks
    · refine ⟨htasks ▸ h.length, fun t ht => ?_⟩
      exact hI.processed s s' t hprocess (h.knows t (htasks ▸ ht))
    · exact ⟨by simp [htasks], by simp [htasks]⟩

theorem alone_init {I : St → Task → Prop} (db : Db) (c : Catalogue) : Alone I (St.init db c) :=
  ⟨by simp [St.init], by simp [St.init]⟩

/-! ## A client, for closed runs -/

/-- A client without peers in its configuration. -/
def networkClient : DiscoveryClient where
  toClient := SyncService.mychannel
  peers _ := none
  tls := false

def emptyDb : Db := ⟨[], [], [], []⟩
def emptyCatalogue : Catalogue := ⟨[], [], [], []⟩

end Explorer.Fabric.NetworkConfig
