import Mathlib.Data.List.Nodup
import Explorer.Core.LTS

/-!
# The channels of a `FabricClient`

`channels` is an array, `channelsGenHash` a map, and only the completion of
`initializeNewChannel` adds to them, to both at once. Whether the channel is
known is asked before its genesis block is queried, or not at all.

`Task` is a call with the await it stands at; those that a notification starts
are awaited by nobody. A call that throws ends its callers, except in the loop
of `initialize`, which catches. The detached client, the discovery results and
what `synchNetworkConfigToDB` stores are left out.

* `known_step`: which steps keep the two the same, without duplicates.
* `channels_known_iff`: the outcome, for every order of the completions.
-/
namespace Explorer.Fabric.ClientChannels

/-! ## The client -/

structure FabricClient where
  channels : List String
  channelsGenHash : List (String × String)
  deriving DecidableEq, Repr

/-- `Map.set`: a key that is there keeps its place. -/
def set (m : List (String × String)) (key value : String) : List (String × String) :=
  if key ∈ m.map Prod.fst then m.map fun p => if p.1 = key then (key, value) else p else m ++ [(key, value)]

/-- mirrors app/platform/fabric/FabricClient.js:487-489 -/
def FabricClient.addChannel (c : FabricClient) (channelName : String) : FabricClient :=
  { c with channels := c.channels ++ [channelName] }

/-- mirrors app/platform/fabric/FabricClient.js:509-511 -/
def FabricClient.setChannelGenHash (c : FabricClient) (name channelGenesisHash : String) : FabricClient :=
  { c with channelsGenHash := set c.channelsGenHash name channelGenesisHash }

/-! ## Calls -/

/-- Who awaits `initializeChannelFromDiscover`: nobody, or the loop of
`synchNetworkConfigToDB` with the next index. -/
inductive DiscoverCaller where
  | nobody
  | synch (next : Nat)
  deriving DecidableEq, Repr

/-- Who awaits `initializeNewChannel`, with the names still to do. -/
inductive Caller where
  | nobody
  | initializeClient (rest : List String)
  | discover (caller : DiscoverCaller)
  | synch (rest : List String)
  deriving DecidableEq, Repr

/-- The awaits: of `initialize`, `initializeNewChannel`,
`initializeChannelFromDiscover` and `synchNetworkConfigToDB`. -/
inductive Task where
  | initializeClient
  | genesisBlock (channelName : String) (caller : Caller)
  | blockHash (channelName : String) (caller : Caller)
  | discoveryResult (caller : DiscoverCaller)
  | synchQuery
  | synchGenesisBlock (channelName : String) (next : Nat)
  | synchBlockHash (channelName : String) (next : Nat)
  | insertNewChannel (channelName : String) (next : Nat)
  | insertFromDiscoveryResults (next : Nat)
  deriving DecidableEq, Repr

/-- `queryChannels` and `genesisBlock` can answer null. -/
inductive Reply where
  | queryChannels (channels : Option (List String))
  | genesisBlock (found : Bool)
  | blockHash (channelGenesisHash : String)
  | done
  | rejected
  deriving DecidableEq, Repr

/-- The loop of `initialize`: every channel, known or not.
mirrors app/platform/fabric/FabricClient.js:112-121 -/
def nextInitialize : List String → List Task
  | [] => []
  | channelName :: rest => [.genesisBlock channelName (.initializeClient rest)]

/-- The loop over the array of channels, which may grow meanwhile.
mirrors app/platform/fabric/sync/SyncService.js:77-89 -/
def nextChannel (c : FabricClient) (next : Nat) : List Task :=
  match c.channels[next]? with
  | some channelName => [.synchGenesisBlock channelName (next + 1)]
  | none => []

/-- mirrors app/platform/fabric/sync/SyncService.js:70-75 -/
def nextNewChannel (c : FabricClient) : List String → List Task
  | [] => nextChannel c 0
  | channelName :: rest =>
    if channelName ∈ c.channels then nextNewChannel c rest else [.genesisBlock channelName (.synch rest)]

/-- mirrors app/platform/fabric/FabricClient.js:259-280 -/
def initializeChannelFromDiscover (c : FabricClient) (channelName : String) (caller : DiscoverCaller) :
    List Task :=
  if channelName ∈ c.channels then [.discoveryResult caller] else [.genesisBlock channelName (.discover caller)]

/-- `initializeNewChannel` has returned. -/
def Caller.returned (c : FabricClient) : Caller → List Task
  | .nobody => []
  | .initializeClient rest => nextInitialize rest
  | .discover caller => [.discoveryResult caller]
  | .synch rest => nextNewChannel c rest

/-- `initializeNewChannel` has thrown. -/
def Caller.thrown : Caller → List Task
  | .initializeClient rest => nextInitialize rest
  | .nobody | .discover _ | .synch _ => []

/-- The await is over and the call runs to its next one; `none` when the reply
is not one to this await.
mirrors app/platform/fabric/FabricClient.js:97-127,236-280,
app/platform/fabric/sync/SyncService.js:62-107 -/
def Task.resume (c : FabricClient) : Task → Reply → Option (FabricClient × List Task)
  | .initializeClient, .queryChannels (some channels) => some (c, nextInitialize channels)
  | .initializeClient, .queryChannels none => some (c, [])
  | .genesisBlock channelName caller, .genesisBlock true => some (c, [.blockHash channelName caller])
  -- `block.header` of null
  | .genesisBlock _ caller, .genesisBlock false => some (c, caller.thrown)
  | .blockHash channelName caller, .blockHash channelGenesisHash =>
    let c := (c.setChannelGenHash channelName channelGenesisHash).addChannel channelName
    some (c, caller.returned c)
  | .discoveryResult .nobody, .done => some (c, [])
  | .discoveryResult (.synch next), .done => some (c, [.insertFromDiscoveryResults next])
  | .synchQuery, .queryChannels (some channels) => some (c, nextNewChannel c channels)
  | .synchQuery, .queryChannels none => some (c, [])
  | .synchGenesisBlock channelName next, .genesisBlock true => some (c, [.synchBlockHash channelName next])
  | .synchGenesisBlock _ _, .genesisBlock false => some (c, [])
  | .synchBlockHash channelName next, .blockHash channelGenesisHash =>
    some (c.setChannelGenHash channelName channelGenesisHash, [.insertNewChannel channelName next])
  | .insertNewChannel channelName next, .done =>
    some (c, initializeChannelFromDiscover c channelName (.synch next))
  | .insertFromDiscoveryResults next, .done => some (c, nextChannel c next)
  | .genesisBlock _ caller, .rejected | .blockHash _ caller, .rejected => some (c, caller.thrown)
  | _, .rejected => some (c, [])
  | _, _ => none

/-! ## The process -/

structure Message where
  notifyType : String
  networkName : String
  clientName : String
  channelName : String
  deriving DecidableEq, Repr

/-- The calls that a message from the sync process starts.
mirrors app/platform/fabric/Proxy.js:322-359 -/
def processSyncMessage (c : FabricClient) (msg : Message) : List Task :=
  if msg.networkName = "" ∨ msg.clientName = "" ∨ msg.channelName = "" then []
  else if msg.notifyType = "1" then [.genesisBlock msg.channelName .nobody]
  else if msg.notifyType = "2" ∨ msg.notifyType = "3" then
    initializeChannelFromDiscover c msg.channelName .nobody
  else []

structure St where
  client : FabricClient
  tasks : List Task
  deriving DecidableEq, Repr

/-- `reply i r`: what task `i` awaits is over. -/
inductive Ev where
  | initializeClient
  | initializeNewChannel (channelName : String)
  | initializeChannelFromDiscover (channelName : String)
  | message (msg : Message)
  | synchNetworkConfigToDB
  | reply (i : Nat) (r : Reply)
  deriving DecidableEq, Repr

def St.start (s : St) (ts : List Task) : St := { s with tasks := s.tasks ++ ts }

def step (s : St) : Ev → Option St
  | .initializeClient => some (s.start [.initializeClient])
  | .initializeNewChannel channelName => some (s.start [.genesisBlock channelName .nobody])
  | .initializeChannelFromDiscover channelName =>
    some (s.start (ClientChannels.initializeChannelFromDiscover s.client channelName .nobody))
  | .message msg => some (s.start (processSyncMessage s.client msg))
  | .synchNetworkConfigToDB => some (s.start [.synchQuery])
  | .reply i r =>
    match s.tasks[i]? with
    | some t => (t.resume s.client r).map fun (c, ts) => ⟨c, s.tasks.eraseIdx i ++ ts⟩
    | none => none

def init : St := ⟨⟨[], []⟩, []⟩

def lts : LTS St Ev := LTS.ofFn (· = init) step

/-! ## Known once -/

/-- No channel twice, and the channels are the keys of the map. -/
structure Known (c : FabricClient) : Prop where
  nodup : c.channels.Nodup
  keys : ∀ channelName, channelName ∈ c.channels ↔ channelName ∈ c.channelsGenHash.map Prod.fst

/-- The channel that a resumed task adds. -/
def Task.adds : Task → Reply → Option String
  | .blockHash channelName _, .blockHash _ => some channelName
  | _, _ => none

def adds (s : St) : Ev → Option String
  | .reply i r => s.tasks[i]?.bind fun t => t.adds r
  | _ => none

/-- An `initializeNewChannel` that completes is for a channel that is not
known yet. -/
def AddsNew (s : St) (ev : Ev) : Prop := ∀ channelName ∈ adds s ev, channelName ∉ s.client.channels

instance decidableAddsNew (s : St) (ev : Ev) : Decidable (AddsNew s ev) :=
  inferInstanceAs (Decidable (∀ channelName ∈ adds s ev, channelName ∉ s.client.channels))

theorem mem_keys_set {m : List (String × String)} {key value name : String} :
    name ∈ (set m key value).map Prod.fst ↔ name ∈ m.map Prod.fst ∨ name = key := by
  unfold set
  split
  · rename_i hkey
    have hsame : (m.map fun p => if p.1 = key then (key, value) else p).map Prod.fst = m.map Prod.fst := by
      rw [List.map_map]
      refine List.map_congr_left fun p _ => ?_
      by_cases hp : p.1 = key <;> simp [hp]
    rw [hsame]
    exact ⟨.inl, fun h => h.elim id fun h => h ▸ hkey⟩
  · rw [List.map_append, List.mem_append, List.map_singleton, List.mem_singleton]

/-- Setting the hash of a channel that is known. -/
theorem Known.set {c : FabricClient} (h : Known c) {channelName : String} (hmem : channelName ∈ c.channels)
    (hash : String) : Known (c.setChannelGenHash channelName hash) := by
  refine ⟨h.nodup, fun name => ?_⟩
  rw [FabricClient.setChannelGenHash, mem_keys_set, ← h.keys]
  exact ⟨.inl, fun h => h.elim id fun h => h ▸ hmem⟩

/-- Adding a channel, to both at once. -/
theorem Known.add_iff {c : FabricClient} (h : Known c) (channelName hash : String) :
    Known ((c.setChannelGenHash channelName hash).addChannel channelName) ↔ channelName ∉ c.channels := by
  constructor
  · rintro ⟨hnodup, -⟩ hmem
    exact (List.nodup_append.1 hnodup).2.2 _ hmem _ (List.mem_singleton_self _) rfl
  · intro hnew
    refine ⟨?_, fun name => ?_⟩
    · exact List.Nodup.append h.nodup (List.nodup_singleton _) (List.disjoint_singleton.2 hnew)
    · show name ∈ c.channels ++ [channelName] ↔ name ∈ (ClientChannels.set c.channelsGenHash channelName hash).map _
      rw [mem_keys_set, List.mem_append, List.mem_singleton, h.keys]

/-! ## Steps -/

/-- A run of `synchNetworkConfigToDB` sets hashes of known channels only. -/
def Task.Knows (c : FabricClient) : Task → Prop
  | .synchGenesisBlock channelName _ | .synchBlockHash channelName _ => channelName ∈ c.channels
  | _ => True

def Informed (s : St) : Prop := ∀ t ∈ s.tasks, t.Knows s.client

/-- What a resumed task does to the client. -/
inductive Change (c c' : FabricClient) (t : Task) (r : Reply) : Prop where
  | same (hr : t.adds r = none) (h : c' = c)
  | set (channelName hash : String) (next : Nat) (ht : t = .synchBlockHash channelName next)
      (h : c' = c.setChannelGenHash channelName hash)
  | add (channelName hash : String) (caller : Caller) (ht : t = .blockHash channelName caller)
      (hr : r = .blockHash hash) (h : c' = (c.setChannelGenHash channelName hash).addChannel channelName)

theorem adds_rejected (t : Task) : t.adds .rejected = none := by cases t <;> rfl

theorem change_resume {c c' : FabricClient} {t : Task} {r : Reply} {ts : List Task}
    (h : t.resume c r = some (c', ts)) : Change c c' t r := by
  unfold Task.resume at h
  split at h <;> cases h
  all_goals first
    | exact .same rfl rfl
    | exact .same (adds_rejected _) rfl
    | exact .add _ _ _ rfl rfl rfl
    | exact .set _ _ _ rfl rfl

theorem Change.subset {c c' : FabricClient} {t : Task} {r : Reply} (h : Change c c' t r) :
    ∀ channelName ∈ c.channels, channelName ∈ c'.channels := by
  intro channelName hmem
  cases h with
  | same _ h => exact h ▸ hmem
  | set name hash next ht h => exact h ▸ hmem
  | add name hash caller ht hr h =>
    rw [h]
    exact List.mem_append_left _ hmem

theorem Task.Knows.mono {c c' : FabricClient} (h : ∀ channelName ∈ c.channels, channelName ∈ c'.channels)
    {t : Task} (ht : t.Knows c) : t.Knows c' := by
  unfold Task.Knows at ht ⊢
  split <;> first | exact h _ ht | trivial

theorem knows_nextChannel (c : FabricClient) (next : Nat) : ∀ t ∈ nextChannel c next, t.Knows c := by
  intro t ht
  unfold nextChannel at ht
  split at ht
  · rename_i channelName hget
    rw [List.mem_singleton.1 ht]
    exact List.mem_of_getElem? hget
  · cases ht

theorem knows_nextNewChannel (c : FabricClient) (names : List String) :
    ∀ t ∈ nextNewChannel c names, t.Knows c := by
  induction names with
  | nil => exact knows_nextChannel c 0
  | cons channelName rest ih =>
    unfold nextNewChannel
    split
    · exact ih
    · intro t ht
      rw [List.mem_singleton.1 ht]
      trivial

theorem knows_nextInitialize (c : FabricClient) (names : List String) :
    ∀ t ∈ nextInitialize names, t.Knows c := by
  intro t ht
  cases names with
  | nil => cases ht
  | cons channelName rest =>
    rw [List.mem_singleton.1 ht]
    trivial

theorem knows_fromDiscover (c : FabricClient) (channelName : String) (caller : DiscoverCaller) :
    ∀ t ∈ initializeChannelFromDiscover c channelName caller, t.Knows c := by
  intro t ht
  unfold initializeChannelFromDiscover at ht
  split at ht <;> rw [List.mem_singleton.1 ht] <;> trivial

theorem knows_returned (c : FabricClient) (caller : Caller) : ∀ t ∈ caller.returned c, t.Knows c := by
  cases caller with
  | nobody => exact fun t ht => by cases ht
  | initializeClient rest => exact knows_nextInitialize c rest
  | discover caller =>
    intro t ht
    rw [List.mem_singleton.1 ht]
    trivial
  | synch rest => exact knows_nextNewChannel c rest

theorem knows_thrown (c : FabricClient) (caller : Caller) : ∀ t ∈ caller.thrown, t.Knows c := by
  cases caller with
  | initializeClient rest => exact knows_nextInitialize c rest
  | nobody | discover | synch => exact fun t ht => by cases ht

theorem knows_resume {c c' : FabricClient} {t : Task} {r : Reply} {ts : List Task} (ht : t.Knows c)
    (h : t.resume c r = some (c', ts)) : ∀ t' ∈ ts, t'.Knows c' := by
  have hone : ∀ {c : FabricClient} {t : Task}, t.Knows c → ∀ t' ∈ [t], t'.Knows c := fun h t' ht' =>
    List.mem_singleton.1 ht' ▸ h
  unfold Task.resume at h
  split at h <;> cases h
  all_goals first
    | exact knows_returned _ _
    | exact knows_thrown _ _
    | exact knows_nextInitialize _ _
    | exact knows_nextNewChannel _ _
    | exact knows_nextChannel _ _
    | exact knows_fromDiscover _ _ _
    | exact hone trivial
    | exact hone ht
    | exact fun t ht => by cases ht

theorem informed_start {s : St} (h : Informed s) {ts : List Task} (hts : ∀ t ∈ ts, t.Knows s.client) :
    Informed (s.start ts) := by
  intro t ht
  exact (List.mem_append.1 ht).elim (h t) (hts t)

theorem informed_message (c : FabricClient) (msg : Message) : ∀ t ∈ processSyncMessage c msg, t.Knows c := by
  unfold processSyncMessage
  split
  · exact fun t ht => by cases ht
  · split
    · intro t ht
      rw [List.mem_singleton.1 ht]
      trivial
    · split
      · exact knows_fromDiscover c _ _
      · exact fun t ht => by cases ht

theorem informed_step {s s' : St} {ev : Ev} (h : Informed s) (hs : step s ev = some s') : Informed s' := by
  have hone : ∀ {t : Task}, t.Knows s.client → ∀ t' ∈ [t], t'.Knows s.client := fun h t' ht' =>
    List.mem_singleton.1 ht' ▸ h
  cases ev with
  | initializeClient | initializeNewChannel | synchNetworkConfigToDB =>
    cases hs
    exact informed_start h (hone trivial)
  | initializeChannelFromDiscover channelName =>
    cases hs
    exact informed_start h (knows_fromDiscover _ _ _)
  | message msg =>
    cases hs
    exact informed_start h (informed_message _ msg)
  | reply i r =>
    simp only [step] at hs
    split at hs
    · rename_i t hi
      obtain ⟨⟨c, ts⟩, hr, rfl⟩ := Option.map_eq_some_iff.1 hs
      have ht : t.Knows s.client := h t (List.mem_of_getElem? hi)
      intro t' ht'
      rcases List.mem_append.1 ht' with ht' | ht'
      · exact (h t' (List.mem_of_mem_eraseIdx ht')).mono (change_resume hr).subset
      · exact knows_resume ht hr t' ht'
    · cases hs

/-- **One step** keeps the channels known, unless it adds one that is there. -/
theorem known_step {s s' : St} {ev : Ev} (hi : Informed s) (h : Known s.client) (hs : step s ev = some s') :
    Known s'.client ↔ AddsNew s ev := by
  have hnothing : adds s ev = none → s'.client = s.client → (Known s'.client ↔ AddsNew s ev) := by
    intro hadds hclient
    rw [hclient, AddsNew, hadds]
    exact iff_of_true h fun channelName hmem => by cases hmem
  cases ev with
  | initializeClient | initializeNewChannel | initializeChannelFromDiscover | message | synchNetworkConfigToDB =>
    cases hs
    exact hnothing rfl rfl
  | reply i r =>
    simp only [step] at hs
    split at hs
    · rename_i t ht
      obtain ⟨⟨c, ts⟩, hr, rfl⟩ := Option.map_eq_some_iff.1 hs
      have hadds : adds s (.reply i r) = t.adds r := by rw [adds, ht, Option.bind_some]
      cases change_resume hr with
      | same hadd hc => exact hnothing (hadds.trans hadd) hc
      | set channelName hash next htask hc =>
        subst htask
        have hmem : channelName ∈ s.client.channels := hi _ (List.mem_of_getElem? ht)
        rw [AddsNew, hadds]
        refine iff_of_true ?_ fun name hname => by cases hname
        show Known c
        rw [hc]
        exact h.set hmem hash
      | add channelName hash caller htask hreply hc =>
        subst htask hreply
        show Known c ↔ _
        rw [hc, h.add_iff, AddsNew, hadds]
        exact ⟨fun hnew name hname => by cases hname; exact hnew, fun hall => hall channelName rfl⟩
    · cases hs

/-- **A client knows each channel once.** In every order of the completions:
every state that a run goes through has no channel twice, and the channels are
the keys of the map, if and only if each `initializeNewChannel` that completes
finds its channel not known yet. -/
theorem channels_known_iff (evs : List Ev) (s : St) (hr : lts.Run init evs s) :
    (∀ pre post m, evs = pre ++ post → lts.Run init pre m → Known m.client) ↔
      (lts.restrict AddsNew).Run init evs s := by
  have hknown : Known init.client := ⟨List.nodup_nil, fun channelName => by simp [init]⟩
  have hinformed : Informed init := fun t ht => by cases ht
  exact LTS.Run.always_iff (I := fun s => Known s.client) (J := Informed) (fun _ _ _ => informed_step)
    (fun _ _ _ => known_step) hr hinformed hknown

/-! ## Two orders -/

def newChannel : Message := ⟨"1", "first-network", "org1", "mychannel"⟩

/-- The second message comes when the first has been dealt with. -/
def oneAfterTheOther : List Ev :=
  [.message newChannel, .reply 0 (.genesisBlock true), .reply 0 (.blockHash "genesis"),
    .message { newChannel with notifyType := "3" }, .reply 0 .done]

theorem channels_known_iff_oneAfterTheOther :
    ∃ s, lts.Run init oneAfterTheOther s ∧ s.client.channels = ["mychannel"] ∧ Known s.client := by
  have hrun : (LTS.exec (LTS.guarded AddsNew step) init oneAfterTheOther).map (fun s => s.client.channels) =
      some ["mychannel"] := by decide
  obtain ⟨s, hs, hchannels⟩ := Option.map_eq_some_iff.1 hrun
  have hrestrict : (lts.restrict AddsNew).Run init oneAfterTheOther s := LTS.restrict_run_of_exec hs
  have hknown := (channels_known_iff oneAfterTheOther s hrestrict.of_restrict).2 hrestrict
  exact ⟨s, hrestrict.of_restrict, hchannels, hknown oneAfterTheOther [] s (by simp) hrestrict.of_restrict⟩

/-- Both messages find the channel missing; the second query ends last. -/
def bothMissing : List Ev :=
  [.message { newChannel with notifyType := "2" }, .message { newChannel with notifyType := "3" },
    .reply 0 (.genesisBlock true), .reply 0 (.genesisBlock true), .reply 0 (.blockHash "genesis"),
    .reply 0 (.blockHash "genesis")]

theorem channels_known_bothMissing :
    ∃ s, lts.Reachable s ∧ s.client = ⟨["mychannel", "mychannel"], [("mychannel", "genesis")]⟩ ∧
      ¬ Known s.client := by
  have hrun : (LTS.exec step init bothMissing).map St.client =
      some ⟨["mychannel", "mychannel"], [("mychannel", "genesis")]⟩ := by decide
  obtain ⟨s, hs, hclient⟩ := Option.map_eq_some_iff.1 hrun
  refine ⟨s, LTS.reachable_of_exec rfl hs, hclient, fun h => ?_⟩
  have hnodup := h.nodup
  rw [hclient] at hnodup
  exact absurd hnodup (by decide)

end Explorer.Fabric.ClientChannels
