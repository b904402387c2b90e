import Explorer.Fabric.Mirror
import Explorer.Fabric.OwnRows

/-!
# The networks of one explorer

For each network of its configuration the explorer starts a sync process. They
write to the same tables at any time, and each of them can end and be started
again.

* `networks_isolated`: for every interleaving, each process does what it would
  do on a database of its own.
* `networks_mirror_ledgers`: so the shared tables are a copy of all ledgers.
-/
namespace Explorer.Fabric.NetworkConfig

open SharedStore

/-! ## Block processing among the other runs -/

section
variable {C : DiscoveryClient} {L : SyncService.Ledger}

theorem inv_apart {s s' : St} (h : SyncService.Inv C.toClient L s.sync) (hs : Apart s s') :
    SyncService.Inv C.toClient L s'.sync := by
  refine ⟨?_, SyncService.stored_congr h.stored hs.blocks hs.transactions, fun e he => ?_⟩
  · rw [hs.execs, hs.held]
    exact h.guarded
  · rw [hs.execs] at he
    obtain ⟨hfrom, hat⟩ := h.execs e he
    exact ⟨hfrom, SyncService.at_congr hat hs.blocks hs.transactions⟩

theorem fromEnvelopes_apart {s s' : St} (h : SyncService.FromEnvelopes C.toClient L s.db) (hs : Apart s s') :
    SyncService.FromEnvelopes C.toClient L s'.db := by
  intro r hr hnet
  rw [hs.transactions] at hr
  exact h r hr hnet

variable (C) (L) in
/-- What `tables_mirror_ledger` knows of block processing. -/
structure Mirrored (s : St) : Prop where
  inv : SyncService.Inv C.toClient L s.sync
  rows : SyncService.FromEnvelopes C.toClient L s.db

theorem mirrored_step {s s' : St} {ev : Ev} (h : Mirrored C L s) (hs : step C L s ev = some s') :
    Mirrored C L s' := by
  obtain ⟨ev', -, hsync⟩ | hapart := step_sync hs
  · obtain ⟨hinv, hrows⟩ := SyncService.fromEnvelopes_inductive.step _ _ _ ⟨h.inv, h.rows⟩ hsync
    exact ⟨hinv, hrows⟩
  · exact ⟨inv_apart h.inv hapart, fromEnvelopes_apart h.rows hapart⟩

/-- The same for the rows of the network alone. -/
theorem fresh_only {db : Db} (h : SyncService.Fresh C.toClient db) :
    SyncService.Fresh C.toClient (db.only C.networkName) :=
  ⟨fun r hr => h.blocks r (List.mem_of_mem_filter hr), fun r hr => h.transactions r (List.mem_of_mem_filter hr)⟩

theorem blocksOf_only (networkName : String) (db : Db) (hash : String) :
    blocksOf networkName (db.only networkName) hash = blocksOf networkName db hash :=
  filter_rowsOf db.blocks fun _ h => (of_decide_eq_true h).2

theorem transactionsOf_only (networkName : String) (db : Db) (hash : String) :
    transactionsOf networkName (db.only networkName) hash = transactionsOf networkName db hash :=
  filter_rowsOf db.transactions fun _ h => (of_decide_eq_true h).2

theorem owned_step {s s' : St} {ev : Ev} (h : s.sync.Owned C.networkName) (hs : step C L s ev = some s') :
    s'.sync.Owned C.networkName := by
  obtain ⟨ev', -, hsync⟩ | hapart := step_sync hs
  · exact SyncService.owned_step h hsync
  · intro e he
    rw [hapart.execs] at he
    exact h e he

end

/-! ## All processes -/

/-- A process that has just been started. -/
def St.started (d : Store) : St where
  sync := SyncService.init d.db
  peer := d.peer
  peerRefChannel := d.peerRefChannel
  peerRefChaincode := d.peerRefChaincode
  channels := []
  tasks := []

section
variable {P : Type}

def startAll (P : Type) (d : Store) : Joint P St Store := ⟨d, fun _ => .started d⟩

def ownRows (C : P → DiscoveryClient) (p : P) (d : Store) : Store := d.only (C p).networkName

theorem owned_startAll (C : P → DiscoveryClient) (d : Store) (p : P) :
    ((startAll P d).states p).sync.Owned (C p).networkName := by
  intro e he
  cases he

/-- Two networks differ in their names, the keys of the configuration. -/
theorem separate {C : P → DiscoveryClient} {L : P → SyncService.Ledger}
    (hnames : ∀ p q, (C p).networkName = (C q).networkName → p = q) :
    Separate access (ownRows C) (fun p => step (C p) (L p)) fun p s => s.sync.Owned (C p).networkName where
  keeps _ _ _ _ h hs := owned_step h hs
  put _ _ _ h := h
  alone _ _ _ h := step_only h
  others p q _ _ _ h hq hs := step_others h hs fun hname => hq (hnames q p hname)

variable [DecidableEq P] (C : P → DiscoveryClient) (L : P → SyncService.Ledger)

/-- One process for each network, on the same tables.
mirrors app/platform/fabric/Platform.js:147-165 -/
def networks (start : Store → Prop) : LTS (Joint P St Store) (P × Ev) :=
  joint access (fun p => step (C p) (L p)) fun σ => ∃ d, start d ∧ σ = startAll P d

/-- The process of one network, with its rows and no others. -/
def single (p : P) (start : Store → Prop) : LTS St Ev :=
  LTS.ofFn (fun s => ∃ d, start d ∧ s = .started (d.only (C p).networkName)) (step (C p) (L p))

theorem networks_alone (hnames : ∀ p q, (C p).networkName = (C q).networkName → p = q) {start : Store → Prop}
    {d : Store} {ls : List (P × Ev)} {σ : Joint P St Store}
    (hr : (networks C L start).Run (startAll P d) ls σ) (p : P) :
    (single C L p start).Run (.started (d.only (C p).networkName)) (labelsOf p ls)
      ((σ.states p).withStore (σ.store.only (C p).networkName)) :=
  run_alone (separate hnames) (owned_startAll C d) hr p

/-- **The shared tables are a copy of all ledgers.** When the tables held
nothing of the networks at first, then whatever the processes did and whatever
of them failed: for each network and each of its channels, when no number below
a height is missing, the rows of the channel below it are those that the blocks
of its ledger prescribe, each once. -/
theorem networks_mirror_ledgers (hnames : ∀ p q, (C p).networkName = (C q).networkName → p = q)
    (σ : Joint P St Store)
    (hr : (networks C L fun d => ∀ p, SyncService.Fresh (C p).toClient d.db).Reachable σ) (p : P)
    (channelName hash : String) (hch : (C p).getChannelGenHash channelName = some hash) (height : Nat)
    (hnone : findMissingBlockNumber (C p).networkName hash ((height : Int) - 1) σ.store.db = []) :
    ((blocksOf (C p).networkName σ.store.db hash).filter fun r => r.blocknum < height).Perm
        (SyncService.blocksBelow (C p).toClient (L p) channelName hash height) ∧
      ((transactionsOf (C p).networkName σ.store.db hash).filter fun r => r.blockid < height).Perm
        (SyncService.transactionsBelow (C p).toClient (L p) channelName hash height) := by
  obtain ⟨_, ls, ⟨d, hfresh, rfl⟩, hrun⟩ := hr
  have halone := networks_alone C L hnames hrun p
  have hstart : Mirrored (C p) (L p) (.started (d.only (C p).networkName)) := by
    obtain ⟨hinv, hrows⟩ := (SyncService.fromEnvelopes_inductive (C := (C p).toClient) (L := L p)).init
      (SyncService.init (d.db.only (C p).networkName)) ⟨_, fresh_only (hfresh p), rfl⟩
    exact ⟨hinv, hrows⟩
  obtain ⟨hinv, hrows⟩ := halone.keeps (I := Mirrored (C p) (L p)) (fun _ _ _ h hs => mirrored_step h hs) hstart
  have hall : ∀ n < height, (hash, n) ∈ blockKeys (C p).networkName (σ.store.db.only (C p).networkName) :=
    SyncService.stored_of_findMissing (by rw [findMissingBlockNumber_only, hnone])
  rw [← blocksOf_only, ← transactionsOf_only]
  exact ⟨SyncService.blocksOf_perm hch hinv.stored hall, SyncService.transactionsOf_perm hch hinv.stored hrows hall⟩

end

/-! ## Two networks, for closed runs -/

/-- Two clients that know a channel of the same name. -/
def twoNetworks : Bool → DiscoveryClient
  | false => networkClient
  | true => { networkClient with networkName := "second-network" }

theorem twoNetworks_names (p q : Bool) (h : (twoNetworks p).networkName = (twoNetworks q).networkName) : p = q := by
  cases p <;> cases q
  · rfl
  · exact absurd h (by decide)
  · exact absurd h (by decide)
  · rfl

def emptyStore : Store := ⟨emptyDb, [], [], []⟩

/-- Both processes lose a reply, crash and catch up, in turns. -/
def bothRecovered : List (Bool × Ev) :=
  SyncService.recovered.flatMap fun ev => [(false, .process ev), (true, .process ev)]

def execBoth : Option (Joint Bool St Store) :=
  LTS.exec (Joint.next access fun p => step (twoNetworks p) SyncService.ledgerBoth) (startAll Bool emptyStore)
    bothRecovered

theorem networks_mirror_ledgers_bothRecovered :
    ∃ σ, execBoth = some σ ∧ σ.store.db.blocks.length = 4 ∧ ∀ p,
      ((blocksOf (twoNetworks p).networkName σ.store.db "genesis").filter fun r => r.blocknum < 2).Perm
        (SyncService.blocksBelow (twoNetworks p).toClient SyncService.ledgerBoth "mychannel" "genesis" 2) := by
  have hrun : execBoth.map (fun σ => (σ.store.db.blocks.length,
      findMissingBlockNumber "first-network" "genesis" 1 σ.store.db,
      findMissingBlockNumber "second-network" "genesis" 1 σ.store.db)) = some (4, [], []) := by
    decide +kernel
  obtain ⟨σ, hσ, hend⟩ := Option.map_eq_some_iff.1 hrun
  simp only [Prod.mk.injEq] at hend
  obtain ⟨hblocks, hfirst, hsecond⟩ := hend
  have hfresh : ∀ p, SyncService.Fresh (twoNetworks p).toClient emptyStore.db := fun p =>
    ⟨by simp [emptyStore, emptyDb], by simp [emptyStore, emptyDb]⟩
  refine ⟨σ, hσ, hblocks, fun p => ?_⟩
  have hnone : findMissingBlockNumber (twoNetworks p).networkName "genesis" 1 σ.store.db = [] := by
    cases p
    · exact hfirst
    · exact hsecond
  refine (networks_mirror_ledgers twoNetworks (fun _ => SyncService.ledgerBoth) twoNetworks_names σ
    (LTS.reachable_of_exec ⟨emptyStore, hfresh, rfl⟩ hσ) p "mychannel" "genesis" ?_ 2 hnone).1
  cases p <;> rfl

end Explorer.Fabric.NetworkConfig
