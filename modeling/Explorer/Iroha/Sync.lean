import Explorer.Iroha.StreamBlocks
import Explorer.Iroha.Projection

/-!
# `sync`

A sync process counts the stored blocks, opens `streamBlocks` behind the
last of them and applies every block it is handed. Any number of processes
share one database, one after another or overlapping. `Proc` is what one
process is doing, `St` the database with all of them.

`pool.transaction` is all or nothing, so the transaction of an `onBlock` call
has one moment at which it takes effect (`Ev.commit`). Before that moment it
may fail, and a process that fails or dies may leave it behind in the
database: it can still take effect later, with nobody waiting for it
(`orphans`). After it, `prometheus.readFromDb` may still reject the call.

* `inv_inductive`: in every run the heights stored are `1, 2, …`, and no
  transaction, running or left behind, is for a height further on than the
  next one.
* `sync_resumes`: the row count plus one is the first missing height, it is
  what a restarted sync asks for, and the only height that can be applied.
-/
namespace Explorer.Iroha.Sync

open StreamBlocks (delivered Passes passes_step)

/-- The `applyBlock` transaction of the pending `onBlock` call. -/
inductive Tx where
  | idle
  | running (block : Block)
  | committed
  deriving DecidableEq, Repr

/-- `ended` is `end` of `sync`, `stream` what `streamBlocks` returned. -/
inductive Proc (E : Type) where
  | counting (ended : Bool)
  | counted (ended : Bool) (blockCount : Nat)
  | streaming (stream : StreamBlocks.St E) (tx : Tx)
  | finished
  deriving DecidableEq, Repr

structure St (Bytes E : Type) where
  db : Db Bytes
  procs : List (Proc E)
  orphans : List Block

/-- `blockCount` is the evaluation of the count by the database, and
`blockCountReply` the settling of its promise; `stream` an event of
`streamBlocks`, or `end()`. `crash`: the process dies, or its count fails. -/
inductive Ev (E : Type) where
  | start
  | blockCount (i : Nat)
  | blockCountReply (i : Nat)
  | stream (i : Nat) (e : StreamBlocks.Ev E)
  | commit (i : Nat)
  | commitOrphan (j : Nat)
  | crash (i : Nat)
  deriving DecidableEq, Repr

variable {Bytes E : Type}

def init : St Bytes E := ⟨.empty, [], []⟩

def Tx.block : Tx → List Block
  | .running block => [block]
  | _ => []

/-- The transaction after an event of the stream: of the `onBlock` call that
the event started, of none when the event settled the call, or the same. -/
def Tx.next (tx : Tx) (e : StreamBlocks.Ev E) : List Block → Tx
  | block :: _ => .running block
  | [] =>
    match e with
    | .onBlockResolve | .onBlockReject _ => .idle
    | _ => tx

/-- The process after an event, and the transaction it left behind. `onBlock`
resolves only after the commit and rejects at any time.
mirrors iroha/src/sync.ts:8-29 -/
def Proc.handle (e : StreamBlocks.Ev E) : Proc E → Option (Proc E × List Block)
  | .counting _ => match e with
    | .endCall => some (.counting true, [])
    | _ => none
  | .counted _ blockCount => match e with
    | .endCall => some (.counted true blockCount, [])
    | _ => none
  | .streaming stream tx =>
    if e.advance = 1 ∧ tx ≠ .committed then none
    else (StreamBlocks.step stream e).map fun stream' =>
      let started := (delivered stream').drop (delivered stream).length
      (.streaming stream' (tx.next e started),
        match e with
        | .onBlockReject _ => tx.block
        | _ => [])
  | .finished => none

/-- What a dying process leaves behind. -/
def Proc.block : Proc E → List Block
  | .streaming _ tx => tx.block
  | _ => []

/-- mirrors iroha/src/sync.ts:8-30 -/
def step (W : Wire Bytes) (s : St Bytes E) : Ev E → Option (St Bytes E)
  | .start => some { s with procs := s.procs ++ [.counting false] }
  | .blockCount i =>
    match s.procs[i]? with
    | some (.counting ended) => some { s with procs := s.procs.set i (.counted ended s.db.blockCount) }
    | _ => none
  | .blockCountReply i =>
    match s.procs[i]? with
    | some (.counted ended blockCount) =>
      let p := if ended then .finished else .streaming (StreamBlocks.init (blockCount + 1)) .idle
      some { s with procs := s.procs.set i p }
    | _ => none
  | .stream i e =>
    match s.procs[i]? with
    | some p => (p.handle e).map fun (p', left) =>
        { s with procs := s.procs.set i p', orphans := s.orphans ++ left }
    | none => none
  | .commit i =>
    match s.procs[i]? with
    | some (.streaming stream (.running block)) =>
      match applyBlock W s.db block with
      | .ok db => some { s with db := db, procs := s.procs.set i (.streaming stream .committed) }
      | .error _ => none
    | _ => none
  | .commitOrphan j =>
    match s.orphans[j]? with
    | some block =>
      match applyBlock W s.db block with
      | .ok db => some { s with db := db, orphans := s.orphans.eraseIdx j }
      | .error _ => none
    | none => none
  | .crash i =>
    match s.procs[i]? with
    | some p => some { s with procs := s.procs.set i .finished, orphans := s.orphans ++ p.block }
    | none => none

def lts (W : Wire Bytes) (E : Type) : LTS (St Bytes E) (Ev E) := LTS.ofFn (· = init) (step W)

/-! ## Invariant -/

/-- The transaction of a call for the block at `height`, when the blocks
`1 … n` are stored. -/
def Tx.Due (n height : Nat) : Tx → Prop
  | .idle => True
  | .running block => blockHeight block = height
  | .committed => height ≤ n

/-- A process is not ahead of the database. -/
def Proc.Due (n : Nat) : Proc E → Prop
  | .counted _ blockCount => blockCount ≤ n
  | .streaming stream tx => 1 ≤ stream.height ∧ stream.height ≤ n + 1 ∧ tx.Due n stream.height
  | _ => True

/-- The block is stored already or it is the next one. -/
def BlockDue (n : Nat) (block : Block) : Prop := 1 ≤ blockHeight block ∧ blockHeight block ≤ n + 1

structure Inv (s : St Bytes E) : Prop where
  heights : Numbered BlockRow.height s.db.block.rows
  procs : ∀ p ∈ s.procs, p.Due s.db.blockCount
  orphans : ∀ block ∈ s.orphans, BlockDue s.db.blockCount block

theorem Proc.Due.mono {n m : Nat} {p : Proc E} (h : p.Due n) (hnm : n ≤ m) : p.Due m := by
  cases p with
  | counting ended => trivial
  | counted ended blockCount => exact Nat.le_trans h hnm
  | streaming stream tx =>
    obtain ⟨h1, h2, h3⟩ := h
    refine ⟨h1, by omega, ?_⟩
    cases tx with
    | idle => trivial
    | running block => exact h3
    | committed => exact Nat.le_trans h3 hnm
  | finished => trivial

theorem Proc.Due.block {n : Nat} {p : Proc E} (h : p.Due n) :
    ∀ block ∈ p.block, BlockDue n block := by
  cases p with
  | streaming stream tx =>
    obtain ⟨h1, h2, h3⟩ := h
    cases tx with
    | running block =>
      simp only [Proc.block, Tx.block, List.mem_singleton, forall_eq, BlockDue]
      rw [show blockHeight block = stream.height from h3]
      exact ⟨h1, h2⟩
    | idle | committed => simp [Proc.block, Tx.block]
  | counting ended | counted ended blockCount | finished => simp [Proc.block]

/-- The stream advances past a height only when its block is stored. -/
theorem Proc.Due.handle {n : Nat} {p p' : Proc E} {e : StreamBlocks.Ev E} {left : List Block}
    (h : p.Due n) (hs : p.handle e = some (p', left)) :
    p'.Due n ∧ ∀ block ∈ left, BlockDue n block := by
  cases p with
  | counting ended =>
    cases e <;> cases hs
    exact ⟨trivial, by simp⟩
  | counted ended blockCount =>
    cases e <;> cases hs
    exact ⟨h, by simp⟩
  | finished => cases hs
  | streaming stream tx =>
    have hleft := h.block
    obtain ⟨h1, h2, h3⟩ := h
    simp only [Proc.handle] at hs
    split at hs
    · cases hs
    rename_i hwait
    simp only [Option.map_eq_some_iff, Prod.mk.injEq] at hs
    obtain ⟨stream', hstep, rfl, rfl⟩ := hs
    obtain ⟨hheight, new, hnew, hblocks⟩ := passes_step hstep
    have hle : stream'.height ≤ n + 1 := by
      cases e <;> simp only [StreamBlocks.Ev.advance] at hheight hwait
      case onBlockResolve =>
        have hc : tx = .committed := by simpa using hwait
        subst hc
        have : stream.height ≤ n := h3
        omega
      all_goals omega
    refine ⟨⟨by omega, hle, ?_⟩, ?_⟩
    · rw [hnew, List.drop_left]
      cases new with
      | cons block new => exact hblocks block (by simp)
      | nil =>
        cases e <;> simp only [StreamBlocks.Ev.advance, Nat.add_zero] at hheight
        case onBlockResolve | onBlockReject => trivial
        all_goals
          rw [hheight]
          exact h3
    · cases e with
      | onBlockReject error => exact hleft
      | _ => simp

theorem blockCount_eq (db : Db Bytes) : db.blockCount = db.block.rows.length := rfl

/-- What is due takes effect only as the next block. -/
theorem applyBlock_due {W : Wire Bytes} {db db' : Db Bytes} {block : Block}
    (hn : Numbered BlockRow.height db.block.rows) (hd : BlockDue db.blockCount block)
    (h : applyBlock W db block = .ok db') :
    blockHeight block = db.blockCount + 1 ∧ Numbered BlockRow.height db'.block.rows ∧
      db'.blockCount = db.blockCount + 1 := by
  obtain ⟨hfresh, hrows, -, -⟩ := applyBlock_spec h
  obtain ⟨h1, h2⟩ := hd
  have hnext : blockHeight block = db.blockCount + 1 := by
    by_contra hne
    have hmem : blockHeight block ∈ db.block.rows.map BlockRow.height :=
      hn.mem_iff.2 ⟨h1, by rw [← blockCount_eq]; omega⟩
    obtain ⟨row, hrow, hheight⟩ := List.mem_map.1 hmem
    exact hfresh row hrow hheight
  refine ⟨hnext, ?_, ?_⟩
  · rw [hrows]
    exact hn.snoc hnext
  · simp [blockCount_eq, hrows]

theorem inv_init : Inv (init : St Bytes E) := ⟨numbered_nil _, by simp [init], by simp [init]⟩

/-- A process is replaced and transactions are left behind; the tables stay. -/
theorem Inv.set {s : St Bytes E} (h : Inv s) (i : Nat) (p : Proc E) (left : List Block)
    (hp : p.Due s.db.blockCount) (hleft : ∀ block ∈ left, BlockDue s.db.blockCount block) :
    Inv { s with procs := s.procs.set i p, orphans := s.orphans ++ left } := by
  refine ⟨h.heights, fun q hq => ?_, fun block hb => ?_⟩
  · rcases List.mem_or_eq_of_mem_set hq with hq | rfl
    · exact h.procs q hq
    · exact hp
  · rcases List.mem_append.1 hb with hb | hb
    · exact h.orphans block hb
    · exact hleft block hb

/-- A transaction takes effect. -/
theorem Inv.apply {W : Wire Bytes} {s : St Bytes E} {db : Db Bytes} {block : Block} (h : Inv s)
    (hd : BlockDue s.db.blockCount block) (hb : applyBlock W s.db block = .ok db) :
    Inv { s with db := db } := by
  obtain ⟨-, hn, hcount⟩ := applyBlock_due h.heights hd hb
  refine ⟨hn, fun p hp => (h.procs p hp).mono (by simp only [hcount]; omega), fun b hb => ?_⟩
  obtain ⟨h1, h2⟩ := h.orphans b hb
  exact ⟨h1, by simp only [hcount]; omega⟩

/-- What a step can do to the database. -/
def Applies (W : Wire Bytes) (s s' : St Bytes E) : Prop :=
  s'.db = s.db ∨ ∃ block, applyBlock W s.db block = .ok s'.db ∧
    blockHeight block = s.db.blockCount + 1

theorem inv_step {W : Wire Bytes} {s s' : St Bytes E} {e : Ev E} (h : Inv s)
    (hs : step W s e = some s') : Inv s' ∧ Applies W s s' := by
  cases e with
  | start =>
    cases hs
    refine ⟨⟨h.heights, fun p hp => ?_, h.orphans⟩, .inl rfl⟩
    rcases List.mem_append.1 hp with hp | hp
    · exact h.procs p hp
    · rw [List.mem_singleton.1 hp]
      trivial
  | blockCount i =>
    simp only [step] at hs
    split at hs
    · cases hs
      refine ⟨?_, .inl rfl⟩
      simpa using h.set i (.counted _ s.db.blockCount) [] (Nat.le_refl _) (by simp)
    · cases hs
  | blockCountReply i =>
    simp only [step] at hs
    split at hs
    · rename_i ended blockCount hi
      cases hs
      have hk : blockCount ≤ s.db.blockCount := h.procs _ (List.mem_of_getElem? hi)
      refine ⟨?_, .inl rfl⟩
      have hp : Proc.Due s.db.blockCount
          (if ended then .finished else .streaming (StreamBlocks.init (blockCount + 1)) .idle : Proc E) := by
        split
        · trivial
        · exact ⟨Nat.le_add_left 1 _, Nat.succ_le_succ hk, trivial⟩
      simpa using h.set i _ [] hp (by simp)
    · cases hs
  | stream i e =>
    simp only [step] at hs
    split at hs
    · rename_i p hi
      obtain ⟨⟨p', left⟩, hp, rfl⟩ := Option.map_eq_some_iff.1 hs
      obtain ⟨hd, hleft⟩ := (h.procs p (List.mem_of_getElem? hi)).handle hp
      exact ⟨h.set i p' left hd hleft, .inl rfl⟩
    · cases hs
  | commit i =>
    simp only [step] at hs
    split at hs
    · rename_i stream block hi
      have hd := h.procs _ (List.mem_of_getElem? hi)
      have hblock : BlockDue s.db.blockCount block := hd.block block (by simp [Proc.block, Tx.block])
      split at hs
      · rename_i db hb
        cases hs
        obtain ⟨hnext, -, hcount⟩ := applyBlock_due h.heights hblock hb
        refine ⟨?_, .inr ⟨block, hb, hnext⟩⟩
        have hheight : blockHeight block = stream.height := hd.2.2
        have hp : Proc.Due db.blockCount (.streaming stream .committed : Proc E) :=
          ⟨hd.1, by omega, show stream.height ≤ db.blockCount by omega⟩
        simpa using (h.apply hblock hb).set i _ [] hp (by simp)
      · cases hs
    · cases hs
  | commitOrphan j =>
    simp only [step] at hs
    split at hs
    · rename_i block hj
      have hblock := h.orphans block (List.mem_of_getElem? hj)
      split at hs
      · rename_i db hb
        cases hs
        obtain ⟨hnext, -, -⟩ := applyBlock_due h.heights hblock hb
        obtain ⟨h1, h2, h3⟩ := h.apply hblock hb
        exact ⟨⟨h1, h2, fun b hmem => h3 b (List.mem_of_mem_eraseIdx hmem)⟩,
          .inr ⟨block, hb, hnext⟩⟩
      · cases hs
    · cases hs
  | crash i =>
    simp only [step] at hs
    split at hs
    · rename_i p hi
      cases hs
      exact ⟨h.set i .finished p.block trivial (h.procs p (List.mem_of_getElem? hi)).block, .inl rfl⟩
    · cases hs

theorem inv_inductive (W : Wire Bytes) : (lts W E).Inductive Inv where
  init s hs := by subst hs; exact inv_init
  step _ _ _ h hs := (inv_step h hs).1

/-! ## Resuming -/

/-- A sync that starts and is answered before anything else happens. -/
def restart (i : Nat) : List (Ev E) := [.start, .blockCount i, .blockCountReply i]

/-- **Sync resumes where it stopped.** In every state that any number of sync
processes can reach: the heights stored are `1 … blockCount`, each once;
`blockCount + 1` is the first one missing; a sync started now streams from
it; and no step changes the database except by applying a block of that
height. -/
theorem sync_resumes (W : Wire Bytes) (s : St Bytes E) (hr : (lts W E).Reachable s) :
    s.db.block.rows.map BlockRow.height = List.range' 1 s.db.blockCount ∧
    IsLeast {h | 1 ≤ h ∧ h ∉ s.db.block.rows.map BlockRow.height} (s.db.blockCount + 1) ∧
    (∃ s', LTS.exec (step W) s (restart s.procs.length) = some s' ∧ s'.db = s.db ∧
      s'.procs = s.procs ++ [.streaming (StreamBlocks.init (s.db.blockCount + 1)) .idle]) ∧
    ∀ e s', step W s e = some s' → Applies W s s' := by
  have h := (inv_inductive W).reachable s hr
  refine ⟨h.heights, h.heights.firstMissing, ?_, fun e s' hs => (inv_step h hs).2⟩
  simp [LTS.exec, restart, step]

/-- Two overlapping processes and a third after a crash: the second loses the
race for block 1 and its transaction never takes effect, the first dies while
block 2 is being applied, and block 2 takes effect after its death, before
the third counts. -/
def threeProcesses : List (Ev String) :=
  let block (height : Nat) : Block := ⟨height, 0, "", []⟩
  [.start, .blockCount 0, .start, .blockCount 1, .blockCountReply 0, .blockCountReply 1,
    .stream 0 (.getBlockResolve (some (block 1))), .stream 1 (.getBlockResolve (some (block 1))),
    .commit 0, .stream 1 (.onBlockReject "duplicate key"), .stream 0 .onBlockResolve,
    .stream 0 (.getBlockResolve (some (block 2))), .crash 0, .commitOrphan 1,
    .start, .blockCount 2, .blockCountReply 2]

theorem sync_resumes_threeProcesses :
    ∃ s, LTS.exec (step plainWire) init threeProcesses = some s ∧
      s.db.block.rows.map BlockRow.height = [1, 2] ∧
      s.procs.getLast? = some (.streaming (StreamBlocks.init 3) .idle) ∧
      3 ∉ s.db.block.rows.map BlockRow.height := by
  have hrun : (LTS.exec (step plainWire) init threeProcesses).isSome = true := by decide +kernel
  obtain ⟨s, hs⟩ := Option.isSome_iff_exists.1 hrun
  have hlast : (LTS.exec (step plainWire) init threeProcesses).map (fun s =>
      (s.db.blockCount, s.procs.getLast?)) =
        some (2, some (.streaming (StreamBlocks.init 3) .idle)) := by decide +kernel
  rw [hs] at hlast
  simp only [Option.map_some, Option.some.injEq, Prod.mk.injEq] at hlast
  obtain ⟨hheights, ⟨⟨-, hmissing⟩, -⟩, -, -⟩ :=
    sync_resumes plainWire s (LTS.reachable_of_exec rfl hs)
  rw [hlast.1] at hheights hmissing
  exact ⟨s, hs, hheights, hlast.2, hmissing⟩

end Explorer.Iroha.Sync
