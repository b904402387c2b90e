import Explorer.Iroha.StreamServer
import Explorer.Iroha.Sync

/-!
# The database as a replica of the chain

`Sync` leaves open which blocks the streams hand over, and `StreamServer`
what becomes of a block once it is handed over. Here the two halves meet: any
number of sync processes, which start, overlap, fail and die at any moment,
share one database, and the server answers all of them from one append-only
chain. Every process has its own pending `getBlock` and its own subscription
(`Link`).

* `draws_step`, `only_step`: no block that is stored was made up on the way.
* `replica_of_chain`: in every run the database is what the first blocks of
  the chain make of the empty one, whoever applied them.
-/
namespace Explorer.Iroha.Replica

open StreamBlocks (delivered whileQueue returnTo Caller)
open StreamServer (Chain Sys sysStep)
open Delivery (Obs)

/-- What the server owes one process. -/
structure Link where
  query : Option (Option Block)
  sub : Option Nat
  /-- ghost: the heights for which `getBlock` was answered null -/
  answeredNull : List Nat
  deriving DecidableEq, Repr

def Link.fresh : Link := ⟨none, none, []⟩

/-- `links i` belongs to process `i`. -/
structure St (Bytes E : Type) where
  sync : Sync.St Bytes E
  committed : Nat
  links : Nat → Link

/-- `sync e` is every event of the processes that is no answer of the
server. -/
inductive Lbl (E : Type) where
  | commit
  | evaluate (i : Nat)
  | reply (i : Nat)
  | subscribe (i : Nat)
  | deliver (i : Nat)
  | sync (e : Sync.Ev E)
  deriving DecidableEq, Repr

variable {Bytes E : Type}

def St.withLink (s : St Bytes E) (i : Nat) (link : Link) : St Bytes E :=
  { s with links := Function.update s.links i link }

/-- Process `i` with the chain, as `StreamServer` has it. -/
def St.sys? (s : St Bytes E) (i : Nat) : Option (Sys E) :=
  match s.sync.procs[i]? with
  | some (.streaming stream _) =>
    some ⟨stream, s.committed, (s.links i).query, (s.links i).sub, (s.links i).answeredNull⟩
  | _ => none

/-- The link after an event of the processes: `streamBlocks` opens its own,
and a rejected query has no reply. -/
def St.relink (s : St Bytes E) : Sync.Ev E → St Bytes E
  | .blockCountReply i => s.withLink i .fresh
  | .stream i (.getBlockReject _) => s.withLink i { s.links i with query := none }
  | _ => s

/-- A reply to `getBlock` or a block of the subscription. -/
def isAnswer : Sync.Ev E → Bool
  | .stream _ (.getBlockResolve _) | .stream _ (.commit _) => true
  | _ => false

def step (W : Wire Bytes) (C : Chain) (s : St Bytes E) : Lbl E → Option (St Bytes E)
  | .commit => some { s with committed := s.committed + 1 }
  | .evaluate i => (s.sys? i).bind fun sys => (sysStep C sys .evaluate).map fun sys =>
      s.withLink i ⟨sys.query, sys.sub, sys.answeredNull⟩
  | .subscribe i => (s.sys? i).bind fun sys => (sysStep C sys .subscribe).map fun sys =>
      s.withLink i ⟨sys.query, sys.sub, sys.answeredNull⟩
  | .reply i => (s.links i).query.bind fun answer =>
      (Sync.step W s.sync (.stream i (.getBlockResolve answer))).map fun sync =>
        { s.withLink i { s.links i with query := none } with sync := sync }
  | .deliver i => (s.links i).sub.bind fun n =>
      if n ≤ s.committed then
        (Sync.step W s.sync (.stream i (.commit (C.block n)))).map fun sync =>
          { s.withLink i { s.links i with sub := some (n + 1) } with sync := sync }
      else none
  | .sync e =>
    if isAnswer e then none
    else (Sync.step W s.sync e).map fun sync => { s.relink e with sync := sync }

/-- Nothing is stored and no process runs; any number of blocks is
committed. -/
def Init (s : St Bytes E) : Prop := ∃ n, s = ⟨Sync.init, n, fun _ => .fresh⟩

def lts (W : Wire Bytes) (C : Chain) (E : Type) : LTS (St Bytes E) (Lbl E) := LTS.ofFn Init (step W C)

/-- The blocks of the chain up to a height. -/
def upTo (C : Chain) (n : Nat) : List Block := (List.range' 1 n).map C.block

/-! ## Where the blocks come from -/

/-- The block that an event hands over. -/
def handed : StreamBlocks.Ev E → List Block
  | .getBlockResolve (some block) | .commit block => [block]
  | _ => []

/-- From `s` to `s'`, every block that was queued or passed to `onBlock` had
been queued, or is one of `new`. -/
structure Draws (new : List Block) (s s' : StreamBlocks.St E) : Prop where
  queue : s'.streamQueue ⊆ s.streamQueue ++ new
  calls : (delivered s').drop (delivered s).length ⊆ s.streamQueue ++ new

theorem draws_of_eq {new : List Block} {s s' : StreamBlocks.St E}
    (hqueue : s'.streamQueue = s.streamQueue) (hcalls : delivered s' = delivered s) :
    Draws new s s' := by
  refine ⟨?_, ?_⟩
  · rw [hqueue]
    exact List.subset_append_left _ _
  · rw [hcalls, List.drop_length]
    exact List.nil_subset _

theorem draws_returnTo (new : List Block) (s : StreamBlocks.St E) (c : Caller) :
    Draws new s (returnTo s c) := by
  cases c <;> exact draws_of_eq rfl rfl

theorem drop_call (log : List (Obs Block)) (block : Block) :
    (Delivery.calls (log ++ [.call block])).drop (Delivery.calls log).length = [block] := by
  rw [Delivery.calls_snoc]
  exact List.drop_left

theorem delivered_of_log {s s' : StreamBlocks.St E} {o : Obs Block} (hlog : s'.log = s.log ++ [o])
    (ho : o.item? = none) : delivered s' = delivered s := by
  unfold delivered
  rw [hlog, Delivery.calls_snoc, ho]
  exact List.append_nil _

/-- A pass takes blocks off the queue and hands over at most the last one it
took. -/
theorem draws_whileQueue (c : Caller) (queue : List Block) (s : StreamBlocks.St E) :
    (whileQueue c queue s).streamQueue ⊆ queue ∧
      (delivered (whileQueue c queue s)).drop (delivered s).length ⊆ queue := by
  have hnone : ∀ t : StreamBlocks.St E, delivered t = delivered s →
      (delivered t).drop (delivered s).length ⊆ queue := by
    intro t ht
    rw [ht, List.drop_length]
    exact List.nil_subset _
  induction queue with
  | nil => cases c <;> simp [whileQueue, returnTo, delivered]
  | cons block queue ih =>
    unfold whileQueue
    split
    · cases c <;> exact ⟨List.subset_cons_self _ _, hnone _ rfl⟩
    · split
      · refine ⟨List.subset_cons_self _ _, ?_⟩
        simp [delivered, drop_call]
      · obtain ⟨h1, h2⟩ := ih fun t ht => by rw [ht, List.drop_length]; exact List.nil_subset _
        exact ⟨List.subset_cons_of_subset _ h1, List.subset_cons_of_subset _ h2⟩

theorem draws_streamTryConsume (c : Caller) (s : StreamBlocks.St E) :
    Draws [] s (StreamBlocks.streamTryConsume c s) := by
  unfold StreamBlocks.streamTryConsume
  split
  · exact draws_returnTo [] s c
  · obtain ⟨h1, h2⟩ := draws_whileQueue c s.streamQueue { s with onBlockLock := true }
    refine ⟨?_, ?_⟩
    · rwa [List.append_nil]
    · rwa [List.append_nil]

theorem draws_afterLoop (s : StreamBlocks.St E) : Draws [] s (StreamBlocks.afterLoop s) := by
  unfold StreamBlocks.afterLoop
  split
  · exact draws_of_eq rfl rfl
  · obtain ⟨h1, h2⟩ := draws_streamTryConsume .backfill
      { s with onBlockLock := false, loop := .consume }
    exact ⟨h1, h2⟩

theorem Draws.weaken {new : List Block} {s s' : StreamBlocks.St E} (h : Draws [] s s') :
    Draws new s s' := by
  obtain ⟨h1, h2⟩ := h
  rw [List.append_nil] at h1 h2
  exact ⟨List.subset_append_of_subset_left _ h1, List.subset_append_of_subset_left _ h2⟩

/-- What is queued or passed to `onBlock` has been queued or is handed over
by the event. -/
theorem draws_step {s s' : StreamBlocks.St E} {e : StreamBlocks.Ev E}
    (hs : StreamBlocks.step s e = some s') : Draws (handed e) s s' := by
  cases e with
  | getBlockResolve reply =>
    simp only [StreamBlocks.step] at hs
    split at hs
    · cases reply with
      | none =>
        cases hs
        exact (draws_afterLoop s).weaken
      | some block =>
        simp only at hs
        split at hs
        · split at hs
          · cases hs
            exact (draws_afterLoop s).weaken
          · cases hs
            refine ⟨List.subset_append_left _ _, ?_⟩
            simp [delivered, drop_call, handed]
        · cases hs
    · cases hs
  | onBlockResolve =>
    simp only [StreamBlocks.step] at hs
    split at hs
    · cases hs
      exact draws_of_eq rfl (delivered_of_log rfl rfl)
    · cases hc : s.consumer with
      | none => simp [hc] at hs
      | some c =>
        simp only [hc, Option.some.injEq] at hs
        subst hs
        obtain ⟨h1, h2⟩ := draws_whileQueue c s.streamQueue { s with
          consumer := none, height := s.height + 1, log := s.log ++ [.resolved] }
        refine ⟨?_, ?_⟩
        · simpa [handed] using h1
        · simpa [handed, delivered, Delivery.calls_snoc, Delivery.Obs.item?] using h2
  | onBlockReject error =>
    simp only [StreamBlocks.step] at hs
    split at hs
    · cases hs
      exact draws_of_eq rfl (delivered_of_log rfl rfl)
    · cases hc : s.consumer with
      | none => simp [hc] at hs
      | some c =>
        simp only [hc, Option.some.injEq] at hs
        subst hs
        cases c <;> exact draws_of_eq rfl (delivered_of_log rfl rfl)
  | getBlockReject error =>
    simp only [StreamBlocks.step] at hs
    split at hs
    · cases hs
      exact draws_of_eq rfl (delivered_of_log rfl rfl)
    · cases hs
  | commit block =>
    simp only [StreamBlocks.step] at hs
    split at hs
    · cases hs
      exact draws_of_eq rfl rfl
    · cases hs
      obtain ⟨h1, h2⟩ := draws_streamTryConsume .stream
        { s with streamQueue := s.streamQueue ++ [block] }
      rw [List.append_nil] at h1 h2
      exact ⟨h1, h2⟩
  | blockErrorResponse error | streamError cancelled error =>
    cases hs
    exact draws_of_eq rfl rfl
  | endCall =>
    cases hs
    exact draws_of_eq rfl (delivered_of_log rfl rfl)

/-- The blocks a process still has to do with. -/
def held : Sync.Proc E → List Block
  | .streaming stream tx => stream.streamQueue ++ tx.block
  | _ => []

/-- All blocks in memory, and all that a dead process left behind, meet `P`. -/
structure Only (P : Block → Prop) (s : Sync.St Bytes E) : Prop where
  procs : ∀ p ∈ s.procs, ∀ block ∈ held p, P block
  orphans : ∀ block ∈ s.orphans, P block

theorem Only.mono {P Q : Block → Prop} {s : Sync.St Bytes E} (h : Only P s)
    (hPQ : ∀ block, P block → Q block) : Only Q s :=
  ⟨fun p hp block hb => hPQ block (h.procs p hp block hb), fun block hb => hPQ block (h.orphans block hb)⟩

/-- A process is replaced and transactions are left behind. -/
theorem Only.set {P : Block → Prop} {s : Sync.St Bytes E} (h : Only P s) (i : Nat) (p : Sync.Proc E)
    (left : List Block) (hp : ∀ block ∈ held p, P block) (hleft : ∀ block ∈ left, P block) :
    Only P { s with procs := s.procs.set i p, orphans := s.orphans ++ left } := by
  refine ⟨fun q hq => ?_, fun block hb => ?_⟩
  · rcases List.mem_or_eq_of_mem_set hq with hq | rfl
    · exact h.procs q hq
    · exact hp
  · rcases List.mem_append.1 hb with hb | hb
    · exact h.orphans block hb
    · exact hleft block hb

theorem mem_next {tx : Sync.Tx} {e : StreamBlocks.Ev E} {started : List Block} {block : Block}
    (h : block ∈ (tx.next e started).block) : block ∈ tx.block ∨ block ∈ started := by
  cases started with
  | cons b started =>
    right
    simp only [Sync.Tx.next, Sync.Tx.block, List.mem_singleton] at h
    rw [h]
    exact List.mem_cons_self
  | nil =>
    left
    cases e <;> first | exact h | simp [Sync.Tx.next, Sync.Tx.block] at h

theorem only_handle {P : Block → Prop} {p p' : Sync.Proc E} {e : StreamBlocks.Ev E} {left : List Block}
    (h : ∀ block ∈ held p, P block) (he : ∀ block ∈ handed e, P block)
    (hs : p.handle e = some (p', left)) :
    (∀ block ∈ held p', P block) ∧ ∀ block ∈ left, P block := by
  cases p with
  | counting ended | counted ended blockCount =>
    cases e <;> cases hs
    simp [held]
  | finished => cases hs
  | streaming stream tx =>
    simp only [Sync.Proc.handle] at hs
    split at hs
    · cases hs
    simp only [Option.map_eq_some_iff, Prod.mk.injEq] at hs
    obtain ⟨stream', hstep, rfl, rfl⟩ := hs
    obtain ⟨hqueue, hcalls⟩ := draws_step hstep
    have hfrom : ∀ block ∈ stream.streamQueue ++ handed e, P block := by
      intro block hb
      rcases List.mem_append.1 hb with hb | hb
      · exact h block (List.mem_append_left _ hb)
      · exact he block hb
    have htx : ∀ block ∈ tx.block, P block := fun block hb => h block (List.mem_append_right _ hb)
    refine ⟨fun block hb => ?_, ?_⟩
    · rcases List.mem_append.1 hb with hb | hb
      · exact hfrom block (hqueue hb)
      · rcases mem_next hb with hb | hb
        · exact htx block hb
        · exact hfrom block (hcalls hb)
    · cases e with
      | onBlockReject error => exact htx
      | _ => simp

/-- What is applied was in memory, or left behind. -/
theorem only_step {W : Wire Bytes} {P : Block → Prop} {s s' : Sync.St Bytes E} {e : Sync.Ev E}
    (h : Only P s) (he : ∀ i e', e = .stream i e' → ∀ block ∈ handed e', P block)
    (hs : Sync.step W s e = some s') :
    Only P s' ∧ (s'.db = s.db ∨ ∃ block, P block ∧ applyBlock W s.db block = .ok s'.db) := by
  cases e with
  | start =>
    cases hs
    refine ⟨⟨fun p hp => ?_, h.orphans⟩, .inl rfl⟩
    rcases List.mem_append.1 hp with hp | hp
    · exact h.procs p hp
    · rw [List.mem_singleton.1 hp]
      simp [held]
  | blockCount i =>
    simp only [Sync.step] at hs
    split at hs
    · cases hs
      refine ⟨?_, .inl rfl⟩
      simpa using h.set i (.counted _ s.db.blockCount) [] (by simp [held]) (by simp)
    · cases hs
  | blockCountReply i =>
    simp only [Sync.step] at hs
    split at hs
    · rename_i ended blockCount hi
      cases hs
      refine ⟨?_, .inl rfl⟩
      have hp : ∀ block ∈ held (if ended then .finished
          else .streaming (StreamBlocks.init (blockCount + 1)) .idle : Sync.Proc E), P block := by
        split <;> simp [held, StreamBlocks.init, Sync.Tx.block]
      simpa using h.set i _ [] hp (by simp)
    · cases hs
  | stream i e =>
    simp only [Sync.step] at hs
    split at hs
    · rename_i p hi
      obtain ⟨⟨p', left⟩, hp, rfl⟩ := Option.map_eq_some_iff.1 hs
      obtain ⟨hd, hleft⟩ := only_handle (h.procs p (List.mem_of_getElem? hi)) (he i e rfl) hp
      exact ⟨h.set i p' left hd hleft, .inl rfl⟩
    · cases hs
  | commit i =>
    simp only [Sync.step] at hs
    split at hs
    · rename_i stream block hi
      have hheld := h.procs _ (List.mem_of_getElem? hi)
      split at hs
      · rename_i db hb
        cases hs
        refine ⟨?_, .inr ⟨block, hheld block (by simp [held, Sync.Tx.block]), hb⟩⟩
        have hp : ∀ block ∈ held (.streaming stream .committed : Sync.Proc E), P block := by
          intro block hmem
          exact hheld block (List.mem_append_left _ (by simpa [held, Sync.Tx.block] using hmem))
        have h' : Only P { s with db := db } := ⟨h.procs, h.orphans⟩
        simpa using h'.set i _ [] hp (by simp)
      · cases hs
    · cases hs
  | commitOrphan j =>
    simp only [Sync.step] at hs
    split at hs
    · rename_i block hj
      split at hs
      · rename_i db hb
        cases hs
        exact ⟨⟨h.procs, fun b hmem => h.orphans b (List.mem_of_mem_eraseIdx hmem)⟩,
          .inr ⟨block, h.orphans block (List.mem_of_getElem? hj), hb⟩⟩
      · cases hs
    · cases hs
  | crash i =>
    simp only [Sync.step] at hs
    split at hs
    · rename_i p hi
      cases hs
      have hleft : ∀ block ∈ p.block, P block := by
        intro block hb
        refine h.procs p (List.mem_of_getElem? hi) block ?_
        cases p with
        | streaming stream tx => exact List.mem_append_right _ hb
        | _ => exact absurd hb (by simp [Sync.Proc.block])
      exact ⟨h.set i .finished p.block (by simp [held]) hleft, .inl rfl⟩
    · cases hs

/-! ## The prefix of the chain -/

/-- A block of the chain that is committed. -/
def Committed (C : Chain) (n : Nat) (block : Block) : Prop :=
  block = C.block (blockHeight block) ∧ blockHeight block ≤ n

theorem Committed.mono {C : Chain} {n m : Nat} {block : Block} (h : Committed C n block) (hnm : n ≤ m) :
    Committed C m block := ⟨h.1, Nat.le_trans h.2 hnm⟩

theorem committed_block {C : Chain} {n h : Nat} (hn : h ≤ n) : Committed C n (C.block h) := by
  unfold Committed
  rw [C.height]
  exact ⟨rfl, hn⟩

theorem committed_of_getBlock {C : Chain} {n h : Nat} {block : Block}
    (hb : StreamServer.getBlock C n h = some block) : Committed C n block := by
  unfold StreamServer.getBlock at hb
  split at hb
  · rename_i hn
    cases hb
    exact committed_block hn.2
  · cases hb

structure Inv (W : Wire Bytes) (C : Chain) (s : St Bytes E) : Prop where
  sync : Sync.Inv s.sync
  blocks : Only (Committed C s.committed) s.sync
  queries : ∀ i block, (s.links i).query = some (some block) → Committed C s.committed block
  count : s.sync.db.blockCount ≤ s.committed
  projected : applyBlocks W .empty (upTo C s.sync.db.blockCount) = .ok s.sync.db

theorem upTo_succ (C : Chain) (n : Nat) : upTo C (n + 1) = upTo C n ++ [C.block (n + 1)] := by
  simp [upTo, List.range'_concat, Nat.add_comm]

theorem applyBlocks_concat {W : Wire Bytes} {blocks : List Block} {block : Block} {db : Db Bytes} :
    applyBlocks W .empty (blocks ++ [block]) = .ok db ↔
      ∃ db₁, applyBlocks W .empty blocks = .ok db₁ ∧ applyBlock W db₁ block = .ok db := by
  unfold applyBlocks
  rw [List.foldlM_append, bind_eq_ok]
  simp

/-- A query that is pending now was pending, or is the new link's. -/
theorem query_update {links : Nat → Link} {i j : Nat} {link : Link} {answer : Option Block}
    (h : (Function.update links i link j).query = some answer) :
    (links j).query = some answer ∨ link.query = some answer := by
  by_cases hj : j = i
  · subst hj
    rw [Function.update_self] at h
    exact .inr h
  · rw [Function.update_of_ne hj] at h
    exact .inl h

theorem sys?_eq_some {s : St Bytes E} {i : Nat} {sys : Sys E} :
    s.sys? i = some sys ↔ ∃ tx, s.sync.procs[i]? = some (.streaming sys.client tx) ∧
      sys = ⟨sys.client, s.committed, (s.links i).query, (s.links i).sub, (s.links i).answeredNull⟩ := by
  unfold St.sys?
  split
  · rename_i stream tx hp
    constructor
    · intro h
      cases h
      exact ⟨tx, hp, rfl⟩
    · rintro ⟨tx', hp', hsys⟩
      rw [hp] at hp'
      simp only [Option.some.injEq, Sync.Proc.streaming.injEq] at hp'
      rw [hsys, hp'.1]
  · rename_i hp
    constructor
    · intro h
      cases h
    · rintro ⟨tx, hp', -⟩
      exact absurd hp' (hp _ _)

theorem relink_committed (s : St Bytes E) (e : Sync.Ev E) : (s.relink e).committed = s.committed := by
  unfold St.relink
  split <;> rfl

theorem query_relink {s : St Bytes E} {e : Sync.Ev E} {j : Nat} {answer : Option Block}
    (h : ((s.relink e).links j).query = some answer) : (s.links j).query = some answer := by
  unfold St.relink at h
  split at h
  · rcases query_update h with h | h
    · exact h
    · cases h
  · rcases query_update h with h | h
    · exact h
    · cases h
  · exact h

/-- An event of the processes that hands over committed blocks only. -/
theorem inv_sync {W : Wire Bytes} {C : Chain} {s : St Bytes E} {sync : Sync.St Bytes E} {e : Sync.Ev E}
    {links : Nat → Link} (h : Inv W C s) (hs : Sync.step W s.sync e = some sync)
    (he : ∀ i e', e = .stream i e' → ∀ block ∈ handed e', Committed C s.committed block)
    (hl : ∀ i block, (links i).query = some (some block) → Committed C s.committed block) :
    Inv W C ⟨sync, s.committed, links⟩ := by
  obtain ⟨hsync, happlies⟩ := Sync.inv_step h.sync hs
  obtain ⟨hblocks, hdb⟩ := only_step h.blocks he hs
  rcases hdb with hdb | ⟨block, ⟨hchain, hle⟩, hb⟩
  · refine ⟨hsync, hblocks, hl, ?_, ?_⟩
    · rw [hdb]
      exact h.count
    · rw [hdb]
      exact h.projected
  · obtain ⟨-, hrows, -, -⟩ := applyBlock_spec hb
    have hcount : sync.db.blockCount = s.sync.db.blockCount + 1 := by
      simp [Sync.blockCount_eq, hrows]
    have hheight : blockHeight block = s.sync.db.blockCount + 1 := by
      rcases happlies with hsame | ⟨block', hb', hnext⟩
      · rw [hsame] at hcount
        omega
      · obtain ⟨-, hrows', -, -⟩ := applyBlock_spec hb'
        rw [hrows] at hrows'
        have hrow := List.append_cancel_left hrows'
        simp only [List.cons.injEq, and_true] at hrow
        rw [← hnext]
        exact congrArg BlockRow.height hrow
    refine ⟨hsync, hblocks, hl, ?_, ?_⟩
    · rw [hcount, ← hheight]
      exact hle
    · rw [hcount, upTo_succ, ← hheight, ← hchain]
      exact applyBlocks_concat.2 ⟨_, h.projected, hb⟩

theorem inv_init {W : Wire Bytes} {C : Chain} {s : St Bytes E} (hs : Init s) : Inv W C s := by
  obtain ⟨n, rfl⟩ := hs
  exact ⟨Sync.inv_init, ⟨by simp [Sync.init], by simp [Sync.init]⟩, by simp [Link.fresh],
    Nat.zero_le _, rfl⟩

theorem inv_step {W : Wire Bytes} {C : Chain} {s s' : St Bytes E} {l : Lbl E} (h : Inv W C s)
    (hs : step W C s l = some s') : Inv W C s' := by
  cases l with
  | commit =>
    cases hs
    have hmono : ∀ block, Committed C s.committed block → Committed C (s.committed + 1) block :=
      fun block hb => hb.mono (Nat.le_succ _)
    exact ⟨h.sync, h.blocks.mono hmono, fun i block hq => hmono _ (h.queries i block hq),
      Nat.le_succ_of_le h.count, h.projected⟩
  | evaluate i =>
    simp only [step, Option.bind_eq_some_iff, Option.map_eq_some_iff] at hs
    obtain ⟨sys, hi, sys', hsys, rfl⟩ := hs
    refine ⟨h.sync, h.blocks, fun j block hq => ?_, h.count, h.projected⟩
    rcases query_update hq with hq | hq
    · exact h.queries j block hq
    · cases StreamServer.move_of_step hsys with
      | evaluate hloop hnone =>
        obtain ⟨tx, -, hsys'⟩ := sys?_eq_some.1 hi
        rw [hsys'] at hq
        exact committed_of_getBlock (Option.some.inj hq)
  | subscribe i =>
    simp only [step, Option.bind_eq_some_iff, Option.map_eq_some_iff] at hs
    obtain ⟨sys, hi, sys', hsys, rfl⟩ := hs
    refine ⟨h.sync, h.blocks, fun j block hq => ?_, h.count, h.projected⟩
    rcases query_update hq with hq | hq
    · exact h.queries j block hq
    · cases StreamServer.move_of_step hsys with
      | subscribe hnone =>
        obtain ⟨tx, -, hsys'⟩ := sys?_eq_some.1 hi
        rw [hsys'] at hq
        exact h.queries i block hq
  | reply i =>
    simp only [step, Option.bind_eq_some_iff, Option.map_eq_some_iff] at hs
    obtain ⟨answer, hq, sync, hsync, rfl⟩ := hs
    refine inv_sync (s := s) h hsync (fun j e he block hb => ?_) fun j block hj => ?_
    · cases he
      cases answer with
      | none => simp [handed] at hb
      | some b =>
        rw [List.mem_singleton.1 hb]
        exact h.queries i b hq
    · rcases query_update hj with hj | hj
      · exact h.queries j block hj
      · cases hj
  | deliver i =>
    simp only [step, Option.bind_eq_some_iff, Option.ite_none_right_eq_some,
      Option.map_eq_some_iff] at hs
    obtain ⟨n, hn, hle, sync, hsync, rfl⟩ := hs
    refine inv_sync (s := s) h hsync (fun j e he block hb => ?_) fun j block hj => ?_
    · cases he
      rw [List.mem_singleton.1 hb]
      exact committed_block hle
    · rcases query_update hj with hj | hj
      · exact h.queries j block hj
      · exact h.queries i block hj
  | sync e =>
    simp only [step] at hs
    split at hs
    · cases hs
    rename_i hanswer
    obtain ⟨sync, hsync, rfl⟩ := Option.map_eq_some_iff.1 hs
    rw [relink_committed]
    refine inv_sync h hsync (fun i e' he block hb => ?_) fun j block hj => ?_
    · subst he
      cases e' with
      | getBlockResolve | commit => exact absurd rfl hanswer
      | _ => simp [handed] at hb
    · exact h.queries j block (query_relink hj)

theorem inv_inductive (W : Wire Bytes) (C : Chain) : (lts W C E).Inductive (Inv W C) where
  init _ hs := inv_init hs
  step _ _ _ h hs := inv_step h hs

/-- A step applies at most one block. -/
theorem db_step {W : Wire Bytes} {C : Chain} {s s' : St Bytes E} {l : Lbl E} (h : Inv W C s)
    (hs : step W C s l = some s') :
    s'.sync.db = s.sync.db ∨ ∃ block, applyBlock W s.sync.db block = .ok s'.sync.db := by
  have hsync : ∀ {e sync}, Sync.step W s.sync e = some sync →
      sync.db = s.sync.db ∨ ∃ block, applyBlock W s.sync.db block = .ok sync.db := by
    intro e sync he
    rcases (Sync.inv_step h.sync he).2 with hsame | ⟨block, hb, -⟩
    · exact .inl hsame
    · exact .inr ⟨block, hb⟩
  cases l with
  | commit =>
    cases hs
    exact .inl rfl
  | evaluate i | subscribe i =>
    simp only [step, Option.bind_eq_some_iff, Option.map_eq_some_iff] at hs
    obtain ⟨sys, -, sys', -, rfl⟩ := hs
    exact .inl rfl
  | reply i =>
    simp only [step, Option.bind_eq_some_iff, Option.map_eq_some_iff] at hs
    obtain ⟨answer, -, sync, he, rfl⟩ := hs
    exact hsync he
  | deliver i =>
    simp only [step, Option.bind_eq_some_iff, Option.ite_none_right_eq_some,
      Option.map_eq_some_iff] at hs
    obtain ⟨n, -, -, sync, he, rfl⟩ := hs
    exact hsync he
  | sync e =>
    simp only [step] at hs
    split at hs
    · cases hs
    obtain ⟨sync, he, rfl⟩ := Option.map_eq_some_iff.1 hs
    exact hsync he

/-- **The database is a replica of the chain.** In every state that any
number of sync processes can reach, whatever has failed: the database is the
result of applying the first `blockCount` blocks of the chain to the empty
one, and all of them are committed. -/
theorem replica_of_chain (W : Wire Bytes) (C : Chain) (s : St Bytes E) (hr : (lts W C E).Reachable s) :
    s.sync.db.blockCount ≤ s.committed ∧
      applyBlocks W .empty (upTo C s.sync.db.blockCount) = .ok s.sync.db := by
  have h := (inv_inductive W C).reachable s hr
  exact ⟨h.count, h.projected⟩

/-- `n` blocks are committed and nothing is stored. -/
def fresh (n : Nat) : St Bytes E := ⟨Sync.init, n, fun _ => .fresh⟩

/-- Two processes are handed block 1, the second loses the race for it, and
the first dies while block 2 is being applied, which takes effect later. -/
def overlapping : List (Lbl String) :=
  [.sync .start, .sync (.blockCount 0), .sync (.blockCountReply 0),
    .sync .start, .sync (.blockCount 1), .sync (.blockCountReply 1),
    .evaluate 0, .evaluate 1, .reply 1, .reply 0, .sync (.commit 0),
    .sync (.stream 1 (.onBlockReject "duplicate key")), .sync (.stream 0 .onBlockResolve),
    .evaluate 0, .reply 0, .sync (.crash 0), .sync (.commitOrphan 1)]

theorem replica_of_chain_overlapping :
    ∃ s, LTS.exec (step plainWire StreamServer.blankChain) (fresh 2) overlapping = some s ∧
      s.sync.db.blockCount = 2 ∧
      applyBlocks plainWire .empty (upTo StreamServer.blankChain 2) = .ok s.sync.db := by
  have hrun : (LTS.exec (step plainWire StreamServer.blankChain) (fresh 2) overlapping).map
      (fun s => s.sync.db.blockCount) = some 2 := by decide +kernel
  obtain ⟨s, hs, hcount⟩ := Option.map_eq_some_iff.1 hrun
  obtain ⟨-, h⟩ := replica_of_chain plainWire StreamServer.blankChain s
    (LTS.reachable_of_exec ⟨2, rfl⟩ hs)
  exact ⟨s, hs, hcount, hcount ▸ h⟩

end Explorer.Iroha.Replica
