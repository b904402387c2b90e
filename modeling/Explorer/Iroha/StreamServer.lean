import Explorer.Iroha.StreamBlocks

/-!
# `streamBlocks` against an append-only chain

The server answers `getBlock` and `fetchCommits` from one chain. A `getBlock`
is evaluated at some moment after it was asked and its reply arrives at some
later one; the subscription of `fetchCommits` takes effect at some moment
(`sub`), from which every block committed later is delivered in order. The
two calls are independent, and blocks are committed at any time.

`streamBlocks` opens the stream before it back-fills, so that blocks
committed during the back-fill are queued, but it does not wait for the
subscription: when `getBlock(h)` was answered null and block `h` is
committed before the subscription takes effect, neither call hands it over
and the stream waits for it forever.

* `streamBlocks_loses_tooLate`: such a run.
* `streamBlocks_complete`: in every run without such a commit, whenever the
  stream is idle every committed block from `firstHeight` on has been passed
  to `onBlock`.
-/
namespace Explorer.Iroha.StreamServer

open StreamBlocks
open Delivery (Obs)

/-- The blocks of the chain by height, from 1. -/
structure Chain where
  block : Nat → Block
  height : ∀ h, blockHeight (block h) = h

variable {E : Type}

/-- `query` is the answer to the pending `getBlock`, once evaluated; `sub`
the next height the stream delivers, once the subscription is in effect. -/
structure Sys (E : Type) where
  client : St E
  committed : Nat
  query : Option (Option Block)
  sub : Option Nat
  /-- ghost: the heights for which `getBlock` was answered null -/
  answeredNull : List Nat
  deriving DecidableEq, Repr

inductive Lbl where
  | commit
  | evaluate
  | reply
  | subscribe
  | deliver
  | onBlockResolve
  deriving DecidableEq, Repr

/-- Block `h` if it is committed when the query is evaluated, else null.
mirrors iroha/src/iroha-api.ts:123-150 -/
def getBlock (C : Chain) (committed h : Nat) : Option Block :=
  if 1 ≤ h ∧ h ≤ committed then some (C.block h) else none

def sysStep (C : Chain) (s : Sys E) : Lbl → Option (Sys E)
  | .commit => some { s with committed := s.committed + 1 }
  | .evaluate =>
    if s.client.loop = .getBlock ∧ s.query = none then
      let answer := getBlock C s.committed s.client.height
      some { s with
        query := some answer
        answeredNull := if answer = none then s.client.height :: s.answeredNull else s.answeredNull }
    else none
  | .reply =>
    match s.query with
    | some answer =>
      (step s.client (.getBlockResolve answer)).map fun c => { s with client := c, query := none }
    | none => none
  | .subscribe => if s.sub = none then some { s with sub := some (s.committed + 1) } else none
  | .deliver =>
    match s.sub with
    | some n =>
      if n ≤ s.committed then
        (step s.client (.commit (C.block n))).map fun c => { s with client := c, sub := some (n + 1) }
      else none
    | none => none
  | .onBlockResolve => (step s.client .onBlockResolve).map fun c => { s with client := c }

/-- `streamBlocks` has been called while `n` blocks are committed. -/
def opened (firstHeight n : Nat) : Sys E := ⟨StreamBlocks.init firstHeight, n, none, none, []⟩

def Init (firstHeight : Nat) (s : Sys E) : Prop := ∃ n, s = opened firstHeight n

def sys (E : Type) (C : Chain) (firstHeight : Nat) : LTS (Sys E) Lbl :=
  LTS.ofFn (Init firstHeight) (sysStep C)

/-- No `getBlock` is pending, no commit is undelivered and no `onBlock` is
unfinished. -/
def Idle (s : Sys E) : Prop :=
  s.client.loop ≠ .getBlock ∧ busy s.client = false ∧ ∀ n, s.sub = some n → s.committed < n

/-- Every committed block from `firstHeight` on has been passed to `onBlock`. -/
def NothingMissing (C : Chain) (firstHeight : Nat) (s : Sys E) : Prop :=
  ∀ h, firstHeight ≤ h → h ≤ s.committed → C.block h ∈ delivered s.client

/-- No block is committed whose height `getBlock` has answered null while
the subscription is not in effect. -/
def OnTime (s : Sys E) (l : Lbl) : Prop :=
  l = .commit → s.sub = none → s.committed + 1 ∉ s.answeredNull

/-! ## What a step can do -/

inductive Move (C : Chain) (s : Sys E) : Lbl → Sys E → Prop where
  | commit : Move C s .commit { s with committed := s.committed + 1 }
  | evaluate (hloop : s.client.loop = .getBlock) (hq : s.query = none) :
      Move C s .evaluate { s with
        query := some (getBlock C s.committed s.client.height)
        answeredNull :=
          if getBlock C s.committed s.client.height = none then s.client.height :: s.answeredNull
          else s.answeredNull }
  | reply (answer : Option Block) (c : St E) (hq : s.query = some answer)
      (hc : step s.client (.getBlockResolve answer) = some c) :
      Move C s .reply { s with client := c, query := none }
  | subscribe (hsub : s.sub = none) : Move C s .subscribe { s with sub := some (s.committed + 1) }
  | deliver (n : Nat) (c : St E) (hsub : s.sub = some n) (hn : n ≤ s.committed)
      (hc : step s.client (.commit (C.block n)) = some c) :
      Move C s .deliver { s with client := c, sub := some (n + 1) }
  | onBlockResolve (c : St E) (hc : step s.client .onBlockResolve = some c) :
      Move C s .onBlockResolve { s with client := c }

theorem move_of_step {C : Chain} {s s' : Sys E} {l : Lbl} (hs : sysStep C s l = some s') :
    Move C s l s' := by
  cases l with
  | commit =>
    cases hs
    exact .commit
  | evaluate =>
    simp only [sysStep, Option.ite_none_right_eq_some] at hs
    obtain ⟨⟨hloop, hq⟩, hs⟩ := hs
    cases hs
    exact .evaluate hloop hq
  | reply =>
    simp only [sysStep] at hs
    split at hs
    · rename_i answer hq
      obtain ⟨c, hc, rfl⟩ := Option.map_eq_some_iff.1 hs
      exact .reply answer c hq hc
    · cases hs
  | subscribe =>
    simp only [sysStep, Option.ite_none_right_eq_some] at hs
    obtain ⟨hsub, hs⟩ := hs
    cases hs
    exact .subscribe hsub
  | deliver =>
    simp only [sysStep] at hs
    split at hs
    · rename_i n hsub
      simp only [Option.ite_none_right_eq_some, Option.map_eq_some_iff] at hs
      obtain ⟨hn, c, hc, rfl⟩ := hs
      exact .deliver n c hsub hn hc
    · cases hs
  | onBlockResolve =>
    obtain ⟨c, hc, rfl⟩ := Option.map_eq_some_iff.1 hs
    exact .onBlockResolve c hc

/-! ## The queue holds consecutive blocks -/

/-- `queue` is blocks `m, m + 1, …` of the chain. -/
def Contig (C : Chain) (m : Nat) (queue : List Block) : Prop :=
  queue = (List.range' m queue.length).map C.block

theorem contig_snoc {C : Chain} {m : Nat} {queue : List Block} (h : Contig C m queue) :
    Contig C m (queue ++ [C.block (m + queue.length)]) := by
  unfold Contig at h ⊢
  rw [List.length_append, List.length_singleton, List.range'_concat, List.map_append, ← h]
  simp

theorem contig_split {C : Chain} {m : Nat} {pre post : List Block} {b : Block}
    (h : Contig C m (pre ++ b :: post)) :
    b = C.block (m + pre.length) ∧ Contig C (m + pre.length + 1) post := by
  unfold Contig at h ⊢
  rw [List.length_append, ← List.range'_append_1, List.map_append] at h
  obtain ⟨-, h2⟩ := List.append_inj h (by simp)
  rw [List.length_cons, List.range'_succ, List.map_cons, List.cons.injEq] at h2
  exact h2

theorem contig_cons {C : Chain} {m : Nat} {b : Block} {post : List Block}
    (h : Contig C m (b :: post)) : b = C.block m ∧ Contig C (m + 1) post := by
  rw [← List.nil_append (b :: post)] at h
  exact contig_split h

theorem contig_below {C : Chain} {m h : Nat} {queue : List Block} (hq : Contig C m queue)
    (hm : m ≤ h) (hne : ∀ b ∈ queue, blockHeight b ≠ h) : m + queue.length ≤ h := by
  by_contra hlt
  have hmem : C.block h ∈ queue := by
    rw [hq]
    exact List.mem_map_of_mem (List.mem_range'_1.2 (by omega))
  exact hne _ hmem (C.height h)

/-- The height `streamTryConsume` needs next. -/
def expected (s : St E) : Nat := s.height + s.consumer.isSome.toNat

/-- Every block passed to `onBlock` is the chain's block of its height. -/
def FromChain (C : Chain) (s : St E) : Prop := ∀ b ∈ delivered s, b = C.block (blockHeight b)

/-- A queue that ends before height `n` and has not skipped the awaited
height. -/
structure Caught (C : Chain) (n : Nat) (s : St E) : Prop where
  queue : ∃ m, m + s.streamQueue.length = n ∧ Contig C m s.streamQueue ∧ m ≤ expected s
  free : s.consumer = none → s.streamQueue = [] ∧ s.onBlockLock = false

/-- One pass of `streamTryConsume` over a queue that has not skipped the
awaited height. -/
theorem whileQueue_caught {C : Chain} {c : Caller} {queue : List Block} {s : St E} {m : Nat}
    (hq : Contig C m queue) (hm : m ≤ s.height) (he : s.ended = false) (hc : s.consumer = none)
    (hf : FromChain C s) :
    Caught C (m + queue.length) (whileQueue c queue s) ∧ FromChain C (whileQueue c queue s) ∧
      (whileQueue c queue s).height = s.height ∧ (whileQueue c queue s).ended = false ∧
      (whileQueue c queue s).streamEnd = s.streamEnd ∧
      stopped (whileQueue c queue s) = stopped s := by
  rcases whileQueue_cases c queue s with ⟨he', -⟩ | ⟨-, pre, block, rest, rfl, hpre, hb, e⟩ |
    ⟨-, hne, e⟩
  · rw [he] at he'; cases he'
  · obtain ⟨hblock, hrest⟩ := contig_split hq
    have hh : m + pre.length = s.height := by
      rw [← hb, hblock, C.height]
    rw [e]
    refine ⟨⟨⟨m + pre.length + 1, by simp; omega, hrest, by simp [expected, hh]⟩, by simp⟩,
      ?_, rfl, he, rfl, by simp [stopped, Obs.isStop]⟩
    intro b hb'
    simp only [delivered, Delivery.calls_snoc, Obs.item?, Option.toList, List.mem_append,
      List.mem_singleton] at hb'
    rcases hb' with hb' | rfl
    · exact hf b hb'
    · rw [hb, ← hh]; exact hblock
  · have hle := contig_below hq hm hne
    rw [e]
    cases c <;>
      exact ⟨⟨⟨m + queue.length, by simp [returnTo], by simp [Contig, returnTo],
        by simpa [expected, returnTo, hc] using hle⟩, fun _ => ⟨rfl, rfl⟩⟩, hf, rfl, he, rfl, rfl⟩

/-! ## Invariant -/

/-- `getBlock` will not be asked for the awaited height again. -/
def Awaiting (s : Sys E) : Prop :=
  s.query = some none ∨ s.client.loop = .consume ∨ s.client.loop = .returned

structure Inv (C : Chain) (firstHeight : Nat) (s : Sys E) : Prop where
  client : StreamBlocks.Inv firstHeight s.client
  live : s.client.ended = false ∧ s.client.streamEnd = false ∧ stopped s.client = false
  blocks : FromChain C s.client
  first : firstHeight ≤ s.client.height
  asked : ∀ answer, s.query = some answer → s.client.loop = .getBlock ∧
    ∀ b, answer = some b → b = C.block s.client.height
  free : s.client.loop = .consume ∨ s.client.loop = .returned → s.client.consumer = none →
    s.client.streamQueue = [] ∧ s.client.onBlockLock = false
  subscribed : ∀ n, s.sub = some n → n ≤ s.committed + 1 ∧
    ∃ m, m + s.client.streamQueue.length = n ∧ Contig C m s.client.streamQueue ∧
      (Awaiting s → m ≤ expected s.client)
  unsubscribed : s.sub = none → s.client.streamQueue = [] ∧ s.client.consumer = none ∧
    (Awaiting s → s.committed < s.client.height ∧ s.client.height ∈ s.answeredNull)

/-- The stream has been handed every commit below `n`. -/
theorem inv_of_caught {C : Chain} {firstHeight n committed : Nat} {c : St E} {nulls : List Nat}
    (hc : StreamBlocks.Inv firstHeight c)
    (hlive : c.ended = false ∧ c.streamEnd = false ∧ stopped c = false) (hf : FromChain C c)
    (h1 : firstHeight ≤ c.height) (hn : n ≤ committed + 1) (h : Caught C n c) :
    Inv C firstHeight ⟨c, committed, none, some n, nulls⟩ := by
  obtain ⟨⟨m, hm, hq, hle⟩, hfree⟩ := h
  refine ⟨hc, hlive, hf, h1, by simp, fun _ hcons => hfree hcons, ?_, by simp⟩
  intro n' hn'
  simp only [Option.some.injEq] at hn'
  subst hn'
  exact ⟨hn, m, hm, hq, fun _ => hle⟩

/-- The loop is left with nothing of the awaited height skipped. -/
theorem inv_afterLoop {C : Chain} {firstHeight : Nat} {s : Sys E} (h : Inv C firstHeight s)
    (hloop : s.client.loop = .getBlock)
    (hsub : ∀ n, s.sub = some n → ∃ m, m + s.client.streamQueue.length = n ∧
      Contig C m s.client.streamQueue ∧ m ≤ s.client.height)
    (hunsub : s.sub = none → s.committed < s.client.height ∧ s.client.height ∈ s.answeredNull) :
    Inv C firstHeight { s with client := afterLoop s.client, query := none } := by
  have hinv := StreamBlocks.inv_afterLoop h.client hloop
  obtain ⟨hlock, hcons⟩ := h.client.looping (.inl hloop)
  obtain ⟨he, hse, hst⟩ := h.live
  have eloop : afterLoop s.client = whileQueue .backfill s.client.streamQueue
      { s.client with onBlockLock := true, loop := .consume } := by
    simp [afterLoop, he, streamTryConsume]
  rw [eloop] at hinv ⊢
  cases hs : s.sub with
  | some n =>
    obtain ⟨m, hm, hq, hle⟩ := hsub n hs
    obtain ⟨hcaught, hf, hh, he', hse', hst'⟩ :=
      whileQueue_caught (c := .backfill)
        (s := { s.client with onBlockLock := true, loop := .consume }) hq hle he hcons h.blocks
    rw [hm] at hcaught
    exact inv_of_caught hinv ⟨he', hse'.trans hse, hst'.trans hst⟩ hf (by rw [hh]; exact h.first)
      (h.subscribed n hs).1 hcaught
  | none =>
    obtain ⟨hq, -, -⟩ := h.unsubscribed hs
    rw [hq] at hinv ⊢
    exact ⟨hinv, ⟨he, hse, hst⟩, h.blocks, h.first, by simp, fun _ _ => ⟨rfl, rfl⟩, by simp,
      fun _ => ⟨rfl, hcons, fun _ => hunsub hs⟩⟩

theorem inv_reply {C : Chain} {firstHeight : Nat} {s : Sys E} {answer : Option Block} {c : St E}
    (h : Inv C firstHeight s) (hq : s.query = some answer)
    (hc : step s.client (.getBlockResolve answer) = some c) :
    Inv C firstHeight { s with client := c, query := none } := by
  obtain ⟨hloop, hb⟩ := h.asked answer hq
  have hinv := StreamBlocks.inv_step h.client hc
  obtain ⟨-, hcons⟩ := h.client.looping (.inl hloop)
  simp only [step, if_pos hloop] at hc
  cases answer with
  | none =>
    simp only [Option.some.injEq] at hc
    subst hc
    have haw : Awaiting s := .inl hq
    refine inv_afterLoop h hloop ?_ fun hn => (h.unsubscribed hn).2.2 haw
    intro n hn
    obtain ⟨-, m, hm, hcontig, hle⟩ := h.subscribed n hn
    exact ⟨m, hm, hcontig, by simpa [expected, hcons] using hle haw⟩
  | some block =>
    have hblock := hb block rfl
    have hh : blockHeight block = s.client.height := by rw [hblock, C.height]
    simp only [if_pos hh] at hc
    split at hc
    · rename_i hgo
      simp only [Option.some.injEq] at hc
      subst hc
      have hreach : streamReached s.client = true := by simpa [h.live.1] using hgo
      unfold streamReached at hreach
      cases hsq : s.client.streamQueue with
      | nil => simp [hsq] at hreach
      | cons b0 rest =>
        simp only [hsq, decide_eq_true_eq] at hreach
        refine inv_afterLoop h hloop ?_ fun hn => ?_
        · intro n hn
          obtain ⟨-, m, hm, hcontig, -⟩ := h.subscribed n hn
          refine ⟨m, hm, hcontig, ?_⟩
          rw [hsq] at hcontig
          rw [(contig_cons hcontig).1, C.height] at hreach
          simpa using hreach
        · rw [(h.unsubscribed hn).1] at hsq; cases hsq
    · simp only [Option.some.injEq] at hc
      subst hc
      refine ⟨hinv, ?_, ?_, h.first, by simp, by simp, ?_, ?_⟩
      · refine ⟨h.live.1, h.live.2.1, ?_⟩
        have hst := h.live.2.2
        simpa [stopped, Obs.isStop] using hst
      · intro b hb'
        simp only [delivered, Delivery.calls_snoc, Obs.item?, Option.toList, List.mem_append,
          List.mem_singleton] at hb'
        rcases hb' with hb' | rfl
        · exact h.blocks b hb'
        · rw [hh]; exact hblock
      · intro n hn
        obtain ⟨h1, m, h2, h3, -⟩ := h.subscribed n hn
        exact ⟨h1, m, h2, h3, by simp [Awaiting]⟩
      · intro hn
        obtain ⟨h1, h2, -⟩ := h.unsubscribed hn
        exact ⟨h1, h2, by simp [Awaiting]⟩

theorem inv_deliver {C : Chain} {firstHeight : Nat} {s : Sys E} {n : Nat} {c : St E}
    (h : Inv C firstHeight s) (hsub : s.sub = some n) (hn : n ≤ s.committed)
    (hc : step s.client (.commit (C.block n)) = some c) :
    Inv C firstHeight { s with client := c, sub := some (n + 1) } := by
  have hinv := StreamBlocks.inv_step h.client hc
  obtain ⟨he, hse, hst⟩ := h.live
  simp only [step] at hc
  rw [if_neg (by simp [hse])] at hc
  simp only [Option.some.injEq] at hc
  obtain ⟨-, m, hm, hcontig, hle⟩ := h.subscribed n hsub
  unfold streamTryConsume at hc
  split at hc
  · rename_i hlock
    simp only [returnTo] at hc
    subst hc
    refine ⟨hinv, ⟨he, hse, hst⟩, h.blocks, h.first, h.asked, ?_, ?_, by simp⟩
    · intro hl hcons
      rw [(h.free hl hcons).2] at hlock; cases hlock
    · intro n' hn'
      simp only [Option.some.injEq] at hn'
      subst hn'
      refine ⟨by simp only; omega, m, by simp; omega, ?_, hle⟩
      have := contig_snoc hcontig
      rwa [hm] at this
  · rename_i hlock
    have hcons : s.client.consumer = none := by
      by_contra hne
      exact hlock (h.client.locked hne)
    have hl : s.client.loop = .consume ∨ s.client.loop = .returned := by
      cases hl : s.client.loop with
      | getBlock => exact absurd (h.client.looping (.inl hl)).1 hlock
      | onBlock => exact absurd (h.client.looping (.inr hl)).1 hlock
      | consume => exact .inl rfl
      | returned => exact .inr rfl
    obtain ⟨hq, -⟩ := h.free hl hcons
    have hnle : n ≤ s.client.height := by
      have := hle (.inr hl)
      simp only [expected, hcons, Option.isSome_none, Bool.toNat_false] at this
      rw [hq] at hm
      simp only [List.length_nil] at hm
      omega
    have hcontig1 : Contig C n (s.client.streamQueue ++ [C.block n]) := by
      rw [hq]; rfl
    have hquery : s.query = none := by
      cases hqr : s.query with
      | none => rfl
      | some answer => rcases hl with hl | hl <;> rw [(h.asked answer hqr).1] at hl <;> cases hl
    subst hc
    obtain ⟨hcaught, hf, hh, he', hse', hst'⟩ :=
      whileQueue_caught (c := .stream)
        (s := { s.client with streamQueue := s.client.streamQueue ++ [C.block n], onBlockLock := true })
        hcontig1 hnle he hcons h.blocks
    have hlen : n + (s.client.streamQueue ++ [C.block n]).length = n + 1 := by rw [hq]; rfl
    rw [hlen] at hcaught
    rw [hquery]
    exact inv_of_caught hinv ⟨he', hse'.trans hse, hst'.trans hst⟩ hf
      (by rw [hh]; exact h.first) (by omega) hcaught

theorem inv_onBlockResolve {C : Chain} {firstHeight : Nat} {s : Sys E} {c : St E}
    (h : Inv C firstHeight s) (hc : step s.client .onBlockResolve = some c) :
    Inv C firstHeight { s with client := c } := by
  have hinv := StreamBlocks.inv_step h.client hc
  obtain ⟨he, hse, hst⟩ := h.live
  have hquery : s.query = none := by
    cases hqr : s.query with
    | none => rfl
    | some answer =>
      have hl := (h.asked answer hqr).1
      simp [step, hl, (h.client.looping (.inl hl)).2] at hc
  have hfrom : ∀ t : St E, t.log = s.client.log ++ [.resolved] → FromChain C t := by
    intro t ht b hb
    simp only [delivered, ht, Delivery.calls_snoc, Obs.item?, Option.toList, List.append_nil] at hb
    exact h.blocks b hb
  have hstop : ∀ t : St E, t.log = s.client.log ++ [.resolved] → stopped t = false := by
    intro t ht
    unfold stopped at hst ⊢
    rw [ht]
    simpa [Obs.isStop] using hst
  simp only [step] at hc
  split at hc
  · rename_i hloop
    simp only [Option.some.injEq] at hc
    subst hc
    have hnot : ¬ Awaiting { s with
        client := { s.client with
          loop := .getBlock, height := s.client.height + 1, log := s.client.log ++ [.resolved] } } := by
      simp [Awaiting, hquery]
    refine ⟨hinv, ⟨he, hse, hstop _ rfl⟩, hfrom _ rfl, Nat.le_succ_of_le h.first,
      by simp [hquery], by simp, ?_, ?_⟩
    · intro n hn
      obtain ⟨h1, m, h2, h3, -⟩ := h.subscribed n hn
      exact ⟨h1, m, h2, h3, fun ha => absurd ha hnot⟩
    · intro hn
      obtain ⟨h1, h2, -⟩ := h.unsubscribed hn
      exact ⟨h1, h2, fun ha => absurd ha hnot⟩
  · cases hcons : s.client.consumer with
    | none => simp [hcons] at hc
    | some caller =>
      simp only [hcons, Option.some.injEq] at hc
      subst hc
      obtain ⟨hlock, -, hl⟩ := consumer_pending h.client hcons
      have haw : Awaiting s := by
        cases caller with
        | backfill => exact .inr (.inl hl)
        | stream => exact .inr (.inr hl)
      cases hsub : s.sub with
      | none => rw [(h.unsubscribed hsub).2.1] at hcons; cases hcons
      | some n =>
        obtain ⟨hn, m, hm, hcontig, hle⟩ := h.subscribed n hsub
        have hmle : m ≤ s.client.height + 1 := by simpa [expected, hcons] using hle haw
        obtain ⟨hcaught, hf, hh, he', hse', hst'⟩ :=
          whileQueue_caught (c := caller)
            (s := { s.client with
              consumer := none, height := s.client.height + 1, log := s.client.log ++ [.resolved] })
            hcontig hmle he rfl (hfrom _ rfl)
        rw [hm] at hcaught
        rw [hquery]
        exact inv_of_caught hinv ⟨he', hse'.trans hse, hst'.trans (hstop _ rfl)⟩ hf
          (by rw [hh]; exact Nat.le_succ_of_le h.first) hn hcaught

theorem inv_init {C : Chain} {firstHeight : Nat} {s : Sys E} (hs : Init firstHeight s) :
    Inv C firstHeight s := by
  obtain ⟨n, rfl⟩ := hs
  refine ⟨StreamBlocks.inv_init firstHeight, ⟨rfl, rfl, rfl⟩, ?_, Nat.le_refl _, by simp [opened],
    ?_, by simp [opened], fun _ => ⟨rfl, rfl, ?_⟩⟩
  · intro b hb; simp [delivered, opened, StreamBlocks.init, Delivery.calls] at hb
  · simp [opened, StreamBlocks.init]
  · simp [Awaiting, opened, StreamBlocks.init]

theorem inv_step {C : Chain} {firstHeight : Nat} {s s' : Sys E} {l : Lbl} (hF : 1 ≤ firstHeight)
    (h : Inv C firstHeight s) (ht : OnTime s l) (hs : sysStep C s l = some s') :
    Inv C firstHeight s' := by
  cases move_of_step hs with
  | commit =>
    refine ⟨h.client, h.live, h.blocks, h.first, h.asked, h.free, ?_, ?_⟩
    · intro n hn
      obtain ⟨h1, h2⟩ := h.subscribed n hn
      exact ⟨Nat.le_succ_of_le h1, h2⟩
    · intro hn
      obtain ⟨h1, h2, h3⟩ := h.unsubscribed hn
      refine ⟨h1, h2, fun ha => ?_⟩
      -- the awaited height is not the one being committed
      obtain ⟨hlt, hmem⟩ := h3 ha
      have hne : s.committed + 1 ≠ s.client.height := by
        intro e
        apply ht rfl hn
        rw [e]; exact hmem
      exact ⟨by simp only; omega, hmem⟩
  | evaluate hloop hq =>
    have hF' := h.first
    obtain ⟨-, hcons⟩ := h.client.looping (.inl hloop)
    have hnull : getBlock C s.committed s.client.height = none → s.committed < s.client.height := by
      intro hn
      unfold getBlock at hn
      split at hn
      · cases hn
      · omega
    have haw : ∀ nulls, Awaiting { s with
        query := some (getBlock C s.committed s.client.height), answeredNull := nulls } →
        getBlock C s.committed s.client.height = none := by
      intro nulls ha
      rcases ha with ha | ha | ha
      · simpa using ha
      · rw [hloop] at ha; cases ha
      · rw [hloop] at ha; cases ha
    refine ⟨h.client, h.live, h.blocks, h.first, ?_, h.free, ?_, ?_⟩
    · intro answer ha
      simp only [Option.some.injEq] at ha
      subst ha
      refine ⟨hloop, fun b hb => ?_⟩
      unfold getBlock at hb
      split at hb
      · exact (Option.some.inj hb).symm
      · cases hb
    · intro n hn
      obtain ⟨h1, m, h2, h3, -⟩ := h.subscribed n hn
      refine ⟨h1, m, h2, h3, fun ha => ?_⟩
      have := hnull (haw _ ha)
      simp only [expected, hcons, Option.isSome_none, Bool.toNat_false]
      omega
    · intro hn
      obtain ⟨h1, h2, -⟩ := h.unsubscribed hn
      refine ⟨h1, h2, fun ha => ?_⟩
      have hnone := haw _ ha
      exact ⟨hnull hnone, by simp [hnone]⟩
  | reply answer c hq hc => exact inv_reply h hq hc
  | subscribe hsub =>
    obtain ⟨h1, h2, h3⟩ := h.unsubscribed hsub
    refine ⟨h.client, h.live, h.blocks, h.first, h.asked, h.free, ?_, by simp⟩
    intro n hn
    simp only [Option.some.injEq] at hn
    subst hn
    refine ⟨Nat.le_refl _, s.committed + 1, by simp [h1], by simp [Contig, h1], fun ha => ?_⟩
    have := (h3 ha).1
    simp only [expected, h2, Option.isSome_none, Bool.toNat_false]
    omega
  | deliver n c hsub hn hc => exact inv_deliver h hsub hn hc
  | onBlockResolve c hc => exact inv_onBlockResolve h hc

theorem inv_inductive (C : Chain) (firstHeight : Nat) (hF : 1 ≤ firstHeight) :
    ((sys E C firstHeight).restrict OnTime).Inductive (Inv C firstHeight) where
  init _ hs := inv_init hs
  step _ _ _ h hs := inv_step hF h hs.1 hs.2

/-! ## No block is lost -/

/-- **No loss.** In every run in which no block is committed whose height
`getBlock` has answered null before the subscription took effect: whenever
the stream is idle, every committed block from `firstHeight` on has been
passed to `onBlock`. -/
theorem streamBlocks_complete (C : Chain) (firstHeight : Nat) (hF : 1 ≤ firstHeight) (s : Sys E)
    (hr : ((sys E C firstHeight).restrict OnTime).Reachable s) (hidle : Idle s) :
    NothingMissing C firstHeight s := by
  have hI := (inv_inductive C firstHeight hF).reachable s hr
  obtain ⟨hget, hbusy, hsub⟩ := hidle
  have hb : s.client.loop ≠ .onBlock ∧ s.client.consumer = none := by
    simpa [busy] using hbusy
  have hl : s.client.loop = .consume ∨ s.client.loop = .returned := by
    cases hl : s.client.loop with
    | getBlock => exact absurd hl hget
    | onBlock => exact absurd hl hb.1
    | consume => exact .inl rfl
    | returned => exact .inr rfl
  have hlt : s.committed < s.client.height := by
    cases hs : s.sub with
    | none => exact ((hI.unsubscribed hs).2.2 (.inr hl)).1
    | some n =>
      obtain ⟨-, m, hm, -, hle⟩ := hI.subscribed n hs
      have h1 := hle (.inr hl)
      have h2 := hsub n hs
      simp only [expected, hb.2, Option.isSome_none, Bool.toNat_false] at h1
      rw [(hI.free hl hb.2).1] at hm
      simp only [List.length_nil] at hm
      omega
  intro h h1 h2
  obtain ⟨b, hmem, hk⟩ := Delivery.calls_below_next hI.client.accepted hbusy hI.live.2.2
    (k := h) h1 (by simp only [delivery]; omega)
  rw [hI.blocks b hmem, hk] at hmem
  exact hmem

def blankChain : Chain := ⟨fun h => ⟨h, 0, "", []⟩, fun _ => rfl⟩

instance (s : Sys E) (l : Lbl) : Decidable (OnTime s l) :=
  inferInstanceAs (Decidable (l = .commit → s.sub = none → s.committed + 1 ∉ s.answeredNull))

/-- The subscription is in effect when block 1 is committed, though
`getBlock(1)` has been answered null. -/
def subscribedFirst : List Lbl := [.evaluate, .subscribe, .commit, .reply, .deliver, .onBlockResolve]

theorem streamBlocks_complete_subscribedFirst :
    ∃ s : Sys Unit, s.committed = 1 ∧ ((sys Unit blankChain 1).restrict OnTime).Reachable s ∧
      NothingMissing blankChain 1 s := by
  have hrun : LTS.exec (LTS.guarded OnTime (sysStep blankChain)) (opened 1 0 : Sys Unit)
      subscribedFirst = some _ := rfl
  have hr : ((sys Unit blankChain 1).restrict OnTime).Reachable _ :=
    LTS.restrict_reachable_of_exec ⟨0, rfl⟩ hrun
  exact ⟨_, rfl, hr, streamBlocks_complete blankChain 1 (by decide) _ hr
    ⟨by decide, by decide, by decide⟩⟩

/-- `getBlock(1)` is answered null, block 1 is committed, and only then does
the subscription take effect: block 1 is committed and the stream idle. -/
def tooLate : List Lbl := [.evaluate, .commit, .subscribe, .reply]

theorem streamBlocks_loses_tooLate :
    ¬ ∀ s : Sys Unit, (sys Unit blankChain 1).Reachable s → Idle s → NothingMissing blankChain 1 s := by
  intro h
  have hrun : LTS.exec (sysStep blankChain) (opened 1 0 : Sys Unit) tooLate = some _ := rfl
  have hr : (sys Unit blankChain 1).Reachable _ := LTS.reachable_of_exec ⟨0, rfl⟩ hrun
  have hmem := h _ hr ⟨by decide, by decide, by decide⟩ 1 (by decide) (by decide)
  exact absurd hmem (by decide)

end Explorer.Iroha.StreamServer
