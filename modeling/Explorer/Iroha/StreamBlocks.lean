import Explorer.Core.LTS
import Explorer.Core.Delivery
import Explorer.Iroha.Proto

/-!
# `IrohaApi.streamBlocks`

Two asynchronous producers share `height`, `streamQueue`, `onBlockLock` and
`end`: the back-fill loop, which asks `getBlock(height)` until the answer is
null or the stream has caught up, and the commit stream, whose blocks are
queued and consumed by `streamTryConsume` once the loop has released the
lock. Every `await` is an interleaving point; between two awaits the code
runs without interruption. A state is what is left in memory at an `await`,
an event (`Ev`) the completion that resumes one of the awaiting functions,
and `step` runs the resumed function to its next `await`.

The loop is at one `await` (`LoopPc`); `streamTryConsume` awaits only
`onBlock`, and `consumer` says which of its callers it then belongs to.

`log` is a ghost: the observations (`Delivery.Obs`) of the run so far.

* `inv_inductive`: the log of every run is accepted by the delivery
  specification, in the state read off `height`, the pending calls and the
  flags.
* `streamBlocks_delivers`: the blocks passed to `onBlock` have the heights
  `firstHeight, firstHeight + 1, …`, one unfinished call at a time, none
  after `end()` or after a rejection.
-/
namespace Explorer.Iroha.StreamBlocks

open Delivery (Obs)

/-- A promise and how it settled. -/
inductive Settled (E : Type) where
  | pending
  | resolved
  | rejected (error : E)
  deriving DecidableEq, Repr

/-- The `await` at which the back-fill function stands. -/
inductive LoopPc where
  | getBlock
  | onBlock
  | consume
  | returned
  deriving DecidableEq, Repr

/-- Who called the `streamTryConsume()` that is awaiting `onBlock`. -/
inductive Caller where
  | backfill
  | stream
  deriving DecidableEq, Repr

/-- `E` is the type of rejection values. `streamEnd` is `end` of
`fetchCommits`, `stream` its promise. -/
structure St (E : Type) where
  height : Nat
  ended : Bool
  result : Option E
  onBlockLock : Bool
  streamQueue : List Block
  loop : LoopPc
  consumer : Option Caller
  streamEnd : Bool
  stream : Settled E
  /-- ghost: what has been seen of the run -/
  log : List (Obs Block)
  deriving DecidableEq, Repr

/-- A completion that resumes an awaiting function, or a call of `end()`.
`commit`, `blockErrorResponse` and `streamError` are the events of the gRPC
stream. -/
inductive Ev (E : Type) where
  | getBlockResolve (block : Option Block)
  | getBlockReject (error : E)
  | onBlockResolve
  | onBlockReject (error : E)
  | commit (block : Block)
  | blockErrorResponse (error : E)
  | streamError (cancelled : Bool) (error : E)
  | endCall
  deriving DecidableEq, Repr

variable {E : Type}

/-- After the synchronous part of `streamBlocks`: the stream is open and the
loop awaits its first `getBlock`.
mirrors iroha/src/iroha-api.ts:31-36,63-67 -/
def init (firstHeight : Nat) : St E where
  height := firstHeight
  ended := false
  result := none
  onBlockLock := true
  streamQueue := []
  loop := .getBlock
  consumer := none
  streamEnd := false
  stream := .pending
  log := []

/-- `streamTryConsume` returns to its caller. -/
def returnTo (s : St E) : Caller → St E
  | .backfill => { s with loop := .returned }
  | .stream => s

/-- `while (streamQueue.length)` up to the next `await onBlock(block)`, the
`return` on `end`, or the release of the lock on an empty queue.
mirrors iroha/src/iroha-api.ts:45-55 -/
def whileQueue (c : Caller) : List Block → St E → St E
  | [], s => returnTo { s with streamQueue := [], onBlockLock := false } c
  | block :: queue, s =>
    if s.ended then returnTo { s with streamQueue := queue } c
    else if blockHeight block = s.height then
      { s with streamQueue := queue, consumer := some c, log := s.log ++ [.call block] }
    else whileQueue c queue s

/-- mirrors iroha/src/iroha-api.ts:41-61 -/
def streamTryConsume (c : Caller) (s : St E) : St E :=
  if s.onBlockLock then returnTo s c
  else whileQueue c s.streamQueue { s with onBlockLock := true }

/-- The loop was left by `break`.
mirrors iroha/src/iroha-api.ts:74,80-82 -/
def afterLoop (s : St E) : St E :=
  if s.ended then { s with onBlockLock := false, loop := .returned }
  else streamTryConsume .backfill { s with onBlockLock := false, loop := .consume }

/-- `streamQueue.length && blockHeight(streamQueue[0]) <= height`. -/
def streamReached (s : St E) : Bool :=
  match s.streamQueue with
  | [] => false
  | block :: _ => decide (blockHeight block ≤ s.height)

/-- `result = error; stream.end()` in either `catch`.
mirrors iroha/src/iroha-api.ts:56-59,75-79 -/
def failed (s : St E) (error : E) : St E := { s with result := some error, streamEnd := true }

/-- A promise settles once. -/
def Settled.settle (p : Settled E) (q : Settled E) : Settled E :=
  match p with
  | .pending => q
  | p => p

/-- The resumed function runs to its next `await`. `none`: nothing awaits
that completion. A reply to `getBlock(height)` carries a block of that
height.
mirrors iroha/src/iroha-api.ts:31-121 -/
def step (s : St E) : Ev E → Option (St E)
  | .getBlockResolve reply =>
    if s.loop = .getBlock then
      match reply with
      | none => some (afterLoop s)
      | some block =>
        if blockHeight block = s.height then
          if s.ended ∨ streamReached s then some (afterLoop s)
          else some { s with loop := .onBlock, log := s.log ++ [.call block] }
        else none
    else none
  | .getBlockReject error =>
    if s.loop = .getBlock then
      some { failed s error with loop := .returned, log := s.log ++ [.stopped] }
    else none
  | .onBlockResolve =>
    if s.loop = .onBlock then
      some { s with loop := .getBlock, height := s.height + 1, log := s.log ++ [.resolved] }
    else
      match s.consumer with
      | some c =>
        some (whileQueue c s.streamQueue
          { s with consumer := none, height := s.height + 1, log := s.log ++ [.resolved] })
      | none => none
  | .onBlockReject error =>
    if s.loop = .onBlock then
      some { failed s error with loop := .returned, log := s.log ++ [.rejected] }
    else
      match s.consumer with
      | some c =>
        some (returnTo { failed s error with consumer := none, log := s.log ++ [.rejected] } c)
      | none => none
  | .commit block =>
    if s.streamEnd then some s
    else some (streamTryConsume .stream { s with streamQueue := s.streamQueue ++ [block] })
  | .blockErrorResponse error => some { s with stream := s.stream.settle (.rejected error) }
  | .streamError cancelled error =>
    some { s with stream := s.stream.settle (if cancelled then .resolved else .rejected error) }
  | .endCall => some { s with ended := true, streamEnd := true, log := s.log ++ [.stopped] }

def lts (E : Type) (firstHeight : Nat) : LTS (St E) (Ev E) := LTS.ofFn (· = init firstHeight) step

/-! ## Invariant -/

/-- Some `onBlock` call is pending. -/
def busy (s : St E) : Bool := decide (s.loop = .onBlock) || s.consumer.isSome

/-- `end()` was called, or `getBlock` or `onBlock` was rejected. -/
def stopped (s : St E) : Bool := s.log.any Obs.isStop

/-- The delivery state the program is in. -/
def delivery (s : St E) : Delivery.St := ⟨s.height, busy s, stopped s⟩

def Accepted (firstHeight : Nat) (s : St E) : Prop :=
  Delivery.accepts blockHeight (Delivery.init firstHeight) s.log = some (delivery s)

/-- The lock is held for good: no one holds it who would release it. -/
def Dead (s : St E) : Prop := s.onBlockLock = true ∧ s.loop = .returned ∧ s.consumer = none

structure Inv (firstHeight : Nat) (s : St E) : Prop where
  accepted : Accepted firstHeight s
  looping : s.loop = .getBlock ∨ s.loop = .onBlock → s.onBlockLock = true ∧ s.consumer = none
  locked : s.consumer ≠ none → s.onBlockLock = true
  backfill : s.loop = .consume ↔ s.consumer = some .backfill
  stop : stopped s = true → s.ended = true ∨ Dead s

/-- Where the loop stands while a `streamTryConsume()` of that caller runs. -/
def Caller.loop : Caller → LoopPc
  | .backfill => .consume
  | .stream => .returned

/-- `streamTryConsume` holds the lock and has no call pending. -/
structure Ready (firstHeight : Nat) (c : Caller) (s : St E) : Prop where
  accepted : Accepted firstHeight s
  lock : s.onBlockLock = true
  consumer : s.consumer = none
  loop : s.loop = c.loop
  stop : stopped s = true → s.ended = true

/-- What one pass over the queue can do: return on `end`, call `onBlock` with
the first block of the awaited height, or drop everything and unlock. -/
theorem whileQueue_cases (c : Caller) (queue : List Block) (s : St E) :
    (s.ended = true ∧ ∃ rest, whileQueue c queue s = returnTo { s with streamQueue := rest } c) ∨
    (s.ended = false ∧ ∃ pre block rest, queue = pre ++ block :: rest ∧
      (∀ b ∈ pre, blockHeight b ≠ s.height) ∧ blockHeight block = s.height ∧
      whileQueue c queue s =
        { s with streamQueue := rest, consumer := some c, log := s.log ++ [.call block] }) ∨
    ((s.ended = false ∨ queue = []) ∧ (∀ b ∈ queue, blockHeight b ≠ s.height) ∧
      whileQueue c queue s = returnTo { s with streamQueue := [], onBlockLock := false } c) := by
  induction queue with
  | nil => right; right; simp [whileQueue]
  | cons b queue ih =>
    simp only [whileQueue]
    by_cases he : s.ended = true
    · left; exact ⟨he, queue, by rw [if_pos he]⟩
    · rw [if_neg he]
      right
      split
      · rename_i hb
        left; exact ⟨by simpa using he, [], b, queue, rfl, by simp, hb, rfl⟩
      · rename_i hb
        rcases ih with ⟨he', -⟩ | ⟨he', pre, block, rest, rfl, hpre, hblock, e⟩ | ⟨-, hq, e⟩
        · exact absurd he' he
        · left
          refine ⟨he', b :: pre, block, rest, rfl, ?_, hblock, e⟩
          intro x hx
          rcases List.mem_cons.1 hx with rfl | hx
          · exact hb
          · exact hpre x hx
        · right
          refine ⟨.inl (by simpa using he), ?_, e⟩
          intro x hx
          rcases List.mem_cons.1 hx with rfl | hx
          · exact hb
          · exact hq x hx

theorem accepted_snoc {firstHeight : Nat} {s s' : St E} {o : Obs Block}
    (h : Accepted firstHeight s) (hlog : s'.log = s.log ++ [o])
    (ho : Delivery.accept blockHeight (delivery s) o = some (delivery s')) : Accepted firstHeight s' := by
  unfold Accepted at h ⊢
  rw [hlog, Delivery.accepts_snoc, h]
  exact ho

/-- `streamTryConsume` has returned, with the lock released or kept. -/
theorem inv_returnTo {firstHeight : Nat} {c : Caller} {s : St E} (rest : List Block) (lock : Bool)
    (h : Ready firstHeight c s) :
    Inv firstHeight (returnTo { s with streamQueue := rest, onBlockLock := lock } c) := by
  obtain ⟨ha, -, hcons, hloop, hstop⟩ := h
  have hb : busy s = false := by cases c <;> simp [busy, hcons, hloop, Caller.loop]
  unfold Accepted delivery at ha
  rw [hb] at ha
  cases c with
  | backfill =>
    refine ⟨?_, by simp [returnTo], by simp [returnTo, hcons], by simp [returnTo, hcons],
      fun hs => .inl (hstop hs)⟩
    simpa [Accepted, delivery, busy, stopped, returnTo, hcons] using ha
  | stream =>
    simp only [Caller.loop] at hloop
    refine ⟨?_, by simp [returnTo, hloop], by simp [returnTo, hcons], by simp [returnTo, hloop, hcons],
      fun hs => .inl (hstop hs)⟩
    simpa [Accepted, delivery, busy, stopped, returnTo, hloop, hcons] using ha

theorem inv_whileQueue {firstHeight : Nat} {c : Caller} {s : St E} (queue : List Block)
    (h : Ready firstHeight c s) : Inv firstHeight (whileQueue c queue s) := by
  rcases whileQueue_cases c queue s with ⟨-, rest, e⟩ | ⟨he, -, block, rest, -, -, hblock, e⟩ |
    ⟨-, -, e⟩
  · rw [e]; exact inv_returnTo rest s.onBlockLock h
  · obtain ⟨ha, hlock, hcons, hloop, hstop⟩ := h
    have hb : busy s = false := by cases c <;> simp [busy, hcons, hloop, Caller.loop]
    have hns : stopped s = false := by
      cases hs : stopped s with
      | false => rfl
      | true => rw [hstop hs] at he; cases he
    have hns' : s.log.any Obs.isStop = false := hns
    rw [e]
    refine ⟨accepted_snoc ha rfl ?_, ?_, fun _ => hlock, ?_, ?_⟩
    · simp only [Delivery.accept, delivery, hb, hns, hblock, and_self, if_true]
      simp [busy, stopped, hns', Obs.isStop]
    · cases c <;> simp [hloop, Caller.loop]
    · cases c <;> simp [hloop, Caller.loop]
    · intro hs
      simp [stopped, hns', Obs.isStop] at hs
  · rw [e]; exact inv_returnTo [] false h

theorem inv_init (firstHeight : Nat) : Inv firstHeight (init firstHeight : St E) := by
  constructor <;> simp [init, Accepted, delivery, busy, stopped, Delivery.init]

theorem not_stopped {firstHeight : Nat} {s : St E} (h : Inv firstHeight s) (he : s.ended = false)
    (hd : ¬ Dead s) : stopped s = false := by
  cases hs : stopped s with
  | false => rfl
  | true =>
    rcases h.stop hs with h1 | h1
    · rw [he] at h1; cases h1
    · exact absurd h1 hd

theorem inv_afterLoop {firstHeight : Nat} {s : St E} (h : Inv firstHeight s)
    (hloop : s.loop = .getBlock) : Inv firstHeight (afterLoop s) := by
  obtain ⟨hlock, hcons⟩ := h.looping (.inl hloop)
  have hstop : stopped s = true → s.ended = true := by
    intro hs
    rcases h.stop hs with h1 | h1
    · exact h1
    · rw [h1.2.1] at hloop; cases hloop
  have ha := h.accepted
  unfold afterLoop
  split
  · rename_i he
    refine ⟨?_, by simp, by simp [hcons], by simp [hcons], fun _ => .inl he⟩
    simpa [Accepted, delivery, busy, stopped, hloop, hcons] using ha
  · simp only [streamTryConsume, Bool.false_eq_true, if_false]
    apply inv_whileQueue
    refine ⟨?_, rfl, hcons, rfl, hstop⟩
    simpa [Accepted, delivery, busy, stopped, hloop, hcons] using ha

/-- Who awaits `onBlock` or has not left the loop holds the lock. -/
theorem unlocked {firstHeight : Nat} {s : St E} (h : Inv firstHeight s)
    (hlock : s.onBlockLock = false) : s.consumer = none ∧ s.loop = .returned := by
  obtain ⟨-, h2, h3, h4, -⟩ := h
  have hcons : s.consumer = none := by
    by_contra hc
    rw [h3 hc] at hlock; cases hlock
  refine ⟨hcons, ?_⟩
  cases hl : s.loop with
  | getBlock => rw [(h2 (.inl hl)).1] at hlock; cases hlock
  | onBlock => rw [(h2 (.inr hl)).1] at hlock; cases hlock
  | consume => rw [h4.1 hl] at hcons; cases hcons
  | returned => rfl

/-- A block handed over by the commit stream is queued; it is consumed at
once when nobody holds the lock. -/
theorem inv_commit {firstHeight : Nat} {s : St E} (h : Inv firstHeight s) (block : Block) :
    Inv firstHeight
      (streamTryConsume .stream { s with streamQueue := s.streamQueue ++ [block] }) := by
  have ha := h.accepted
  unfold streamTryConsume
  split
  · exact ⟨ha, h.looping, h.locked, h.backfill, h.stop⟩
  · rename_i hlock
    simp only [Bool.not_eq_true] at hlock
    obtain ⟨hcons, hloop⟩ := unlocked h hlock
    apply inv_whileQueue
    refine ⟨?_, rfl, hcons, hloop, ?_⟩
    · simpa [Accepted, delivery, busy, stopped, hloop, hcons] using ha
    · intro hs
      rcases h.stop hs with h1 | h1
      · exact h1
      · rw [h1.1] at hlock; cases hlock

/-- `onBlock` resolved or rejected for a call of `streamTryConsume`. -/
theorem consumer_pending {firstHeight : Nat} {s : St E} (h : Inv firstHeight s) {c : Caller}
    (hc : s.consumer = some c) :
    s.onBlockLock = true ∧ busy s = true ∧ s.loop = c.loop := by
  obtain ⟨-, h2, h3, h4, -⟩ := h
  refine ⟨h3 (by simp [hc]), by simp [busy, hc], ?_⟩
  cases c with
  | backfill => exact h4.2 hc
  | stream =>
    cases hl : s.loop with
    | getBlock => rw [(h2 (.inl hl)).2] at hc; cases hc
    | onBlock => rw [(h2 (.inr hl)).2] at hc; cases hc
    | consume => rw [h4.1 hl] at hc; cases hc
    | returned => rfl

theorem inv_onBlockResolve {firstHeight : Nat} {s s' : St E} (h : Inv firstHeight s)
    (hs : step s .onBlockResolve = some s') : Inv firstHeight s' := by
  simp only [step] at hs
  split at hs
  · rename_i hloop
    obtain ⟨hlock, hcons⟩ := h.looping (.inr hloop)
    simp only [Option.some.injEq] at hs
    subst hs
    refine ⟨accepted_snoc h.accepted rfl ?_, fun _ => ⟨hlock, hcons⟩, fun _ => hlock,
      by simp [hcons], ?_⟩
    · simp [Delivery.accept, delivery, busy, hloop, hcons, stopped, Obs.isStop]
    · intro hst
      rcases h.stop (by simpa [stopped, Obs.isStop] using hst) with h1 | h1
      · exact .inl h1
      · rw [h1.2.1] at hloop; cases hloop
  · rename_i hloop
    cases hc : s.consumer with
    | none => simp [hc] at hs
    | some c =>
      simp only [hc, Option.some.injEq] at hs
      subst hs
      obtain ⟨hlock, hbusy, hl⟩ := consumer_pending h hc
      apply inv_whileQueue
      refine ⟨accepted_snoc h.accepted rfl ?_, hlock, rfl, hl, ?_⟩
      · have hb' : decide (s.loop = .onBlock) = false := by simpa using hloop
        simp [Delivery.accept, delivery, busy, hc, hb', stopped, Obs.isStop]
      · intro hst
        rcases h.stop (by simpa [stopped, Obs.isStop] using hst) with h1 | h1
        · exact h1
        · rw [h1.2.2] at hc; cases hc

theorem inv_onBlockReject {firstHeight : Nat} {s s' : St E} {error : E} (h : Inv firstHeight s)
    (hs : step s (.onBlockReject error) = some s') : Inv firstHeight s' := by
  simp only [step] at hs
  split at hs
  · rename_i hloop
    obtain ⟨hlock, hcons⟩ := h.looping (.inr hloop)
    simp only [Option.some.injEq] at hs
    subst hs
    refine ⟨accepted_snoc h.accepted rfl ?_, by simp, fun _ => hlock, by simp [failed, hcons],
      fun _ => .inr ⟨hlock, rfl, hcons⟩⟩
    simp [Delivery.accept, delivery, busy, hloop, hcons, failed, stopped, Obs.isStop]
  · rename_i hloop
    cases hc : s.consumer with
    | none => simp [hc] at hs
    | some c =>
      simp only [hc, Option.some.injEq] at hs
      subst hs
      obtain ⟨hlock, hbusy, hl⟩ := consumer_pending h hc
      have hret : (returnTo { failed s error with consumer := none, log := s.log ++ [.rejected] } c).loop =
          .returned := by
        cases c with
        | backfill => rfl
        | stream => exact hl
      refine ⟨accepted_snoc h.accepted (by cases c <;> rfl) ?_, by simp [hret], ?_, ?_, ?_⟩
      · cases c <;>
          simp_all [Delivery.accept, delivery, busy, returnTo, failed, stopped, Obs.isStop, Caller.loop]
      · cases c <;> simp [returnTo]
      · cases c <;> simp_all [returnTo, failed, Caller.loop]
      · intro _; right
        refine ⟨?_, hret, ?_⟩
        · cases c <;> exact hlock
        · cases c <;> rfl

theorem inv_step {firstHeight : Nat} {s s' : St E} {e : Ev E} (h : Inv firstHeight s)
    (hs : step s e = some s') : Inv firstHeight s' := by
  cases e with
  | getBlockResolve reply =>
    simp only [step] at hs
    split at hs
    · rename_i hloop
      cases reply with
      | none =>
        simp only [Option.some.injEq] at hs
        subst hs
        exact inv_afterLoop h hloop
      | some block =>
        simp only at hs
        split at hs
        · rename_i hb
          split at hs
          · simp only [Option.some.injEq] at hs
            subst hs
            exact inv_afterLoop h hloop
          · rename_i hgo
            simp only [not_or, Bool.not_eq_true] at hgo
            simp only [Option.some.injEq] at hs
            subst hs
            obtain ⟨hlock, hcons⟩ := h.looping (.inl hloop)
            have hns := not_stopped h hgo.1 (fun hd => by rw [hd.2.1] at hloop; cases hloop)
            have hns' : s.log.any Obs.isStop = false := hns
            refine ⟨accepted_snoc h.accepted rfl ?_, fun _ => ⟨hlock, hcons⟩, fun _ => hlock,
              by simp [hcons], by simp [stopped, hns', Obs.isStop]⟩
            simp [Delivery.accept, delivery, busy, hloop, hcons, hb, stopped, hns', Obs.isStop]
        · cases hs
    · cases hs
  | getBlockReject error =>
    simp only [step] at hs
    split at hs
    · rename_i hloop
      simp only [Option.some.injEq] at hs
      subst hs
      obtain ⟨hlock, hcons⟩ := h.looping (.inl hloop)
      refine ⟨accepted_snoc h.accepted rfl ?_, by simp, fun _ => hlock, by simp [failed, hcons],
        fun _ => .inr ⟨hlock, rfl, hcons⟩⟩
      simp [Delivery.accept, delivery, busy, hloop, hcons, failed, stopped, Obs.isStop]
    · cases hs
  | onBlockResolve => exact inv_onBlockResolve h hs
  | onBlockReject error => exact inv_onBlockReject h hs
  | commit block =>
    simp only [step] at hs
    split at hs
    · simp only [Option.some.injEq] at hs
      subst hs; exact h
    · simp only [Option.some.injEq] at hs
      subst hs
      exact inv_commit h block
  | blockErrorResponse error | streamError cancelled error =>
    simp only [step, Option.some.injEq] at hs
    subst hs
    exact ⟨h.accepted, h.looping, h.locked, h.backfill, h.stop⟩
  | endCall =>
    simp only [step, Option.some.injEq] at hs
    subst hs
    refine ⟨accepted_snoc h.accepted rfl ?_, h.looping, h.locked, h.backfill, fun _ => .inl rfl⟩
    simp [Delivery.accept, delivery, busy, stopped, Obs.isStop]

theorem inv_inductive (firstHeight : Nat) : (lts E firstHeight).Inductive (Inv firstHeight) where
  init s hs := by subst hs; exact inv_init firstHeight
  step _ _ _ h hs := inv_step h hs

/-! ## Delivery -/

/-- The blocks passed to `onBlock` so far, in call order. -/
def delivered (s : St E) : List Block := Delivery.calls s.log

/-- By how much an event advances `height`. -/
def Ev.advance : Ev E → Nat
  | .onBlockResolve => 1
  | _ => 0

/-- From `s` to `s'`, `height` advanced by `k` and then only blocks of the
height reached were passed to `onBlock`. -/
structure Passes (s s' : St E) (k : Nat) : Prop where
  height : s'.height = s.height + k
  calls : ∃ new, delivered s' = delivered s ++ new ∧ ∀ b ∈ new, blockHeight b = s'.height

theorem Passes.of_eq {s s' : St E} {k : Nat} (hheight : s'.height = s.height + k)
    (hcalls : delivered s' = delivered s) : Passes s s' k :=
  ⟨hheight, [], by rw [hcalls, List.append_nil], by simp⟩

/-- A write to the other fields, `height` apart, before the calls. -/
theorem Passes.after {s s₁ s' : St E} {k : Nat} (h : Passes s₁ s' 0)
    (hheight : s₁.height = s.height + k) (hcalls : delivered s₁ = delivered s) : Passes s s' k := by
  obtain ⟨hh, new, hc, hb⟩ := h
  exact ⟨by rw [hh, hheight]; rfl, new, by rw [hc, hcalls], hb⟩

theorem passes_returnTo (s : St E) (c : Caller) : Passes s (returnTo s c) 0 := by
  cases c <;> exact .of_eq rfl rfl

theorem passes_whileQueue (c : Caller) (queue : List Block) (s : St E) :
    Passes s (whileQueue c queue s) 0 := by
  rcases whileQueue_cases c queue s with ⟨-, rest, e⟩ | ⟨-, pre, block, rest, -, -, hblock, e⟩ |
    ⟨-, -, e⟩
  · rw [e]
    exact (passes_returnTo _ c).after rfl rfl
  · rw [e]
    refine ⟨rfl, [block], by simp [delivered, Delivery.calls_snoc, Delivery.Obs.item?], ?_⟩
    simpa using hblock
  · rw [e]
    exact (passes_returnTo _ c).after rfl rfl

theorem passes_streamTryConsume (c : Caller) (s : St E) : Passes s (streamTryConsume c s) 0 := by
  unfold streamTryConsume
  split
  · exact passes_returnTo s c
  · exact (passes_whileQueue c _ _).after rfl rfl

theorem passes_afterLoop (s : St E) : Passes s (afterLoop s) 0 := by
  unfold afterLoop
  split
  · exact .of_eq rfl rfl
  · exact (passes_streamTryConsume _ _).after rfl rfl

/-- `height` advances when a call resolves, and a call that starts is for a
block of that height. -/
theorem passes_step {s s' : St E} {e : Ev E} (hs : step s e = some s') : Passes s s' e.advance := by
  have hlog : ∀ (o : Obs Block), o.item? = none → Delivery.calls (s.log ++ [o]) = delivered s := by
    intro o ho
    rw [Delivery.calls_snoc, ho]
    exact List.append_nil _
  cases e with
  | getBlockResolve reply =>
    simp only [step] at hs
    split at hs
    · cases reply with
      | none =>
        cases hs
        exact passes_afterLoop s
      | some block =>
        simp only at hs
        split at hs
        · rename_i hblock
          split at hs
          · cases hs
            exact passes_afterLoop s
          · cases hs
            refine ⟨rfl, [block], by simp [delivered, Delivery.calls_snoc, Delivery.Obs.item?], ?_⟩
            simpa using hblock
        · cases hs
    · cases hs
  | getBlockReject error =>
    simp only [step] at hs
    split at hs
    · cases hs
      exact .of_eq rfl (hlog _ rfl)
    · cases hs
  | onBlockResolve =>
    simp only [step] at hs
    split at hs
    · cases hs
      exact .of_eq rfl (hlog _ rfl)
    · cases hc : s.consumer with
      | none => simp [hc] at hs
      | some c =>
        simp only [hc, Option.some.injEq] at hs
        subst hs
        exact (passes_whileQueue c _ _).after rfl (hlog _ rfl)
  | onBlockReject error =>
    simp only [step] at hs
    split at hs
    · cases hs
      exact .of_eq rfl (hlog _ rfl)
    · cases hc : s.consumer with
      | none => simp [hc] at hs
      | some c =>
        simp only [hc, Option.some.injEq] at hs
        subst hs
        exact (passes_returnTo _ c).after rfl (hlog _ rfl)
  | commit block =>
    simp only [step] at hs
    split at hs
    · cases hs
      exact .of_eq rfl rfl
    · cases hs
      exact (passes_streamTryConsume _ _).after rfl rfl
  | blockErrorResponse error | streamError cancelled error =>
    cases hs
    exact .of_eq rfl rfl
  | endCall =>
    cases hs
    exact .of_eq rfl (hlog _ rfl)

/-- **In order, once, one at a time.** In every run: the blocks passed to
`onBlock` have the heights `firstHeight, firstHeight + 1, …`; at most one
call is unfinished; a call starts only after every earlier one has resolved,
and none starts after `end()` or after `getBlock` or `onBlock` was rejected. -/
theorem streamBlocks_delivers (firstHeight : Nat) (s : St E)
    (hr : (lts E firstHeight).Reachable s) :
    (delivered s).map blockHeight = List.range' firstHeight (delivered s).length ∧
    Delivery.unsettled s.log ≤ 1 ∧
    ∀ pre block post, s.log = pre ++ .call block :: post →
      (Delivery.calls pre).length = pre.countP Obs.isResolved ∧ pre.any Obs.isStop = false := by
  have h := ((inv_inductive firstHeight).reachable s hr).accepted
  refine ⟨Delivery.calls_keys h, Delivery.unsettled_le_one h, fun pre block post e => ?_⟩
  unfold Accepted at h
  rw [e] at h
  exact Delivery.call_after h

/-- The first block from `getBlock`, the second from the stream, then
`end()` while the second call is pending. -/
def handOver : List (Ev String) :=
  let block (height : Nat) : Block := ⟨height, 0, "", []⟩
  [.getBlockResolve (some (block 1)), .commit (block 2), .onBlockResolve,
    .getBlockResolve (some (block 2)), .endCall, .commit (block 3), .onBlockResolve]

theorem streamBlocks_delivers_handOver :
    ∃ s : St String, LTS.exec step (init 1) handOver = some s ∧
      (delivered s).map blockHeight = [1, 2] ∧ Delivery.unsettled s.log ≤ 1 := by
  refine ⟨_, rfl, by decide, ?_⟩
  have hrun : LTS.exec step (init 1) handOver = some _ := rfl
  exact (streamBlocks_delivers 1 _ (LTS.reachable_of_exec rfl hrun)).2.1

end Explorer.Iroha.StreamBlocks
