import Explorer.Iroha.StreamBlocks

/-!
# When the promise of `streamBlocks` settles

The promise is `Promise.all` of the back-fill task, which never rejects, and
of the stream's promise, followed by `result && Promise.reject(result)`. An
`onBlock` call made for a commit is part of neither, and a stream that fails
does not stop the back-fill.

`Call` is a run of `streamBlocks` with its promise: settled as soon as it can
be, and for good. `truthy` tells which rejection values are not falsy.

* `Final`: what has to hold once the promise has settled.
* `leavesNothing`: what every step has to meet for that.
* `settlement_is_final_iff`: the outcome, for every run.
-/
namespace Explorer.Iroha.StreamBlocks

open Delivery (Obs)

variable {E : Type} (truthy : E → Bool)

structure Call (E : Type) where
  s : St E
  promise : Settled E
  /-- ghost: `getBlock`, `onBlock` or the stream has failed -/
  failed : Bool
  deriving DecidableEq, Repr

/-- `result && Promise.reject(result)`.
mirrors iroha/src/iroha-api.ts:85 -/
def settleResult (s : St E) : Settled E :=
  match s.result with
  | some error => if truthy error then .rejected error else .resolved
  | none => .resolved

/-- `Promise.all` rejects with the stream, and resolves when the back-fill
has returned as well.
mirrors iroha/src/iroha-api.ts:63-85 -/
def joined (s : St E) : Settled E :=
  match s.stream with
  | .pending => .pending
  | .rejected error => .rejected error
  | .resolved => if s.loop = .returned then settleResult truthy s else .pending

/-- A gRPC stream fails once, while it is open. -/
def Ev.fails (s : St E) : Ev E → Bool
  | .getBlockReject _ | .onBlockReject _ => true
  | .blockErrorResponse _ | .streamError false _ =>
    match s.stream with
    | .pending => true
    | _ => false
  | _ => false

def Call.step (c : Call E) (e : Ev E) : Option (Call E) :=
  (StreamBlocks.step c.s e).map fun s =>
    { s := s, promise := c.promise.settle (joined truthy s), failed := c.failed || e.fails c.s }

def Call.init (firstHeight : Nat) : Call E := ⟨StreamBlocks.init firstHeight, .pending, false⟩

def calls (firstHeight : Nat) : LTS (Call E) (Ev E) :=
  LTS.ofFn (· = Call.init firstHeight) (Call.step truthy)

/-! ## What a settled promise should mean -/

def Settled.isPending : Settled E → Bool
  | .pending => true
  | _ => false

/-- No call is unfinished, and a failure was reported. -/
def Quiet (c : Call E) : Prop :=
  c.promise.isPending = false →
    busy c.s = false ∧ (c.failed = true → ∃ error, c.promise = .rejected error)

/-- Whenever in the run the promise has settled: no `onBlock` call is
unfinished and none starts later, and the promise is rejected if anything
failed. -/
def Final (firstHeight : Nat) (evs : List (Ev E)) : Prop :=
  ∀ pre post c, evs = pre ++ post → (calls truthy firstHeight).Run (.init firstHeight) pre c →
    c.promise.isPending = false →
      busy c.s = false ∧ (c.failed = true → ∃ error, c.promise = .rejected error) ∧
      ∀ later rest c', post = later ++ rest → (calls truthy firstHeight).Run c later c' →
        delivered c'.s = delivered c.s

/-- No block that `onBlock` would be called with is left. -/
def exhausted (s : St E) (queue : List Block) : Prop :=
  s.ended = true ∨ ∀ block ∈ queue, blockHeight block ≠ s.height

/-- Nothing is left to do when the stream ends, and nothing comes afterwards:
the stream fails while no call is pending, and is cancelled while none is
pending that was made for a commit; a reply or a commit behind a failure
leaves no block to hand over; and a rejection value that would settle the
promise is not falsy. -/
def leavesNothing (s : St E) : Ev E → Prop
  | .getBlockResolve reply =>
    match s.stream with
    | .rejected _ => (s.ended = true ∨ reply = none ∨ streamReached s = true) ∧ exhausted s s.streamQueue
    | _ => True
  | .getBlockReject error | .onBlockReject error =>
    match s.stream with
    | .resolved => truthy error = true
    | _ => True
  | .commit block =>
    s.stream.isPending = true ∨ s.streamEnd = true ∨ s.onBlockLock = true ∨
      exhausted s (s.streamQueue ++ [block])
  | .blockErrorResponse _ | .streamError false _ => s.stream.isPending = true → busy s = false
  | .streamError true _ =>
    s.stream.isPending = true → s.loop = .returned →
      s.consumer = none ∧ ∀ error ∈ s.result, truthy error = true
  | .onBlockResolve | .endCall => True

/-! ## One step -/

variable {truthy}

/-- What a pass over the queue leaves: it is back at its caller, or a call is
pending for a block of the awaited height. -/
structure Consumed (c : Caller) (queue : List Block) (s s' : St E) : Prop where
  stream : s'.stream = s.stream
  result : s'.result = s.result
  busy : busy s' = false ↔ exhausted s queue
  idle : StreamBlocks.busy s' = false → s'.loop = .returned
  pending : StreamBlocks.busy s' = true → s'.loop = c.loop
  calls : delivered s' = delivered s ∨ StreamBlocks.busy s' = true

theorem consumed_whileQueue {c : Caller} {queue : List Block} {s : St E} (hcons : s.consumer = none)
    (hloop : s.loop = c.loop) : Consumed c queue s (whileQueue c queue s) := by
  have hreturn : ∀ (rest : List Block) (lock : Bool), exhausted s queue →
      Consumed c queue s (returnTo { s with streamQueue := rest, onBlockLock := lock } c) := by
    intro rest lock hend
    have hidle : busy (returnTo { s with streamQueue := rest, onBlockLock := lock } c) = false := by
      cases c <;> simp [returnTo, busy, hcons, hloop, Caller.loop]
    refine ⟨?_, ?_, ⟨fun _ => hend, fun _ => hidle⟩, fun _ => ?_, fun hb => ?_, .inl ?_⟩
    · cases c <;> rfl
    · cases c <;> rfl
    · cases c with
      | backfill => rfl
      | stream => exact hloop
    · rw [hidle] at hb
      cases hb
    · cases c <;> rfl
  rcases whileQueue_cases c queue s with ⟨he, rest, e⟩ | ⟨he, pre, block, rest, rfl, -, hblock, e⟩ |
    ⟨-, hq, e⟩
  · rw [e]
    exact hreturn rest s.onBlockLock (.inl he)
  · rw [e]
    have hb : busy { s with
        streamQueue := rest, consumer := some c, log := s.log ++ [Obs.call block] } = true := by
      simp [busy]
    refine ⟨rfl, rfl, ⟨fun h => ?_, fun h => ?_⟩, fun h => ?_, fun _ => hloop, .inr hb⟩
    · rw [hb] at h
      cases h
    · rcases h with h | h
      · rw [he] at h
        cases h
      · exact absurd hblock (h block (by simp))
    · rw [hb] at h
      cases h
  · rw [e]
    exact hreturn [] false (.inr hq)

theorem consumed_afterLoop {s : St E} (hcons : s.consumer = none) :
    Consumed .backfill s.streamQueue s (afterLoop s) := by
  unfold afterLoop
  split
  · rename_i he
    have hidle : busy { s with onBlockLock := false, loop := .returned } = false := by
      simp [busy, hcons]
    refine ⟨rfl, rfl, ⟨fun _ => .inl he, fun _ => hidle⟩, fun _ => rfl, fun hb => ?_, .inl rfl⟩
    rw [hidle] at hb
    cases hb
  · simp only [streamTryConsume, Bool.false_eq_true, if_false]
    have hq : Consumed .backfill s.streamQueue { s with onBlockLock := true, loop := .consume } _ :=
      consumed_whileQueue hcons rfl
    obtain ⟨h1, h2, h3, h4, h5, h6⟩ := hq
    exact ⟨h1, h2, h3, h4, h5, h6⟩

/-- How an event settles the stream's promise. -/
def Ev.ends : Ev E → Settled E
  | .blockErrorResponse error | .streamError false error => .rejected error
  | .streamError true _ => .resolved
  | _ => .pending

/-- With what it rejects a call of `getBlock` or `onBlock`. -/
def Ev.rejects : Ev E → Option E
  | .getBlockReject error | .onBlockReject error => some error
  | _ => none

theorem settle_pending (p : Settled E) : p.settle .pending = p := by cases p <;> rfl

/-- What a step does, apart from the calls it starts. -/
structure Effect (s s' : St E) (e : Ev E) : Prop where
  stream : s'.stream = s.stream.settle e.ends
  result : s'.result = e.rejects.or s.result
  returned : s.loop = .returned → s'.loop = .returned
  calls : delivered s' = delivered s ∨ busy s' = true

theorem delivered_snoc {log : List (Obs Block)} {o : Obs Block} (ho : o.item? = none) :
    Delivery.calls (log ++ [o]) = Delivery.calls log := by
  rw [Delivery.calls_snoc, ho]
  exact List.append_nil _

/-- The loop awaits `getBlock`: a call starts unless nothing is left. -/
theorem effect_getBlockResolve {firstHeight : Nat} {s s' : St E} {reply : Option Block}
    (h : Inv firstHeight s) (hs : step s (.getBlockResolve reply) = some s') :
    Effect s s' (.getBlockResolve reply) ∧ s.loop = .getBlock ∧
      (s'.loop = .returned → busy s' = false) ∧
      (busy s' = false ↔ (s.ended = true ∨ reply = none ∨ streamReached s = true) ∧
        exhausted s s.streamQueue) := by
  simp only [step] at hs
  split at hs
  · rename_i hloop
    have hne : s.loop ≠ .returned := by
      rw [hloop]
      simp
    have hc := consumed_afterLoop (h.looping (.inl hloop)).2
    have hafter : Effect s (afterLoop s) (.getBlockResolve reply) ∧
        ((afterLoop s).loop = .returned → busy (afterLoop s) = false) := by
      refine ⟨⟨hc.stream.trans (settle_pending _).symm, hc.result, fun hl => absurd hl hne, hc.calls⟩, ?_⟩
      intro hl
      cases hb : busy (afterLoop s) with
      | false => rfl
      | true =>
        rw [hc.pending hb] at hl
        cases hl
    cases reply with
    | none =>
      cases hs
      exact ⟨hafter.1, hloop, hafter.2, by simpa using hc.busy⟩
    | some block =>
      simp only at hs
      split at hs
      · split at hs
        · rename_i hend
          cases hs
          refine ⟨hafter.1, hloop, hafter.2, hc.busy.trans ?_⟩
          simp [hend]
        · rename_i hgo
          cases hs
          have hb : busy { s with loop := .onBlock, log := s.log ++ [Obs.call block] } = true := by
            simp [busy]
          refine ⟨⟨(settle_pending _).symm, rfl, fun hl => absurd hl hne, .inr hb⟩, hloop, ?_, ?_⟩
          · intro hl
            cases hl
          · rw [hb]
            simp only [not_or] at hgo
            simp [hgo.1, hgo.2]
      · cases hs
  · cases hs

/-- `onBlock` resolves: the loop asks for the next block, or the queue is
consumed further. -/
theorem effect_onBlockResolve {firstHeight : Nat} {s s' : St E} (h : Inv firstHeight s)
    (hs : step s .onBlockResolve = some s') :
    Effect s s' .onBlockResolve ∧ busy s = true ∧
      (s.loop ≠ .returned → s'.loop = .returned → busy s' = false) := by
  simp only [step] at hs
  split at hs
  · rename_i hloop
    cases hs
    refine ⟨⟨(settle_pending _).symm, rfl, fun hl => ?_, .inl (delivered_snoc rfl)⟩,
      by simp [busy, hloop], fun _ hl => by cases hl⟩
    rw [hloop] at hl
    cases hl
  · cases hc : s.consumer with
    | none => simp [hc] at hs
    | some c =>
      simp only [hc, Option.some.injEq] at hs
      subst hs
      obtain ⟨-, hbusy, hl⟩ := consumer_pending h hc
      have hq : Consumed c s.streamQueue
          { s with consumer := none, height := s.height + 1, log := s.log ++ [.resolved] } _ :=
        consumed_whileQueue rfl hl
      refine ⟨⟨hq.stream.trans (settle_pending _).symm, hq.result, fun hr => ?_, ?_⟩, hbusy, ?_⟩
      · cases hb : busy (whileQueue c s.streamQueue
          { s with consumer := none, height := s.height + 1, log := s.log ++ [.resolved] }) with
        | false => exact hq.idle hb
        | true => rw [hq.pending hb, ← hl, hr]
      · rcases hq.calls with hcalls | hcalls
        · exact .inl (hcalls.trans (delivered_snoc rfl))
        · exact .inr hcalls
      · intro hne hr
        cases hb : busy (whileQueue c s.streamQueue
          { s with consumer := none, height := s.height + 1, log := s.log ++ [.resolved] }) with
        | false => rfl
        | true =>
          rw [hq.pending hb, ← hl] at hr
          exact absurd hr hne

/-- `getBlock` or `onBlock` rejects: the lock is held for good. -/
theorem effect_reject {firstHeight : Nat} {s s' : St E} {e : Ev E} {error : E}
    (h : Inv firstHeight s) (hs : step s e = some s') (he : e.rejects = some error) :
    Effect s s' e ∧ Dead s' ∧ s'.result = some error ∧ (busy s = true ∨ s.loop = .getBlock) := by
  cases e with
  | getBlockReject error =>
    simp only [step] at hs
    split at hs
    · rename_i hloop
      cases hs
      cases he
      obtain ⟨hlock, hcons⟩ := h.looping (.inl hloop)
      exact ⟨⟨(settle_pending _).symm, rfl, fun _ => rfl, .inl (delivered_snoc rfl)⟩,
        ⟨hlock, rfl, hcons⟩, rfl, .inr hloop⟩
    · cases hs
  | onBlockReject error =>
    cases he
    simp only [step] at hs
    split at hs
    · rename_i hloop
      cases hs
      obtain ⟨hlock, hcons⟩ := h.looping (.inr hloop)
      exact ⟨⟨(settle_pending _).symm, rfl, fun _ => rfl, .inl (delivered_snoc rfl)⟩,
        ⟨hlock, rfl, hcons⟩, rfl, .inl (by simp [busy, hloop])⟩
    · cases hc : s.consumer with
      | none => simp [hc] at hs
      | some c =>
        simp only [hc, Option.some.injEq] at hs
        subst hs
        obtain ⟨hlock, hbusy, hl⟩ := consumer_pending h hc
        have hcalls : Delivery.calls (s.log ++ [.rejected]) = Delivery.calls s.log :=
          delivered_snoc rfl
        cases c with
        | backfill =>
          exact ⟨⟨(settle_pending _).symm, rfl, fun _ => rfl, .inl hcalls⟩, ⟨hlock, rfl, rfl⟩, rfl,
            .inl hbusy⟩
        | stream =>
          exact ⟨⟨(settle_pending _).symm, rfl, fun _ => hl, .inl hcalls⟩, ⟨hlock, hl, rfl⟩, rfl,
            .inl hbusy⟩
  | getBlockResolve | onBlockResolve | commit | blockErrorResponse | endCall => cases he
  | streamError cancelled => cases he

/-- A commit is consumed at once when the lock is free. -/
theorem effect_commit {firstHeight : Nat} {s s' : St E} {block : Block}
    (h : Inv firstHeight s) (hs : step s (.commit block) = some s') :
    Effect s s' (.commit block) ∧ (s.loop ≠ .returned → s'.loop ≠ .returned) ∧
      (busy s = false → (busy s' = false ↔ s.streamEnd = true ∨ s.onBlockLock = true ∨
        exhausted s (s.streamQueue ++ [block]))) := by
  simp only [step] at hs
  split at hs
  · rename_i hend
    cases hs
    exact ⟨⟨(settle_pending _).symm, rfl, id, .inl rfl⟩, id, fun hb => by simp [hb, hend]⟩
  · rename_i hend
    cases hs
    unfold streamTryConsume
    split
    · rename_i hlock
      exact ⟨⟨(settle_pending _).symm, rfl, id, .inl rfl⟩, id,
        fun hb => ⟨fun _ => .inr (.inl hlock), fun _ => hb⟩⟩
    · rename_i hlock
      simp only [Bool.not_eq_true] at hlock hend
      obtain ⟨hcons, hloop⟩ := unlocked h hlock
      have hq : Consumed .stream (s.streamQueue ++ [block])
          { s with streamQueue := s.streamQueue ++ [block], onBlockLock := true } _ :=
        consumed_whileQueue hcons hloop
      refine ⟨⟨hq.stream.trans (settle_pending _).symm, hq.result, fun _ => ?_, hq.calls⟩,
        fun hne => absurd hloop hne, fun _ => ?_⟩
      · cases hb : busy (whileQueue .stream (s.streamQueue ++ [block])
          { s with streamQueue := s.streamQueue ++ [block], onBlockLock := true }) with
        | false => exact hq.idle hb
        | true => exact hq.pending hb
      · refine hq.busy.trans ?_
        simp [exhausted, hlock, hend]

theorem effect_step {firstHeight : Nat} {s s' : St E} {e : Ev E} (h : Inv firstHeight s)
    (hs : step s e = some s') : Effect s s' e := by
  cases e with
  | getBlockResolve reply => exact (effect_getBlockResolve h hs).1
  | getBlockReject error | onBlockReject error => exact (effect_reject h hs rfl).1
  | onBlockResolve => exact (effect_onBlockResolve h hs).1
  | commit block => exact (effect_commit h hs).1
  | blockErrorResponse error =>
    cases hs
    exact ⟨rfl, rfl, id, .inl rfl⟩
  | streamError cancelled error =>
    cases hs
    exact ⟨by cases cancelled <;> rfl, rfl, id, .inl rfl⟩
  | endCall =>
    cases hs
    exact ⟨(settle_pending _).symm, rfl, id, .inl (delivered_snoc rfl)⟩

/-- Nothing resumes a function that holds the lock for good. -/
theorem dead_step {s s' : St E} {e : Ev E} (h : Dead s) (hs : step s e = some s') :
    Dead s' ∧ e.rejects = none := by
  obtain ⟨hlock, hloop, hcons⟩ := h
  cases e with
  | getBlockResolve | getBlockReject | onBlockResolve | onBlockReject => simp [step, hloop, hcons] at hs
  | commit block =>
    simp only [step] at hs
    split at hs
    · cases hs
      exact ⟨⟨hlock, hloop, hcons⟩, rfl⟩
    · cases hs
      simp only [streamTryConsume, hlock, if_true]
      exact ⟨⟨rfl, hloop, hcons⟩, rfl⟩
  | blockErrorResponse | streamError | endCall =>
    cases hs
    exact ⟨⟨hlock, hloop, hcons⟩, rfl⟩

/-! ## Invariant -/

/-- What every run keeps of the promise and the failures. -/
structure Sound (firstHeight : Nat) (truthy : E → Bool) (c : Call E) : Prop where
  inv : Inv firstHeight c.s
  settled : c.promise.isPending = (joined truthy c.s).isPending
  rejected : ∀ error, c.s.stream = .rejected error → c.promise = .rejected error
  result : c.s.result ≠ none → Dead c.s
  failed : c.failed = true ↔ c.s.result ≠ none ∨ ∃ error, c.s.stream = .rejected error

theorem sound_init (firstHeight : Nat) : Sound firstHeight truthy (.init firstHeight : Call E) := by
  refine ⟨inv_init firstHeight, ?_, ?_, ?_, ?_⟩ <;> simp [Call.init, StreamBlocks.init, joined]

theorem isPending_settle (p q : Settled E) : (p.settle q).isPending = (p.isPending && q.isPending) := by
  cases p <;> rfl

theorem eq_pending {p : Settled E} : p.isPending = true ↔ p = .pending := by
  cases p <;> simp [Settled.isPending]

theorem joined_isPending (s : St E) :
    (joined truthy s).isPending = true ↔ s.stream = .pending ∨ s.stream = .resolved ∧ s.loop ≠ .returned := by
  unfold joined settleResult
  cases s.stream with
  | pending => simp [Settled.isPending]
  | rejected error => simp [Settled.isPending]
  | resolved =>
    by_cases hl : s.loop = .returned
    · cases hr : s.result with
      | none => simp [hl, Settled.isPending]
      | some error => cases ht : truthy error <;> simp [hl, ht, Settled.isPending]
    · simp [hl, Settled.isPending]

theorem fails_iff (s : St E) (e : Ev E) :
    e.fails s = true ↔ e.rejects ≠ none ∨ s.stream = .pending ∧ ∃ error, e.ends = .rejected error := by
  cases e with
  | streamError cancelled error =>
    cases cancelled <;> cases hstream : s.stream <;> simp [Ev.fails, Ev.rejects, Ev.ends, hstream]
  | blockErrorResponse error => cases hstream : s.stream <;> simp [Ev.fails, Ev.rejects, Ev.ends, hstream]
  | getBlockResolve | getBlockReject | onBlockResolve | onBlockReject | commit | endCall =>
    simp [Ev.fails, Ev.rejects, Ev.ends]

theorem sound_step {firstHeight : Nat} {c c' : Call E} {e : Ev E} (h : Sound firstHeight truthy c)
    (hs : c.step truthy e = some c') : Sound firstHeight truthy c' := by
  obtain ⟨s', hs', rfl⟩ := Option.map_eq_some_iff.1 hs
  obtain ⟨hinv, hsettled, hrejected, hresult, hfailed⟩ := h
  obtain ⟨hstream, hres, hreturned, -⟩ := effect_step hinv hs'
  have hstable : (joined truthy s').isPending = true → c.promise.isPending = true := by
    rw [hsettled, joined_isPending, joined_isPending, hstream]
    rintro (hp | ⟨hr, hl⟩)
    · cases hc : c.s.stream <;> simp_all [Settled.settle]
    · cases hc : c.s.stream with
      | pending => exact .inl rfl
      | resolved => exact .inr ⟨rfl, fun hl' => hl (hreturned hl')⟩
      | rejected error => simp [hc, Settled.settle] at hr
  refine ⟨inv_step hinv hs', ?_, ?_, ?_, ?_⟩
  · rw [isPending_settle]
    cases hp : (joined truthy s').isPending with
    | false => simp
    | true => simp [hstable hp]
  · intro error herror
    simp only at herror ⊢
    rw [hstream] at herror
    cases hc : c.s.stream with
    | pending =>
      have hpending : c.promise = .pending := by
        rw [← eq_pending, hsettled, joined_isPending]
        exact .inl hc
      rw [hc] at herror hstream
      rw [hpending, joined, hstream, herror]
      rfl
    | resolved => simp [hc, Settled.settle] at herror
    | rejected error' =>
      rw [hc] at herror
      cases herror
      rw [hrejected _ hc]
      rfl
  · intro hne
    simp only at hne ⊢
    rw [hres] at hne
    cases hr : e.rejects with
    | some error => exact (effect_reject hinv hs' hr).2.1
    | none =>
      rw [hr] at hne
      exact (dead_step (hresult hne) hs').1
  · simp only [Bool.or_eq_true, fails_iff, hfailed, hres, hstream]
    cases hr : e.rejects <;> cases hc : c.s.stream <;> simp [Settled.settle]

/-! ## A settled promise -/

theorem loop_of_settled {firstHeight : Nat} {c : Call E} (h : Sound firstHeight truthy c)
    (hp : c.promise.isPending = true) :
    c.s.stream = .pending ∨ c.s.stream = .resolved ∧ c.s.loop ≠ .returned := by
  rw [h.settled, joined_isPending] at hp
  exact hp

theorem settled_of_loop {firstHeight : Nat} {c : Call E} (h : Sound firstHeight truthy c)
    (hp : c.promise.isPending = false) :
    (∃ error, c.s.stream = .rejected error) ∨ c.s.stream = .resolved ∧ c.s.loop = .returned := by
  have hnot : ¬ (c.s.stream = .pending ∨ c.s.stream = .resolved ∧ c.s.loop ≠ .returned) := by
    have hjoined : (joined truthy c.s).isPending = true ↔ _ := joined_isPending c.s
    rw [← hjoined, ← h.settled, hp]
    simp
  cases hc : c.s.stream with
  | pending => exact absurd (.inl hc) hnot
  | rejected error => exact .inl ⟨error, rfl⟩
  | resolved =>
    refine .inr ⟨rfl, ?_⟩
    by_contra hl
    exact hnot (.inr ⟨hc, hl⟩)

/-- In a function that has not failed there is no rejection value. -/
theorem result_none {firstHeight : Nat} {c : Call E} (h : Sound firstHeight truthy c)
    (hl : c.s.loop ≠ .returned) : c.s.result = none := by
  by_contra hne
  exact hl (h.result hne).2.1

variable (truthy) in
/-- The promise can settle: no call is pending, and a rejection value counts. -/
def Last (s : St E) : Prop :=
  match s.stream with
  | .pending => True
  | .rejected _ => busy s = false
  | .resolved => s.loop = .returned → busy s = false ∧ ∀ error ∈ s.result, truthy error = true

/-- The step may settle the promise. -/
theorem quiet_of_pending {firstHeight : Nat} {c c' : Call E} {e : Ev E}
    (h' : Sound firstHeight truthy c') (hs : c.step truthy e = some c')
    (hp : c.promise.isPending = true) : Quiet c' ↔ Last truthy c'.s := by
  have hpromise : c'.promise = joined truthy c'.s := by
    obtain ⟨s', -, rfl⟩ := Option.map_eq_some_iff.1 hs
    rw [eq_pending.1 hp]
    rfl
  have hfailed := h'.failed
  unfold Quiet Last
  rw [hpromise]
  unfold joined
  cases hc : c'.s.stream with
  | pending => simp [Settled.isPending]
  | rejected error => simp [Settled.isPending]
  | resolved =>
    by_cases hl : c'.s.loop = .returned
    · rw [hc] at hfailed
      cases hr : c'.s.result with
      | none => simp_all [settleResult, Settled.isPending]
      | some error => cases ht : truthy error <;> simp_all [settleResult, Settled.isPending]
    · simp [hl, Settled.isPending]

/-- The promise had settled: nothing can fail unseen any more. -/
theorem quiet_of_settled {firstHeight : Nat} {c c' : Call E} {e : Ev E}
    (h : Sound firstHeight truthy c) (hq : Quiet c) (hs : c.step truthy e = some c')
    (hp : c.promise.isPending = false) : Quiet c' ↔ busy c'.s = false := by
  obtain ⟨s', hs', rfl⟩ := Option.map_eq_some_iff.1 hs
  have hpromise : c.promise.settle (joined truthy s') = c.promise := by
    cases hc : c.promise with
    | pending => simp [hc, Settled.isPending] at hp
    | resolved | rejected => rfl
  obtain ⟨hbusy, hreported⟩ := hq hp
  have hrejected : (c.failed || e.fails c.s) = true → ∃ error, c.promise = .rejected error := by
    intro hf
    rcases Bool.or_eq_true_iff.1 hf with hf | hf
    · exact hreported hf
    · rcases settled_of_loop h hp with ⟨error, hc⟩ | ⟨hc, hl⟩
      · exact ⟨error, h.rejected error hc⟩
      · rcases (fails_iff c.s e).1 hf with hr | ⟨hpending, -⟩
        · obtain ⟨error, hr⟩ := Option.ne_none_iff_exists'.1 hr
          rcases (effect_reject h.inv hs' hr).2.2.2 with hb | hb
          · rw [hbusy] at hb
            cases hb
          · rw [hl] at hb
            cases hb
        · rw [hc] at hpending
          cases hpending
  unfold Quiet
  simp only [hpromise, hp, forall_const]
  exact and_iff_left hrejected

/-- What a step that may settle the promise needs. -/
theorem last_step {firstHeight : Nat} {c c' : Call E} {e : Ev E} (h : Sound firstHeight truthy c)
    (hs : c.step truthy e = some c') (hp : c.promise.isPending = true) :
    Last truthy c'.s ↔ leavesNothing truthy c.s e := by
  have hinv := h.inv
  have hloop := loop_of_settled h hp
  have hnone := result_none h
  obtain ⟨s', hs', rfl⟩ := Option.map_eq_some_iff.1 hs
  obtain ⟨hstream, hresult, -, -⟩ := effect_step hinv hs'
  unfold Last
  simp only [hstream, hresult]
  cases e with
  | getBlockResolve reply =>
    obtain ⟨-, hl, hidle, -⟩ := effect_getBlockResolve hinv hs'
    rcases hloop with hc | ⟨hc, -⟩
    · simp [hc, Settled.settle, Ev.ends, leavesNothing]
    · simpa [hc, Settled.settle, Ev.rejects, hnone (by simp [hl]), leavesNothing] using hidle
  | getBlockReject error | onBlockReject error =>
    obtain ⟨-, ⟨-, hl, hcons⟩, -, -⟩ := effect_reject hinv hs' rfl
    rcases hloop with hc | ⟨hc, -⟩
    · simp [hc, Settled.settle, Ev.ends, leavesNothing]
    · simp [hc, hl, hcons, Settled.settle, Ev.rejects, busy, leavesNothing]
  | onBlockResolve =>
    obtain ⟨-, -, hidle⟩ := effect_onBlockResolve hinv hs'
    rcases hloop with hc | ⟨hc, hl⟩
    · simp [hc, Settled.settle, Ev.ends, leavesNothing]
    · simpa [hc, Settled.settle, Ev.rejects, hnone hl, leavesNothing] using hidle hl
  | commit block =>
    obtain ⟨-, hstay, -⟩ := effect_commit hinv hs'
    rcases hloop with hc | ⟨hc, hl⟩
    · simp [hc, Settled.settle, Ev.ends, leavesNothing, Settled.isPending]
    · have hlock : c.s.onBlockLock = true := by
        by_contra hfree
        exact hl (unlocked hinv (by simpa using hfree)).2
      simp [hc, hstay hl, hlock, Settled.settle, leavesNothing]
  | blockErrorResponse error =>
    cases hs'
    rcases hloop with hc | ⟨hc, hl⟩
    · simp [hc, Settled.settle, Ev.ends, leavesNothing, Settled.isPending, busy]
    · simp [hc, hl, Settled.settle, leavesNothing, Settled.isPending]
  | streamError cancelled error =>
    cases hs'
    rcases hloop with hc | ⟨hc, hl⟩
    · cases cancelled with
      | false => simp [hc, Settled.settle, Ev.ends, leavesNothing, Settled.isPending, busy]
      | true =>
        simp only [hc, Settled.settle, Ev.ends, Ev.rejects, Option.none_or, leavesNothing,
          Settled.isPending, forall_const]
        refine forall_congr' fun hl => and_congr ?_ Iff.rfl
        simp [busy, hl]
    · cases cancelled <;> simp [hc, hl, Settled.settle, leavesNothing, Settled.isPending]
  | endCall =>
    cases hs'
    rcases hloop with hc | ⟨hc, hl⟩
    · simp [hc, Settled.settle, Ev.ends, leavesNothing]
    · simp [hc, hl, Settled.settle, leavesNothing]

/-- What a step after that needs. -/
theorem idle_step {firstHeight : Nat} {c c' : Call E} {e : Ev E} (h : Sound firstHeight truthy c) (hq : Quiet c)
    (hs : c.step truthy e = some c') (hp : c.promise.isPending = false) :
    busy c'.s = false ↔ leavesNothing truthy c.s e := by
  have hinv := h.inv
  obtain ⟨hbusy, -⟩ := hq hp
  have hstream := settled_of_loop h hp
  have hopen : c.s.stream.isPending = false := by
    rcases hstream with ⟨error, hc⟩ | ⟨hc, -⟩ <;> simp [hc, Settled.isPending]
  obtain ⟨s', hs', rfl⟩ := Option.map_eq_some_iff.1 hs
  cases e with
  | getBlockResolve reply =>
    obtain ⟨-, hl, -, hiff⟩ := effect_getBlockResolve hinv hs'
    rcases hstream with ⟨error, hc⟩ | ⟨-, hret⟩
    · simpa only [leavesNothing, hc] using hiff
    · rw [hl] at hret
      cases hret
  | getBlockReject error | onBlockReject error =>
    obtain ⟨-, ⟨-, hl, hcons⟩, -, hwas⟩ := effect_reject hinv hs' rfl
    rcases hstream with ⟨error, hc⟩ | ⟨-, hret⟩
    · simp [leavesNothing, hc, busy, hl, hcons]
    · simp [hbusy, hret] at hwas
  | onBlockResolve =>
    obtain ⟨-, hb, -⟩ := effect_onBlockResolve hinv hs'
    rw [hbusy] at hb
    cases hb
  | commit block =>
    obtain ⟨-, -, hiff⟩ := effect_commit hinv hs'
    simpa [leavesNothing, hopen] using hiff hbusy
  | blockErrorResponse error =>
    cases hs'
    simpa [leavesNothing, hopen, busy] using hbusy
  | streamError cancelled error =>
    cases hs'
    cases cancelled <;> simpa [leavesNothing, hopen, busy] using hbusy
  | endCall =>
    cases hs'
    simpa [leavesNothing, busy] using hbusy

/-- **What one step needs.** -/
theorem quiet_step {firstHeight : Nat} {c c' : Call E} {e : Ev E}
    (h : Sound firstHeight truthy c) (hq : Quiet c) (hs : c.step truthy e = some c') :
    Quiet c' ↔ leavesNothing truthy c.s e := by
  cases hp : c.promise.isPending with
  | true =>
    rw [quiet_of_pending (sound_step h hs) hs hp]
    exact last_step h hs hp
  | false =>
    rw [quiet_of_settled h hq hs hp]
    exact idle_step h hq hs hp

/-! ## Runs -/

/-- A settled promise stays settled, and quiet states start no call. -/
theorem delivered_run {firstHeight : Nat} {c c' : Call E} {evs : List (Ev E)}
    (hr : (calls truthy firstHeight).Run c evs c') (h : Sound firstHeight truthy c)
    (hp : c.promise.isPending = false)
    (hall : ∀ pre post m, evs = pre ++ post → (calls truthy firstHeight).Run c pre m → Quiet m) :
    delivered c'.s = delivered c.s := by
  induction hr with
  | nil => rfl
  | @cons c c₁ c' e evs hs hr ih =>
    have hsettled : c₁.promise.isPending = false := by
      obtain ⟨s', -, rfl⟩ := Option.map_eq_some_iff.1 hs
      rw [isPending_settle, hp]
      rfl
    have hquiet : Quiet c₁ := hall [e] evs c₁ rfl (.cons hs (.nil c₁))
    have hrest := ih (sound_step h hs) hsettled fun pre post m heq hpre =>
      hall (e :: pre) post m (by rw [heq]; rfl) (.cons hs hpre)
    rw [hrest]
    obtain ⟨s', hs', rfl⟩ := Option.map_eq_some_iff.1 hs
    rcases (effect_step h.inv hs').calls with hcalls | hbusy
    · exact hcalls
    · rw [(hquiet hsettled).1] at hbusy
      cases hbusy

theorem final_iff_quiet {firstHeight : Nat} {evs : List (Ev E)} :
    Final truthy firstHeight evs ↔ ∀ pre post c, evs = pre ++ post →
      (calls truthy firstHeight).Run (.init firstHeight) pre c → Quiet c := by
  constructor
  · intro h pre post c heq hpre hp
    obtain ⟨hbusy, hfailed, -⟩ := h pre post c heq hpre hp
    exact ⟨hbusy, hfailed⟩
  · intro h pre post c heq hpre hp
    obtain ⟨hbusy, hfailed⟩ := h pre post c heq hpre hp
    refine ⟨hbusy, hfailed, fun later rest c' hpost hlater => ?_⟩
    have hsound : Sound firstHeight truthy c :=
      hpre.keeps (I := Sound firstHeight truthy) (fun _ _ _ h hs => sound_step h hs)
        (sound_init firstHeight)
    refine delivered_run hlater hsound hp fun mid post' m hmid hrun => ?_
    refine h (pre ++ mid) (post' ++ rest) m ?_ (hpre.append hrun)
    rw [heq, hpost, hmid]
    simp

/-- **Settled is finished.** In any order of replies, commits, errors,
completions and calls of `end()`: whenever the promise has settled no
`onBlock` call is unfinished or starts later and every failure was reported,
if and only if every step met `leavesNothing`. -/
theorem settlement_is_final_iff (truthy : E → Bool) (firstHeight : Nat) (evs : List (Ev E)) (c : Call E)
    (hr : (calls truthy firstHeight).Run (.init firstHeight) evs c) :
    Final truthy firstHeight evs ↔
      ((calls truthy firstHeight).restrict fun c e => leavesNothing truthy c.s e).Run
        (.init firstHeight) evs c := by
  rw [final_iff_quiet]
  refine hr.always_iff (J := Sound firstHeight truthy) (fun _ _ _ h hs => sound_step h hs)
    (fun _ _ _ h hq hs => quiet_step h hq hs) (sound_init firstHeight) ?_
  intro hp
  cases hp

instance decidableLeavesNothing (truthy : E → Bool) (s : St E) (e : Ev E) :
    Decidable (leavesNothing truthy s e) := by
  unfold leavesNothing exhausted
  split
  · split <;> infer_instance
  · split <;> infer_instance
  · split <;> infer_instance
  · infer_instance
  · infer_instance
  · infer_instance
  · infer_instance
  · infer_instance
  · infer_instance

/-- A rejection value that is a text. -/
def truthyText (error : String) : Bool := error ≠ ""

/-- `end()` is called while the second call is pending; it resolves, and the
stream reports that it was cancelled. -/
def endedInBackfill : List (Ev String) := handOver ++ [.streamError true "Cancelled"]

theorem settlement_is_final_iff_endedInBackfill :
    ∃ c, LTS.exec (Call.step truthyText) (.init 1) endedInBackfill = some c ∧ c.promise = .resolved ∧
      Final truthyText 1 endedInBackfill := by
  have hrun : (LTS.exec (LTS.guarded (fun (c : Call String) e => leavesNothing truthyText c.s e)
      (Call.step truthyText)) (.init 1) endedInBackfill).map Call.promise = some .resolved := by
    decide +kernel
  obtain ⟨c, hc, hpromise⟩ := Option.map_eq_some_iff.1 hrun
  have hrestrict : ((LTS.ofFn (· = Call.init 1) (Call.step truthyText)).restrict
      fun c e => leavesNothing truthyText c.s e).Run (.init 1) endedInBackfill c :=
    LTS.restrict_run_of_exec hc
  exact ⟨c, LTS.exec_of_guarded hc, hpromise,
    (settlement_is_final_iff truthyText 1 endedInBackfill c hrestrict.of_restrict).2 hrestrict⟩

/-- The stream fails while the back-fill awaits `onBlock`. -/
def failsEarly : List (Ev String) :=
  [.getBlockResolve (some ⟨1, 0, "", []⟩), .streamError false "UNAVAILABLE"]

/-- `end()` while `onBlock` is pending for a commit. -/
def endsInCommit : List (Ev String) :=
  [.getBlockResolve none, .commit ⟨1, 0, "", []⟩, .endCall, .streamError true "Cancelled"]

/-- `onBlock` rejects with a falsy value, and the stream is cancelled. -/
def rejectsFalsy : List (Ev String) :=
  [.getBlockResolve (some ⟨1, 0, "", []⟩), .onBlockReject "", .streamError true "Cancelled"]

/-- The first two settle while `onBlock` is running, the third resolves
although it failed. -/
theorem settlement_not_final :
    ¬ Final truthyText 1 failsEarly ∧ ¬ Final truthyText 1 endsInCommit ∧
      ¬ Final truthyText 1 rejectsFalsy := by
  refine ⟨fun h => ?_, fun h => ?_, fun h => ?_⟩
  · have hrun : LTS.exec (Call.step truthyText) (.init 1) failsEarly = some _ := rfl
    have hbusy := (h failsEarly [] _ (List.append_nil _).symm (LTS.run_of_exec hrun) rfl).1
    cases hbusy
  · have hrun : LTS.exec (Call.step truthyText) (.init 1) endsInCommit = some _ := rfl
    have hbusy := (h endsInCommit [] _ (List.append_nil _).symm (LTS.run_of_exec hrun) rfl).1
    cases hbusy
  · have hrun : LTS.exec (Call.step truthyText) (.init 1) rejectsFalsy = some _ := rfl
    obtain ⟨error, herror⟩ := (h rejectsFalsy [] _ (List.append_nil _).symm (LTS.run_of_exec hrun) rfl).2.1 rfl
    cases herror

end Explorer.Iroha.StreamBlocks
