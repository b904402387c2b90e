import Explorer.Iroha.Replica

/-!
# When the replica is complete

A process that nothing has stopped is a `StreamServer` of its own: what the
other processes do is invisible to it, apart from the tables. So it is handed
every block from its first height on, and each of them is stored before the
next one is asked for.

* `live_inductive`: every process that is still healthy meets the invariant
  of `StreamServer`.
* `replica_complete`: whenever such a process is idle, the database is the
  whole chain.
* `replica_recovers`: after any failures, one sync that is left alone brings
  the database up to the whole chain.
-/
namespace Explorer.Iroha.Replica

open StreamBlocks (delivered whileQueue returnTo Caller)
open StreamServer (Chain Sys sysStep)
open Delivery (Obs)

variable {Bytes E : Type}

/-! ## Processes that nothing has stopped -/

/-- Neither `end()` was called nor has anything failed. -/
def Healthy (c : StreamBlocks.St E) : Prop :=
  c.ended = false ∧ c.streamEnd = false ∧ StreamBlocks.stopped c = false ∧ c.stream = .pending

/-- A failure, the end of the gRPC stream, or a call of `end()`. -/
def halts : StreamBlocks.Ev E → Bool
  | .getBlockReject _ | .onBlockReject _ | .blockErrorResponse _ | .streamError _ _ | .endCall => true
  | _ => false

/-- From `s` to `s'` nothing was stopped. -/
structure Keeps (s s' : StreamBlocks.St E) : Prop where
  ended : s'.ended = s.ended
  streamEnd : s'.streamEnd = s.streamEnd
  stopped : StreamBlocks.stopped s' = StreamBlocks.stopped s
  stream : s'.stream = s.stream

theorem Keeps.healthy {s s' : StreamBlocks.St E} (h : Keeps s s') (hh : Healthy s') : Healthy s := by
  obtain ⟨h1, h2, h3, h4⟩ := h
  unfold Healthy at hh ⊢
  rwa [h1, h2, h3, h4] at hh

theorem keeps_returnTo (s : StreamBlocks.St E) (c : Caller) : Keeps s (returnTo s c) := by
  cases c <;> exact ⟨rfl, rfl, rfl, rfl⟩

theorem keeps_whileQueue (c : Caller) (queue : List Block) (s : StreamBlocks.St E) :
    Keeps s (whileQueue c queue s) := by
  rcases StreamBlocks.whileQueue_cases c queue s with ⟨-, rest, e⟩ | ⟨-, pre, block, rest, -, -, -, e⟩ |
    ⟨-, -, e⟩
  · rw [e]
    obtain ⟨h1, h2, h3, h4⟩ := keeps_returnTo { s with streamQueue := rest } c
    exact ⟨h1, h2, h3, h4⟩
  · rw [e]
    exact ⟨rfl, rfl, by simp [StreamBlocks.stopped, Obs.isStop], rfl⟩
  · rw [e]
    obtain ⟨h1, h2, h3, h4⟩ := keeps_returnTo { s with streamQueue := [], onBlockLock := false } c
    exact ⟨h1, h2, h3, h4⟩

theorem keeps_streamTryConsume (c : Caller) (s : StreamBlocks.St E) :
    Keeps s (StreamBlocks.streamTryConsume c s) := by
  unfold StreamBlocks.streamTryConsume
  split
  · exact keeps_returnTo s c
  · obtain ⟨h1, h2, h3, h4⟩ := keeps_whileQueue c s.streamQueue { s with onBlockLock := true }
    exact ⟨h1, h2, h3, h4⟩

theorem keeps_afterLoop (s : StreamBlocks.St E) : Keeps s (StreamBlocks.afterLoop s) := by
  unfold StreamBlocks.afterLoop
  split
  · exact ⟨rfl, rfl, rfl, rfl⟩
  · obtain ⟨h1, h2, h3, h4⟩ := keeps_streamTryConsume .backfill
      { s with onBlockLock := false, loop := .consume }
    exact ⟨h1, h2, h3, h4⟩

/-- Whoever is healthy was healthy, and nothing has halted it. -/
theorem healthy_step {s s' : StreamBlocks.St E} {e : StreamBlocks.Ev E}
    (hs : StreamBlocks.step s e = some s') (hh : Healthy s') : Healthy s ∧ halts e = false := by
  have hlog : ∀ {t : StreamBlocks.St E} {o : Obs Block}, t.log = s.log ++ [o] → o.isStop = true →
      ¬ Healthy t := by
    intro t o ht ho h
    have := h.2.2.1
    simp [StreamBlocks.stopped, ht, ho] at this
  cases e with
  | getBlockResolve reply =>
    refine ⟨?_, rfl⟩
    simp only [StreamBlocks.step] at hs
    split at hs
    · cases reply with
      | none =>
        cases hs
        exact (keeps_afterLoop s).healthy hh
      | some block =>
        simp only at hs
        split at hs
        · split at hs
          · cases hs
            exact (keeps_afterLoop s).healthy hh
          · cases hs
            have hk : Keeps s { s with loop := .onBlock, log := s.log ++ [.call block] } :=
              ⟨rfl, rfl, by simp [StreamBlocks.stopped, Obs.isStop], rfl⟩
            exact hk.healthy hh
        · cases hs
    · cases hs
  | getBlockReject error =>
    simp only [StreamBlocks.step] at hs
    split at hs
    · cases hs
      exact absurd hh (hlog rfl rfl)
    · cases hs
  | onBlockResolve =>
    refine ⟨?_, rfl⟩
    have hstop : (s.log ++ [Obs.resolved]).any Obs.isStop = s.log.any Obs.isStop := by simp [Obs.isStop]
    simp only [StreamBlocks.step] at hs
    split at hs
    · cases hs
      have hk : Keeps s { s with
          loop := .getBlock, height := s.height + 1, log := s.log ++ [.resolved] } :=
        ⟨rfl, rfl, hstop, rfl⟩
      exact hk.healthy hh
    · cases hc : s.consumer with
      | none => simp [hc] at hs
      | some c =>
        simp only [hc, Option.some.injEq] at hs
        subst hs
        obtain ⟨h1, h2, h3, h4⟩ := keeps_whileQueue c s.streamQueue
          { s with consumer := none, height := s.height + 1, log := s.log ++ [.resolved] }
        have hk : Keeps s _ := ⟨h1, h2, h3.trans hstop, h4⟩
        exact hk.healthy hh
  | onBlockReject error =>
    simp only [StreamBlocks.step] at hs
    split at hs
    · cases hs
      exact absurd hh (hlog rfl rfl)
    · cases hc : s.consumer with
      | none => simp [hc] at hs
      | some c =>
        simp only [hc, Option.some.injEq] at hs
        subst hs
        cases c <;> exact absurd hh (hlog rfl rfl)
  | commit block =>
    refine ⟨?_, rfl⟩
    simp only [StreamBlocks.step] at hs
    split at hs
    · cases hs
      exact hh
    · cases hs
      obtain ⟨h1, h2, h3, h4⟩ := keeps_streamTryConsume .stream
        { s with streamQueue := s.streamQueue ++ [block] }
      have hk : Keeps s _ := ⟨h1, h2, h3, h4⟩
      exact hk.healthy hh
  | blockErrorResponse error =>
    cases hs
    obtain ⟨-, -, -, hstream⟩ := hh
    cases hc : s.stream <;> simp [StreamBlocks.Settled.settle, hc] at hstream
  | streamError cancelled error =>
    cases hs
    obtain ⟨-, -, -, hstream⟩ := hh
    cases hc : s.stream <;> cases cancelled <;> simp [StreamBlocks.Settled.settle, hc] at hstream
  | endCall =>
    cases hs
    exact absurd hh (hlog rfl rfl)

/-- Where the stream of process `i` after a step comes from: it is as before,
an event of its own has brought it there, or the step opened it. -/
inductive Came (s : Sync.St Bytes E) (i : Nat) (stream : StreamBlocks.St E) : Sync.Ev E → Prop where
  | same {e : Sync.Ev E} (tx : Sync.Tx) (hp : s.procs[i]? = some (.streaming stream tx))
      (hopen : e ≠ .blockCountReply i) (hown : ∀ e', e ≠ .stream i e') : Came s i stream e
  | own {e' : StreamBlocks.Ev E} (before : StreamBlocks.St E) (tx : Sync.Tx)
      (hp : s.procs[i]? = some (.streaming before tx))
      (hs : StreamBlocks.step before e' = some stream) : Came s i stream (.stream i e')
  | opened (n : Nat) (hstream : stream = StreamBlocks.init (n + 1)) : Came s i stream (.blockCountReply i)

theorem set_eq_some {A : Type} {xs : List A} {i j : Nat} {a b : A}
    (h : (xs.set i a)[j]? = some b) : i ≠ j ∧ xs[j]? = some b ∨ i = j ∧ a = b := by
  rw [List.getElem?_set] at h
  split at h
  · split at h
    · exact .inr ⟨‹_›, Option.some.inj h⟩
    · cases h
  · exact .inl ⟨‹_›, h⟩

theorem came_step {W : Wire Bytes} {s s' : Sync.St Bytes E} {e : Sync.Ev E} {i : Nat}
    {stream : StreamBlocks.St E} {tx : Sync.Tx} (hs : Sync.step W s e = some s')
    (hi : s'.procs[i]? = some (.streaming stream tx)) : Came s i stream e := by
  cases e with
  | start =>
    cases hs
    simp only [List.getElem?_append] at hi
    split at hi
    · exact .same tx hi (by simp) (by simp)
    · have hmem := List.mem_of_getElem? hi
      simp at hmem
  | blockCount j =>
    simp only [Sync.step] at hs
    split at hs
    · cases hs
      rcases set_eq_some hi with ⟨hne, hi⟩ | ⟨-, hp⟩
      · exact .same tx hi (by simp) (by simp)
      · cases hp
    · cases hs
  | blockCountReply j =>
    simp only [Sync.step] at hs
    split at hs
    · rename_i ended blockCount hj
      cases hs
      rcases set_eq_some hi with ⟨hne, hi⟩ | ⟨rfl, hp⟩
      · exact .same tx hi (by simp [hne]) (by simp)
      · cases ended <;> cases hp
        exact .opened blockCount rfl
    · cases hs
  | stream j e =>
    simp only [Sync.step] at hs
    split at hs
    · rename_i p hj
      obtain ⟨⟨p', left⟩, hp, rfl⟩ := Option.map_eq_some_iff.1 hs
      rcases set_eq_some hi with ⟨hne, hi⟩ | ⟨rfl, rfl⟩
      · exact .same tx hi (by simp) (by simp [hne])
      · cases p with
        | counting ended | counted ended blockCount => cases e <;> cases hp
        | finished => cases hp
        | streaming before tx₀ =>
          simp only [Sync.Proc.handle] at hp
          split at hp
          · cases hp
          simp only [Option.map_eq_some_iff, Prod.mk.injEq, Sync.Proc.streaming.injEq] at hp
          obtain ⟨stream', hstep, ⟨rfl, -⟩, -⟩ := hp
          exact .own before tx₀ hj hstep
    · cases hs
  | commit j =>
    simp only [Sync.step] at hs
    split at hs
    · rename_i before block hj
      split at hs
      · cases hs
        rcases set_eq_some hi with ⟨hne, hi⟩ | ⟨rfl, hp⟩
        · exact .same tx hi (by simp) (by simp)
        · cases hp
          exact .same _ hj (by simp) (by simp)
      · cases hs
    · cases hs
  | commitOrphan j =>
    simp only [Sync.step] at hs
    split at hs
    · split at hs
      · cases hs
        exact .same tx hi (by simp) (by simp)
      · cases hs
    · cases hs
  | crash j =>
    simp only [Sync.step] at hs
    split at hs
    · cases hs
      rcases set_eq_some hi with ⟨hne, hi⟩ | ⟨-, hp⟩
      · exact .same tx hi (by simp) (by simp)
      · cases hp
    · cases hs

/-- A process that nothing has stopped has been handed everything it was due. -/
def Live (C : Chain) (s : St Bytes E) : Prop :=
  ∀ i sys, s.sys? i = some sys → Healthy sys.client →
    ∃ firstHeight, 1 ≤ firstHeight ∧ StreamServer.Inv C firstHeight sys

/-- No block is committed for which a process still waits that has been
answered null before its subscription took effect. -/
def OnTime (s : St Bytes E) (l : Lbl E) : Prop :=
  l = .commit → ∀ i < s.sync.procs.length, ∀ sys ∈ s.sys? i, Healthy sys.client →
    StreamServer.OnTime sys .commit

theorem live_init {C : Chain} {s : St Bytes E} (hs : Init s) : Live C s := by
  obtain ⟨n, rfl⟩ := hs
  intro i sys hi
  obtain ⟨tx, hp, -⟩ := sys?_eq_some.1 hi
  simp [Sync.init] at hp

theorem live_commit {C : Chain} {s : St Bytes E} (h : Live C s) (ht : OnTime s .commit) :
    Live C { s with committed := s.committed + 1 } := by
  intro i t hi hh
  obtain ⟨tx, hp, ht'⟩ := sys?_eq_some.1 hi
  have hsys : s.sys? i = some { t with committed := s.committed } := by
    rw [ht']
    exact sys?_eq_some.2 ⟨tx, hp, rfl⟩
  obtain ⟨firstHeight, hF, hinv⟩ := h i _ hsys hh
  have hlt : i < s.sync.procs.length := (List.getElem?_eq_some_iff.1 hp).1
  refine ⟨firstHeight, hF, StreamServer.inv_step hF hinv (ht rfl i hlt _ hsys hh) ?_⟩
  rw [ht']
  rfl

/-- The server evaluates a query or sets up a subscription. -/
theorem live_ask {C : Chain} {s : St Bytes E} {i : Nat} {sys sys' : Sys E} {l : StreamServer.Lbl}
    (h : Live C s) (hi : s.sys? i = some sys) (hl : l = .evaluate ∨ l = .subscribe)
    (hs : sysStep C sys l = some sys') : Live C (s.withLink i ⟨sys'.query, sys'.sub, sys'.answeredNull⟩) := by
  have hsame : sys'.client = sys.client ∧ sys'.committed = sys.committed ∧ l ≠ .commit := by
    rcases hl with rfl | rfl
    · cases StreamServer.move_of_step hs with
      | evaluate hloop hq => exact ⟨rfl, rfl, by simp⟩
    · cases StreamServer.move_of_step hs with
      | subscribe hsub => exact ⟨rfl, rfl, by simp⟩
  obtain ⟨hclient, hcommitted, hne⟩ := hsame
  intro j t hj hh
  obtain ⟨tx, hp, ht⟩ := sys?_eq_some.1 hj
  by_cases hji : j = i
  · subst hji
    obtain ⟨tx', hp', hsys⟩ := sys?_eq_some.1 hi
    have hstream : t.client = sys.client := by
      have := hp.symm.trans hp'
      simp only [Option.some.injEq, Sync.Proc.streaming.injEq] at this
      exact this.1
    have hc : sys.committed = s.committed := by rw [hsys]
    have ht' : t = sys' := by
      rw [ht]
      cases sys'
      simp only [St.withLink, Function.update_self] at hclient hcommitted ⊢
      rw [hclient, hcommitted, hc, hstream]
    rw [hstream] at hh
    obtain ⟨firstHeight, hF, hinv⟩ := h j sys hi hh
    exact ⟨firstHeight, hF, ht' ▸ StreamServer.inv_step hF hinv (fun e => absurd e hne) hs⟩
  · refine h j t (sys?_eq_some.2 ⟨tx, hp, ?_⟩) hh
    simpa only [St.withLink, Function.update_of_ne hji] using ht

/-- An event of the processes: whatever it hands to a process that stays
healthy is a move of that process and the server. -/
theorem live_sync {W : Wire Bytes} {C : Chain} {s : St Bytes E} {sync : Sync.St Bytes E} {e : Sync.Ev E}
    {links : Nat → Link} (h : Live C s) (hs : Sync.step W s.sync e = some sync)
    (hsame : ∀ j, e ≠ .blockCountReply j → (∀ e', e ≠ .stream j e') → links j = s.links j)
    (hopen : ∀ j, e = .blockCountReply j → links j = .fresh)
    (hown : ∀ j e' sys stream, e = .stream j e' → s.sys? j = some sys →
      StreamBlocks.step sys.client e' = some stream → halts e' = false →
      ∃ l ≠ StreamServer.Lbl.commit, sysStep C sys l =
        some ⟨stream, s.committed, (links j).query, (links j).sub, (links j).answeredNull⟩) :
    Live C ⟨sync, s.committed, links⟩ := by
  intro j t hj hh
  obtain ⟨tx, hp, ht⟩ := sys?_eq_some.1 hj
  have hcame := came_step hs hp
  cases hcame with
  | same tx' hp' hopen' hown' =>
    refine h j t (sys?_eq_some.2 ⟨tx', hp', ?_⟩) hh
    rw [← hsame j hopen' hown']
    exact ht
  | @own e' before tx' hp' hstep =>
    have hsys : s.sys? j = some ⟨before, s.committed, (s.links j).query, (s.links j).sub,
        (s.links j).answeredNull⟩ := sys?_eq_some.2 ⟨tx', hp', rfl⟩
    obtain ⟨hbefore, hhalts⟩ := healthy_step hstep hh
    obtain ⟨l, hl, hl'⟩ := hown j e' _ _ rfl hsys hstep hhalts
    obtain ⟨firstHeight, hF, hinv⟩ := h j _ hsys hbefore
    refine ⟨firstHeight, hF, ?_⟩
    rw [ht]
    exact StreamServer.inv_step hF hinv (fun e => absurd e hl) hl'
  | opened n hstream =>
    refine ⟨n + 1, Nat.le_add_left 1 n, ?_⟩
    rw [ht, hstream]
    simp only [hopen j rfl]
    exact StreamServer.inv_init ⟨s.committed, rfl⟩

theorem live_step {W : Wire Bytes} {C : Chain} {s s' : St Bytes E} {l : Lbl E} (h : Live C s)
    (ht : OnTime s l) (hs : step W C s l = some s') : Live C s' := by
  cases l with
  | commit =>
    cases hs
    exact live_commit h ht
  | evaluate i =>
    simp only [step, Option.bind_eq_some_iff, Option.map_eq_some_iff] at hs
    obtain ⟨sys, hi, sys', hsys, rfl⟩ := hs
    exact live_ask h hi (.inl rfl) hsys
  | subscribe i =>
    simp only [step, Option.bind_eq_some_iff, Option.map_eq_some_iff] at hs
    obtain ⟨sys, hi, sys', hsys, rfl⟩ := hs
    exact live_ask h hi (.inr rfl) hsys
  | reply i =>
    simp only [step, Option.bind_eq_some_iff, Option.map_eq_some_iff] at hs
    obtain ⟨answer, hq, sync, hsync, rfl⟩ := hs
    refine live_sync (s := s) h hsync (fun j _ hne => ?_) (by simp) fun j e' sys stream he hsys hstep _ => ?_
    · exact Function.update_of_ne (fun e => hne _ (by rw [e])) _ _
    · cases he
      obtain ⟨tx, -, hsys⟩ := sys?_eq_some.1 hsys
      refine ⟨.reply, by simp, ?_⟩
      rw [hsys]
      simp [sysStep, hq, hstep, St.withLink]
  | deliver i =>
    simp only [step, Option.bind_eq_some_iff, Option.ite_none_right_eq_some,
      Option.map_eq_some_iff] at hs
    obtain ⟨n, hn, hle, sync, hsync, rfl⟩ := hs
    refine live_sync (s := s) h hsync (fun j _ hne => ?_) (by simp) fun j e' sys stream he hsys hstep _ => ?_
    · exact Function.update_of_ne (fun e => hne _ (by rw [e])) _ _
    · cases he
      obtain ⟨tx, -, hsys⟩ := sys?_eq_some.1 hsys
      refine ⟨.deliver, by simp, ?_⟩
      rw [hsys]
      simp [sysStep, hn, hle, hstep, St.withLink]
  | sync e =>
    simp only [step] at hs
    split at hs
    · cases hs
    rename_i hanswer
    obtain ⟨sync, hsync, rfl⟩ := Option.map_eq_some_iff.1 hs
    rw [relink_committed]
    refine live_sync h hsync (fun j hopen hown => ?_) (fun j he => ?_)
      fun j e' sys stream he hsys hstep hhalts => ?_
    · unfold St.relink
      split
      · exact Function.update_of_ne (fun e => hopen (by rw [e])) _ _
      · exact Function.update_of_ne (fun e => hown _ (by rw [e])) _ _
      · rfl
    · subst he
      exact Function.update_self _ _ _
    · subst he
      -- of the events that halt nothing only the end of a call is no answer of the server
      cases e' with
      | onBlockResolve =>
        obtain ⟨tx, -, hsys⟩ := sys?_eq_some.1 hsys
        refine ⟨.onBlockResolve, by simp, ?_⟩
        rw [hsys]
        simp [sysStep, hstep, St.relink]
      | getBlockResolve | commit => exact absurd rfl hanswer
      | _ => cases hhalts

theorem live_inductive (W : Wire Bytes) (C : Chain) :
    ((lts W C E).restrict OnTime).Inductive (Live C) where
  init _ hs := live_init hs
  step _ _ _ h hs := live_step h hs.1 hs.2

/-- An idle process has nothing of the chain before it. -/
theorem committed_lt_of_idle {C : Chain} {firstHeight : Nat} {sys : Sys E}
    (h : StreamServer.Inv C firstHeight sys) (hidle : StreamServer.Idle sys) :
    sys.committed < sys.client.height := by
  obtain ⟨hget, hbusy, hsub⟩ := hidle
  have hb : sys.client.loop ≠ .onBlock ∧ sys.client.consumer = none := by
    simpa [StreamBlocks.busy] using hbusy
  have hl : sys.client.loop = .consume ∨ sys.client.loop = .returned := by
    cases hl : sys.client.loop with
    | getBlock => exact absurd hl hget
    | onBlock => exact absurd hl hb.1
    | consume => exact .inl rfl
    | returned => exact .inr rfl
  have haw : StreamServer.Awaiting sys := .inr hl
  cases hs : sys.sub with
  | none => exact ((h.unsubscribed hs).2.2 haw).1
  | some n =>
    obtain ⟨-, m, hm, -, hle⟩ := h.subscribed n hs
    have h1 := hle haw
    have h2 := hsub n hs
    simp only [StreamServer.expected, hb.2, Option.isSome_none, Bool.toNat_false] at h1
    rw [(h.free hl hb.2).1, List.length_nil] at hm
    omega

/-! ## Results -/

/-- **An idle replica is complete.** In every run in which no block is
committed too late for a process that nothing has stopped: whenever such a
process is idle, the database is the whole chain. -/
theorem replica_complete (W : Wire Bytes) (C : Chain) (s : St Bytes E)
    (hr : ((lts W C E).restrict OnTime).Reachable s) (i : Nat) (sys : Sys E) (hi : s.sys? i = some sys)
    (hh : Healthy sys.client) (hidle : StreamServer.Idle sys) :
    s.sync.db.blockCount = s.committed ∧ applyBlocks W .empty (upTo C s.committed) = .ok s.sync.db := by
  have h := ((inv_inductive W C).restrict OnTime).reachable s hr
  obtain ⟨firstHeight, -, hinv⟩ := (live_inductive W C).reachable s hr i sys hi hh
  have hlt := committed_lt_of_idle hinv hidle
  obtain ⟨tx, hp, hsys⟩ := sys?_eq_some.1 hi
  have hc : sys.committed = s.committed := by rw [hsys]
  have hdue : sys.client.height ≤ s.sync.db.blockCount + 1 :=
    (h.sync.procs _ (List.mem_of_getElem? hp)).2.1
  have hcount : s.sync.db.blockCount = s.committed := by
    have := h.count
    omega
  exact ⟨hcount, hcount ▸ h.projected⟩

/-- One block: asked for, handed over, applied. -/
def handleOne (i : Nat) : List (Lbl E) :=
  [.evaluate i, .reply i, .sync (.commit i), .sync (.stream i .onBlockResolve)]

/-- A sync that is left alone while it handles `k` blocks and is told that
there are no more. -/
def syncAlone (i k : Nat) : List (Lbl E) :=
  [.sync .start, .sync (.blockCount i), .sync (.blockCountReply i)] ++
    (List.replicate k (handleOne i)).flatten ++ [.evaluate i, .reply i]

instance (c : StreamBlocks.St String) : Decidable (Healthy c) :=
  inferInstanceAs (Decidable (_ ∧ _ ∧ _ ∧ _))

instance (sys : Sys E) : Decidable (StreamServer.Idle sys) :=
  inferInstanceAs (Decidable (_ ∧ _ ∧ ∀ n ∈ sys.sub, _))

instance (s : St Bytes String) (l : Lbl String) : Decidable (OnTime s l) :=
  inferInstanceAs (Decidable (l = .commit → ∀ i < s.sync.procs.length, ∀ sys ∈ s.sys? i, _ → _))

/-- Block 1 is stored already, and block 2 is committed between the reply to
`getBlock(2)` and the moment it arrives. -/
def resumed : List (Lbl String) :=
  syncAlone 0 1 ++ [.sync (.crash 0), .sync .start, .sync (.blockCount 1), .sync (.blockCountReply 1),
    .evaluate 1, .subscribe 1, .commit, .deliver 1, .reply 1, .sync (.commit 1),
    .sync (.stream 1 .onBlockResolve)]

theorem replica_complete_resumed :
    ∃ s, LTS.exec (LTS.guarded OnTime (step plainWire StreamServer.blankChain)) (fresh 1) resumed =
        some s ∧ s.sync.db.blockCount = 2 ∧
      applyBlocks plainWire .empty (upTo StreamServer.blankChain 2) = .ok s.sync.db := by
  have hrun : (LTS.exec (LTS.guarded OnTime (step plainWire StreamServer.blankChain)) (fresh 1)
      resumed).isSome = true := by decide +kernel
  have hidle : ∀ s ∈ LTS.exec (LTS.guarded OnTime (step plainWire StreamServer.blankChain)) (fresh 1)
      resumed, s.committed = 2 ∧ ∃ sys ∈ s.sys? 1, Healthy sys.client ∧ StreamServer.Idle sys := by
    decide +kernel
  obtain ⟨s, hs⟩ := Option.isSome_iff_exists.1 hrun
  obtain ⟨hcommitted, sys, hsys, hh, hidle⟩ := hidle s hs
  have h := replica_complete plainWire StreamServer.blankChain s
    (LTS.restrict_reachable_of_exec ⟨1, rfl⟩ hs) 1 sys hsys hh hidle
  rw [hcommitted] at h
  exact ⟨s, hs, h⟩

/-! ## Recovery -/

/-- `s` with process `i` streaming, its link, and the tables. -/
def St.running (s : St Bytes E) (i : Nat) (stream : StreamBlocks.St E) (tx : Sync.Tx) (link : Link)
    (db : Db Bytes) : St Bytes E where
  sync := { db := db, procs := s.sync.procs.set i (.streaming stream tx), orphans := s.sync.orphans }
  committed := s.committed
  links := Function.update s.links i link

section
variable {W : Wire Bytes} {C : Chain} {s : St Bytes E} {i : Nat} {stream stream' : StreamBlocks.St E}
  {tx : Sync.Tx} {link : Link} {db db' : Db Bytes}

theorem evaluate_running (tx : Sync.Tx) (db : Db Bytes) (hi : i < s.sync.procs.length) (hloop : stream.loop = .getBlock)
    (hq : link.query = none) :
    ∃ nulls, step W C (s.running i stream tx link db) (.evaluate i) = some (s.running i stream tx
      ⟨some (StreamServer.getBlock C s.committed stream.height), link.sub, nulls⟩ db) := by
  simp only [step, St.sys?, St.running, List.getElem?_set_self hi, Option.bind_some, sysStep,
    Function.update_self, hloop, hq, and_self, if_true, Option.map_some, St.withLink,
    Function.update_idem]
  exact ⟨_, rfl⟩

theorem reply_running {answer : Option Block} (tx : Sync.Tx) (link : Link) (db : Db Bytes)
    (hi : i < s.sync.procs.length)
    (hq : link.query = some answer)
    (hs : StreamBlocks.step stream (.getBlockResolve answer) = some stream') :
    step W C (s.running i stream tx link db) (.reply i) = some (s.running i stream'
      (tx.next (.getBlockResolve answer : StreamBlocks.Ev E)
        ((delivered stream').drop (delivered stream).length)) { link with query := none } db) := by
  simp [step, St.running, hq, Sync.step, List.getElem?_set_self hi, Sync.Proc.handle,
    StreamBlocks.Ev.advance, hs, St.withLink]

theorem commit_running {block : Block} (hi : i < s.sync.procs.length)
    (hb : applyBlock W db block = .ok db') :
    step W C (s.running i stream (.running block) link db) (.sync (.commit i)) =
      some (s.running i stream .committed link db') := by
  simp [step, St.running, isAnswer, Sync.step, List.getElem?_set_self hi, hb, St.relink]

theorem onBlockResolve_running (link : Link) (db : Db Bytes) (hi : i < s.sync.procs.length)
    (hs : StreamBlocks.step stream .onBlockResolve = some stream') :
    step W C (s.running i stream .committed link db) (.sync (.stream i .onBlockResolve)) =
      some (s.running i stream' (Sync.Tx.committed.next (.onBlockResolve : StreamBlocks.Ev E)
        ((delivered stream').drop (delivered stream).length)) link db) := by
  simp [step, St.running, isAnswer, Sync.step, List.getElem?_set_self hi, Sync.Proc.handle,
    StreamBlocks.Ev.advance, hs, St.relink]

/-- The stream is about to ask for a block, with nothing queued. -/
structure Asks (stream : StreamBlocks.St E) : Prop where
  loop : stream.loop = .getBlock
  queue : stream.streamQueue = []
  consumer : stream.consumer = none
  healthy : Healthy stream

/-- The stream while its block is applied. -/
def handing (C : Chain) (stream : StreamBlocks.St E) : StreamBlocks.St E :=
  { stream with loop := .onBlock, log := stream.log ++ [.call (C.block stream.height)] }

/-- The stream after its block was applied. -/
def handled (C : Chain) (stream : StreamBlocks.St E) : StreamBlocks.St E :=
  { handing C stream with
    loop := .getBlock, height := stream.height + 1, log := (handing C stream).log ++ [.resolved] }

theorem asks_handled (C : Chain) (ha : Asks stream) : Asks (handled C stream) := by
  obtain ⟨-, hqueue, hcons, he, hse, hst, hstream⟩ := ha
  have hst' : stream.log.any Obs.isStop = false := hst
  refine ⟨rfl, hqueue, hcons, he, hse, ?_, hstream⟩
  simp [StreamBlocks.stopped, handled, handing, hst', Obs.isStop]

theorem handleOne_running (hi : i < s.sync.procs.length) (ha : Asks stream)
    (h1 : 1 ≤ stream.height) (hle : stream.height ≤ s.committed) (hq : link.query = none)
    (hb : applyBlock W db (C.block stream.height) = .ok db') :
    ∃ nulls, LTS.exec (step W C) (s.running i stream .idle link db) (handleOne i) =
      some (s.running i (handled C stream) .idle ⟨none, link.sub, nulls⟩ db') := by
  obtain ⟨hloop, hqueue, -, he, -⟩ := ha
  have hblock : StreamServer.getBlock C s.committed stream.height = some (C.block stream.height) := by
    simp [StreamServer.getBlock, h1, hle]
  obtain ⟨nulls, hevaluate⟩ :=
    evaluate_running (W := W) (C := C) .idle db hi hloop hq
  rw [hblock] at hevaluate
  have hcall : StreamBlocks.step stream (.getBlockResolve (some (C.block stream.height))) =
      some (handing C stream) := by
    simp [StreamBlocks.step, hloop, he, StreamBlocks.streamReached, hqueue, handing,
      show blockHeight (C.block stream.height) = stream.height from C.height _]
  have hreply := reply_running (W := W) (C := C) .idle
    ⟨some (some (C.block stream.height)), link.sub, nulls⟩ db hi rfl hcall
  have hstarted : (delivered (handing C stream)).drop (delivered stream).length =
      [C.block stream.height] := drop_call _ _
  rw [hstarted] at hreply
  have hresolve : StreamBlocks.step (handing C stream) .onBlockResolve = some (handled C stream) := by
    simp [StreamBlocks.step, handing, handled]
  have hdone := onBlockResolve_running (W := W) (C := C) ⟨none, link.sub, nulls⟩ db' hi
    hresolve
  have hnew : delivered (handled C stream) = delivered (handing C stream) := delivered_of_log rfl rfl
  rw [hnew, List.drop_length] at hdone
  refine ⟨nulls, ?_⟩
  simp only [LTS.exec, handleOne, hevaluate, Option.bind_some, hreply, Sync.Tx.next,
    commit_running hi hb, hdone]

/-- As many blocks as are left. -/
theorem handleAll_running (k : Nat) (hi : i < s.sync.procs.length) (ha : Asks stream)
    (h1 : 1 ≤ stream.height) (hle : stream.height + k ≤ s.committed + 1) (hq : link.query = none)
    (hb : ((List.range' stream.height k).map C.block).foldlM (applyBlock W) db = .ok db') :
    ∃ stream' nulls, LTS.exec (step W C) (s.running i stream .idle link db)
        (List.replicate k (handleOne i)).flatten =
          some (s.running i stream' .idle ⟨none, link.sub, nulls⟩ db') ∧
      Asks stream' ∧ stream'.height = stream.height + k := by
  induction k generalizing stream link db with
  | zero =>
    cases hb
    obtain ⟨query, sub, nulls⟩ := link
    cases hq
    exact ⟨stream, nulls, rfl, ha, rfl⟩
  | succ k ih =>
    rw [List.range'_succ, List.map_cons, List.foldlM_cons, bind_eq_ok] at hb
    obtain ⟨db₁, hone, hrest⟩ := hb
    obtain ⟨nulls, hexec⟩ := handleOne_running hi ha h1 (by omega) hq hone
    have hheight : (handled C stream).height = stream.height + 1 := rfl
    obtain ⟨stream', nulls', hexec', ha', hh⟩ := ih (asks_handled C ha)
      (by omega) (by omega) (rfl : (⟨none, link.sub, nulls⟩ : Link).query = none) hrest
    refine ⟨stream', nulls', ?_, ha', by omega⟩
    rw [List.replicate_succ, List.flatten_cons]
    exact LTS.exec_append hexec hexec'
end

/-- There are no more blocks, and the process waits for the subscription. -/
theorem caughtUp_running {W : Wire Bytes} {C : Chain} {s : St Bytes E} {i : Nat}
    {stream : StreamBlocks.St E} (link : Link) (db : Db Bytes) (hi : i < s.sync.procs.length)
    (ha : Asks stream) (hh : stream.height = s.committed + 1) (hq : link.query = none)
    (hsub : link.sub = none) :
    ∃ s' sys, LTS.exec (step W C) (s.running i stream .idle link db) [.evaluate i, .reply i] = some s' ∧
      s'.sync.db = db ∧ s'.committed = s.committed ∧ s'.sys? i = some sys ∧ Healthy sys.client ∧
      StreamServer.Idle sys := by
  obtain ⟨hloop, hqueue, hcons, he, hse, hst, hstream⟩ := ha
  have hnull : StreamServer.getBlock C s.committed stream.height = none := by
    simp [StreamServer.getBlock, hh]
  obtain ⟨nulls, hevaluate⟩ :=
    evaluate_running (W := W) (C := C) .idle db hi hloop hq
  rw [hnull] at hevaluate
  have hleave : StreamBlocks.step stream (.getBlockResolve none) =
      some { stream with onBlockLock := false, loop := .returned } := by
    simp [StreamBlocks.step, hloop, StreamBlocks.afterLoop, he, StreamBlocks.streamTryConsume, hqueue,
      whileQueue, returnTo]
  have hreply := reply_running (W := W) (C := C) .idle ⟨some none, link.sub, nulls⟩ db hi rfl hleave
  refine ⟨s.running i { stream with onBlockLock := false, loop := .returned } .idle
    ⟨none, link.sub, nulls⟩ db,
    ⟨{ stream with onBlockLock := false, loop := .returned }, s.committed, none, link.sub, nulls⟩,
    ?_, rfl, rfl, ?_, ⟨he, hse, hst, hstream⟩, ?_⟩
  · simp only [delivered, List.drop_length, Sync.Tx.next] at hreply
    simp only [LTS.exec, hevaluate, Option.bind_some, hreply]
  · refine sys?_eq_some.2 ⟨_, List.getElem?_set_self hi, ?_⟩
    simp [St.running]
  · simp [StreamServer.Idle, StreamBlocks.busy, hcons, hsub]

/-- **A replica recovers.** Whatever any number of processes have done and
left behind: a sync that is started now and left alone brings the database up
to the whole chain, if the chain can be applied at all, and is idle then. -/
theorem replica_recovers (W : Wire Bytes) (C : Chain) (s : St Bytes E) (hr : (lts W C E).Reachable s)
    (db : Db Bytes) (hdb : applyBlocks W .empty (upTo C s.committed) = .ok db) :
    ∃ s' sys, LTS.exec (step W C) s
        (syncAlone s.sync.procs.length (s.committed - s.sync.db.blockCount)) = some s' ∧
      s'.sync.db = db ∧ s'.committed = s.committed ∧ s'.sys? s.sync.procs.length = some sys ∧
      Healthy sys.client ∧ StreamServer.Idle sys := by
  have h := (inv_inductive W C).reachable s hr
  have hcount := h.count
  -- the process has opened its stream
  have hopen : ∃ s₁ : St Bytes E, s.sync.procs.length < s₁.sync.procs.length ∧
      s₁.committed = s.committed ∧ LTS.exec (step W C) s
        [.sync .start, .sync (.blockCount s.sync.procs.length), .sync (.blockCountReply s.sync.procs.length)] =
          some (s₁.running s.sync.procs.length (StreamBlocks.init (s.sync.db.blockCount + 1)) .idle .fresh
            s.sync.db) := by
    refine ⟨{ s with sync := { s.sync with procs := s.sync.procs ++ [.counting false] } }, by simp, rfl, ?_⟩
    simp [LTS.exec, step, isAnswer, Sync.step, St.relink, St.running, St.withLink]
  obtain ⟨s₁, hi, hc, hopen⟩ := hopen
  have hrest : ((List.range' (s.sync.db.blockCount + 1) (s.committed - s.sync.db.blockCount)).map
      C.block).foldlM (applyBlock W) s.sync.db = .ok db := by
    have hsplit : upTo C s.committed = upTo C s.sync.db.blockCount ++
        (List.range' (s.sync.db.blockCount + 1) (s.committed - s.sync.db.blockCount)).map C.block := by
      unfold upTo
      rw [← List.map_append, Nat.add_comm _ 1, List.range'_append_1]
      congr 2
      omega
    rw [hsplit, applyBlocks, List.foldlM_append, bind_eq_ok] at hdb
    obtain ⟨db₁, h₁, h₂⟩ := hdb
    have hsame := h.projected
    unfold applyBlocks at hsame
    rw [hsame] at h₁
    cases h₁
    exact h₂
  have hasks : Asks (StreamBlocks.init (s.sync.db.blockCount + 1) : StreamBlocks.St E) :=
    ⟨rfl, rfl, rfl, rfl, rfl, rfl, rfl⟩
  have hheight : (StreamBlocks.init (s.sync.db.blockCount + 1) : StreamBlocks.St E).height =
      s.sync.db.blockCount + 1 := rfl
  obtain ⟨stream, nulls, hall, ha, hh⟩ := handleAll_running (W := W) (C := C) (s := s₁)
    (s.committed - s.sync.db.blockCount) hi hasks (by omega) (by omega)
    (rfl : Link.fresh.query = none) hrest
  obtain ⟨s', sys, hlast, hdb', hcommitted, hsys, hhealthy, hidle⟩ :=
    caughtUp_running (W := W) (C := C) (s := s₁) ⟨none, Link.fresh.sub, nulls⟩ db hi ha (by omega) rfl
      rfl
  refine ⟨s', sys, ?_, hdb', hcommitted.trans hc, hsys, hhealthy, hidle⟩
  exact LTS.exec_append (LTS.exec_append hopen hall) hlast

theorem replica_recovers_overlapping :
    ∃ s db s' sys, LTS.exec (step plainWire StreamServer.blankChain) (fresh 3) overlapping = some s ∧
      applyBlocks plainWire .empty (upTo StreamServer.blankChain 3) = .ok db ∧
      LTS.exec (step plainWire StreamServer.blankChain) s (syncAlone 2 1) = some s' ∧
      s'.sync.db = db ∧ s'.sys? 2 = some sys ∧ StreamServer.Idle sys := by
  have hrun : (LTS.exec (step plainWire StreamServer.blankChain) (fresh 3) overlapping).map
      (fun s => (s.sync.procs.length, s.committed, s.sync.db.blockCount)) = some (2, 3, 2) := by
    decide +kernel
  obtain ⟨s, hs, hstate⟩ := Option.map_eq_some_iff.1 hrun
  simp only [Prod.mk.injEq] at hstate
  obtain ⟨hprocs, hcommitted, hcount⟩ := hstate
  obtain ⟨db, hdb⟩ := exists_of_isOk
    (x := applyBlocks plainWire .empty (upTo StreamServer.blankChain 3)) (by decide +kernel)
  obtain ⟨s', sys, hexec, hs', -, hsys, -, hidle⟩ := replica_recovers plainWire StreamServer.blankChain s
    (LTS.reachable_of_exec ⟨3, rfl⟩ hs) db (hcommitted ▸ hdb)
  rw [hprocs, hcommitted, hcount] at hexec
  rw [hprocs] at hsys
  exact ⟨s, db, s', sys, hs, hdb, hexec, hs', hsys, hidle⟩

end Explorer.Iroha.Replica
