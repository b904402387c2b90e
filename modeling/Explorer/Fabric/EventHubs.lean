import Mathlib.Data.List.AList
import Explorer.Core.LTS

/-!
# The block listeners of a `FabricEvent`

`createChannelEventHub` is awaited by nobody and enters its listener into
`channelEventHubs` after two awaits. Whoever asks in between, `initialize` or
the timer of `SyncPlatform`, starts another. The removals that
`disconnectEventHubs` starts come to the gateway after an await as well.

`channelEventHubs` is the map, `blockListeners` what the gateway has. A
listener, a closure of its own for each creation, is a number. The gateway has
it from the moment `addBlockListener` resolves, and a network that has been
opened is there for the removal: `getNetwork` is not rejected for it.

* `oneListener_step`: which completions keep a channel with one listener.
* `leaving_step`: after `disconnectEventHubs`, a listener that is not about to
  be removed is one that has been added since.
* `listeners_iff`: the outcome, for every order of the completions.
-/
namespace Explorer.Fabric.EventHubs

/-! ## Listeners -/

structure Hubs where
  channelEventHubs : AList fun _ : String => Nat
  blockListeners : List (String × Nat)
  next : Nat

/-- The listeners that the gateway has for a channel. -/
def Hubs.listeners (h : Hubs) (channelName : String) : List Nat :=
  (h.blockListeners.filter fun p => p.1 = channelName).map Prod.snd

/-- mirrors app/platform/fabric/sync/FabricEvent.js:102-108 -/
def isChannelEventHubConnected (h : Hubs) (channelName : String) : Bool :=
  (h.channelEventHubs.lookup channelName).isSome

/-- `addBlockListener` has resolved.
mirrors app/platform/fabric/sync/FabricEvent.js:61-76 -/
def Hubs.add (h : Hubs) (channelName : String) : Hubs where
  channelEventHubs := h.channelEventHubs.insert channelName h.next
  blockListeners := h.blockListeners ++ [(channelName, h.next)]
  next := h.next + 1

/-- mirrors app/platform/fabric/sync/FabricEvent.js:123-124 -/
def Hubs.remove (h : Hubs) (channelName : String) (listener : Nat) : Hubs where
  channelEventHubs := h.channelEventHubs.erase channelName
  blockListeners := h.blockListeners.filter fun p => p ≠ (channelName, listener)
  next := h.next

/-! ## Calls -/

/-- The awaits: the two of `createChannelEventHub`, the one in the loop of the
timer with the index it goes on at, and the one of `disconnectChannelEventHub`
with the listener it has read before. -/
inductive Task where
  | getNetwork (channelName : String)
  | addBlockListener (channelName : String)
  | synchBlocks (next : Nat)
  | disconnect (channelName : String) (listener : Nat)
  deriving DecidableEq, Repr

inductive Reply where
  | done
  | rejected
  deriving DecidableEq, Repr

/-- mirrors app/platform/fabric/sync/FabricEvent.js:31-47 -/
def initializeEvents (h : Hubs) (channels : List String) : List Task :=
  (channels.filter fun channelName => !isChannelEventHubConnected h channelName).map .getNetwork

/-- The loop of the timer from an index on, over the channels that remain.
mirrors app/platform/fabric/sync/SyncPlatform.js:140-152 -/
def checkFrom (h : Hubs) : List String → Nat → List Task
  | [], _ => []
  | channelName :: rest, next =>
    if isChannelEventHubConnected h channelName then [.synchBlocks (next + 1)]
    else .getNetwork channelName :: checkFrom h rest (next + 1)

/-- mirrors app/platform/fabric/sync/FabricEvent.js:116-144 -/
def disconnectEventHubs (h : Hubs) : List Task :=
  h.channelEventHubs.entries.filterMap fun e => (h.channelEventHubs.lookup e.1).map (.disconnect e.1)

/-- The await is over and the call runs to its next one.
mirrors app/platform/fabric/sync/FabricEvent.js:54-82,116-126,
app/platform/fabric/sync/SyncPlatform.js:140-152 -/
def Task.resume (h : Hubs) (channels : List String) : Task → Reply → Option (Hubs × List Task)
  | .getNetwork channelName, .done => some (h, [.addBlockListener channelName])
  | .addBlockListener channelName, .done => some (h.add channelName, [])
  | .synchBlocks next, .done => some (h, checkFrom h (channels.drop next) next)
  | .disconnect channelName listener, .done => some (h.remove channelName listener, [])
  -- logged, or an unhandled rejection of the timer's call
  | .getNetwork _, .rejected | .addBlockListener _, .rejected | .synchBlocks _, .rejected => some (h, [])
  | .disconnect _ _, .rejected => none

/-! ## The process -/

structure St where
  channels : List String
  hubs : Hubs
  tasks : List Task

/-- `reply i r`: what task `i` awaits is over. -/
inductive Ev where
  | addChannel (channelName : String)
  | initializeEvents
  | timer
  | disconnectEventHubs
  | reply (i : Nat) (r : Reply)
  deriving DecidableEq, Repr

def St.start (s : St) (ts : List Task) : St := { s with tasks := s.tasks ++ ts }

def step (s : St) : Ev → Option St
  | .addChannel channelName => some { s with channels := s.channels ++ [channelName] }
  | .initializeEvents => some (s.start (EventHubs.initializeEvents s.hubs s.channels))
  | .timer => some (s.start (checkFrom s.hubs s.channels 0))
  | .disconnectEventHubs => some (s.start (EventHubs.disconnectEventHubs s.hubs))
  | .reply i r =>
    match s.tasks[i]? with
    | some t => (t.resume s.hubs s.channels r).map fun (h, ts) => ⟨s.channels, h, s.tasks.eraseIdx i ++ ts⟩
    | none => none

def init : St := ⟨[], ⟨∅, [], 0⟩, []⟩

def lts : LTS St Ev := LTS.ofFn (· = init) step

/-! ## One listener for a channel -/

/-- For every channel the gateway has at most one listener, the stored one. -/
def OneListener (h : Hubs) : Prop :=
  ∀ channelName, (h.listeners channelName).Sublist (h.channelEventHubs.lookup channelName).toList

/-- The channel that a resumed task adds a listener for. -/
def Task.adds : Task → Reply → Option String
  | .addBlockListener channelName, .done => some channelName
  | _, _ => none

/-- The listener that a resumed task removes. -/
def Task.removes : Task → Reply → Option (String × Nat)
  | .disconnect channelName listener, .done => some (channelName, listener)
  | _, _ => none

def adds (s : St) : Ev → Option String
  | .reply i r => s.tasks[i]?.bind fun t => t.adds r
  | _ => none

def removes (s : St) : Ev → Option (String × Nat)
  | .reply i r => s.tasks[i]?.bind fun t => t.removes r
  | _ => none

/-- A creation that completes finds no listener of its channel at the gateway,
and a removal that completes finds no other one than its own. -/
def Apart (s : St) (ev : Ev) : Prop :=
  (∀ channelName ∈ adds s ev, s.hubs.listeners channelName = []) ∧
    ∀ p ∈ removes s ev, ∀ listener ∈ s.hubs.listeners p.1, listener = p.2

instance decidableApart (s : St) (ev : Ev) : Decidable (Apart s ev) :=
  inferInstanceAs (Decidable (_ ∧ _))

/-- No creation completes. -/
def AddsNone (s : St) (ev : Ev) : Prop := adds s ev = none

instance decidableAddsNone (s : St) (ev : Ev) : Decidable (AddsNone s ev) :=
  inferInstanceAs (Decidable (adds s ev = none))

theorem listeners_add_self (h : Hubs) (channelName : String) :
    (h.add channelName).listeners channelName = h.listeners channelName ++ [h.next] := by
  simp [Hubs.add, Hubs.listeners]

theorem listeners_add_ne (h : Hubs) {channelName name : String} (hne : name ≠ channelName) :
    (h.add channelName).listeners name = h.listeners name := by
  simp [Hubs.add, Hubs.listeners, Ne.symm hne]

theorem listeners_remove_self (h : Hubs) (channelName : String) (listener : Nat) :
    (h.remove channelName listener).listeners channelName =
      (h.listeners channelName).filter fun l => l ≠ listener := by
  unfold Hubs.remove Hubs.listeners
  rw [List.filter_map, List.filter_filter, List.filter_filter]
  congr 1
  refine List.filter_congr fun p _ => ?_
  by_cases hp : p.1 = channelName
  · simp [Prod.ext_iff, hp]
  · simp [hp]

theorem listeners_remove_ne (h : Hubs) {channelName name : String} (listener : Nat) (hne : name ≠ channelName) :
    (h.remove channelName listener).listeners name = h.listeners name := by
  unfold Hubs.remove Hubs.listeners
  rw [List.filter_filter]
  congr 1
  refine List.filter_congr fun p _ => ?_
  by_cases hp : p.1 = name
  · simp [Prod.ext_iff, hp, hne]
  · simp [hp]

theorem oneListener_add_iff {h : Hubs} (hone : OneListener h) (channelName : String) :
    OneListener (h.add channelName) ↔ h.listeners channelName = [] := by
  constructor
  · intro hadd
    have hlen := (hadd channelName).length_le
    rw [listeners_add_self, List.length_append, List.length_singleton] at hlen
    have hopt : ((h.add channelName).channelEventHubs.lookup channelName).toList.length ≤ 1 := by
      cases (h.add channelName).channelEventHubs.lookup channelName <;> simp
    exact List.length_eq_zero_iff.1 (by omega)
  · intro hnone name
    by_cases hname : name = channelName
    · subst hname
      rw [listeners_add_self, hnone, Hubs.add, AList.lookup_insert]
      exact List.Sublist.refl _
    · rw [listeners_add_ne h hname, Hubs.add, AList.lookup_insert_ne hname]
      exact hone name

theorem oneListener_remove_iff {h : Hubs} (hone : OneListener h) (channelName : String) (listener : Nat) :
    OneListener (h.remove channelName listener) ↔ ∀ l ∈ h.listeners channelName, l = listener := by
  have hself : (h.remove channelName listener).channelEventHubs.lookup channelName = none := AList.lookup_erase ..
  constructor
  · intro hremove l hl
    have hsub := hremove channelName
    rw [hself, listeners_remove_self] at hsub
    by_contra hne
    have hmem : l ∈ (h.listeners channelName).filter fun l => l ≠ listener :=
      List.mem_filter.2 ⟨hl, decide_eq_true hne⟩
    rw [List.sublist_nil.1 hsub] at hmem
    cases hmem
  · intro hall name
    by_cases hname : name = channelName
    · subst hname
      rw [hself, listeners_remove_self]
      refine List.sublist_nil.2 (List.filter_eq_nil_iff.2 fun l hl => ?_)
      simp [hall l hl]
    · rw [listeners_remove_ne h listener hname, Hubs.remove, AList.lookup_erase_ne hname]
      exact hone name

/-! ## Steps -/

/-- What a resumed task does to the listeners. -/
inductive Change (h h' : Hubs) (t : Task) (r : Reply) : Prop where
  | same (hadds : t.adds r = none) (hremoves : t.removes r = none) (h : h' = h)
  | add (channelName : String) (ht : t = .addBlockListener channelName) (hr : r = .done)
      (h : h' = h.add channelName)
  | remove (channelName : String) (listener : Nat) (ht : t = .disconnect channelName listener) (hr : r = .done)
      (h : h' = h.remove channelName listener)

theorem disconnect_not_mem_checkFrom (h : Hubs) (channelName : String) (listener : Nat) :
    ∀ channels next, .disconnect channelName listener ∉ checkFrom h channels next
  | [], _ => List.not_mem_nil
  | name :: rest, next => by
    unfold checkFrom
    split
    · simp
    · rw [List.mem_cons]
      rintro (heq | hmem)
      · cases heq
      · exact disconnect_not_mem_checkFrom h channelName listener rest (next + 1) hmem

/-- Only `disconnectEventHubs` starts removals. -/
theorem change_resume {h h' : Hubs} {channels : List String} {t : Task} {r : Reply} {ts : List Task}
    (hs : t.resume h channels r = some (h', ts)) :
    Change h h' t r ∧ ∀ channelName listener, .disconnect channelName listener ∉ ts := by
  unfold Task.resume at hs
  split at hs <;> cases hs
  · exact ⟨.same rfl rfl rfl, by simp⟩
  · exact ⟨.add _ rfl rfl rfl, by simp⟩
  · exact ⟨.same rfl rfl rfl, fun _ _ => disconnect_not_mem_checkFrom _ _ _ _ _⟩
  · exact ⟨.remove _ _ rfl rfl rfl, by simp⟩
  all_goals exact ⟨.same rfl rfl rfl, by simp⟩

theorem step_reply {s s' : St} {i : Nat} {r : Reply} (hs : step s (.reply i r) = some s') :
    ∃ t ts, s.tasks[i]? = some t ∧ s'.tasks = s.tasks.eraseIdx i ++ ts ∧ Change s.hubs s'.hubs t r ∧
      ∀ channelName listener, .disconnect channelName listener ∉ ts := by
  simp only [step] at hs
  split at hs
  · rename_i t ht
    obtain ⟨⟨h', ts⟩, hresume, rfl⟩ := Option.map_eq_some_iff.1 hs
    obtain ⟨hchange, hts⟩ := change_resume hresume
    exact ⟨t, ts, ht, rfl, hchange, hts⟩
  · cases hs

/-- Every step but a reply leaves the listeners alone, and starts the removals
of the stored ones or none. -/
theorem step_call {s s' : St} {ev : Ev} (hev : ∀ i r, ev ≠ .reply i r) (hs : step s ev = some s') :
    s'.hubs = s.hubs ∧ ∃ ts, s'.tasks = s.tasks ++ ts ∧
      (ev = .disconnectEventHubs ∧ ts = disconnectEventHubs s.hubs ∨
        ev ≠ .disconnectEventHubs ∧ ∀ channelName listener, .disconnect channelName listener ∉ ts) := by
  cases ev with
  | addChannel channelName =>
    cases hs
    exact ⟨rfl, [], (List.append_nil _).symm, .inr ⟨by simp, by simp⟩⟩
  | initializeEvents =>
    cases hs
    exact ⟨rfl, _, rfl, .inr ⟨by simp, by simp [initializeEvents]⟩⟩
  | timer =>
    cases hs
    exact ⟨rfl, _, rfl, .inr ⟨by simp, fun _ _ => disconnect_not_mem_checkFrom _ _ _ _ _⟩⟩
  | disconnectEventHubs =>
    cases hs
    exact ⟨rfl, _, rfl, .inl ⟨rfl, rfl⟩⟩
  | reply i r => exact absurd rfl (hev i r)

theorem apart_of_none {s : St} {ev : Ev} (hadds : adds s ev = none) (hremoves : removes s ev = none) :
    Apart s ev := by
  rw [Apart, hadds, hremoves]
  exact ⟨fun _ h => (by cases h), fun _ h => (by cases h)⟩

theorem adds_call {s : St} {ev : Ev} (hev : ∀ i r, ev ≠ .reply i r) : adds s ev = none ∧ removes s ev = none := by
  cases ev with
  | reply i r => exact absurd rfl (hev i r)
  | addChannel | initializeEvents | timer | disconnectEventHubs => exact ⟨rfl, rfl⟩

theorem adds_reply {s : St} {i : Nat} {t : Task} (ht : s.tasks[i]? = some t) (r : Reply) :
    adds s (.reply i r) = t.adds r ∧ removes s (.reply i r) = t.removes r := by
  constructor
  · show s.tasks[i]?.bind _ = _
    rw [ht, Option.bind_some]
  · show s.tasks[i]?.bind _ = _
    rw [ht, Option.bind_some]

theorem oneListener_step {s s' : St} {ev : Ev} (hone : OneListener s.hubs) (hs : step s ev = some s') :
    OneListener s'.hubs ↔ Apart s ev := by
  by_cases hev : ∀ i r, ev ≠ .reply i r
  · obtain ⟨hadds, hremoves⟩ := adds_call (s := s) hev
    rw [(step_call hev hs).1]
    exact iff_of_true hone (apart_of_none hadds hremoves)
  · push Not at hev
    obtain ⟨i, r, rfl⟩ := hev
    obtain ⟨t, ts, ht, -, hchange, -⟩ := step_reply hs
    obtain ⟨hadds, hremoves⟩ := adds_reply ht r
    cases hchange with
    | same hnone hnone' h =>
      rw [h]
      exact iff_of_true hone (apart_of_none (hadds.trans hnone) (hremoves.trans hnone'))
    | add channelName htask hreply h =>
      subst htask hreply
      rw [h, oneListener_add_iff hone, Apart, hadds, hremoves]
      exact ⟨fun hnil => ⟨fun _ h => Option.some.inj h ▸ hnil, fun _ h => (by cases h)⟩, fun hap => hap.1 _ rfl⟩
    | remove channelName listener htask hreply h =>
      subst htask hreply
      rw [h, oneListener_remove_iff hone, Apart, hadds, hremoves]
      exact ⟨fun hall => ⟨fun _ h => (by cases h), fun _ h => Option.some.inj h ▸ hall⟩, fun hap => hap.2 _ rfl⟩

/-! ## Closing -/

/-- Every listener of the gateway is about to be removed. -/
def Leaving (s : St) : Prop := ∀ p ∈ s.hubs.blockListeners, .disconnect p.1 p.2 ∈ s.tasks

/-- The numbers in use are below the next one. -/
structure Fresh (s : St) : Prop where
  stored : ∀ channelName listener, s.hubs.channelEventHubs.lookup channelName = some listener →
    listener < s.hubs.next
  removing : ∀ channelName listener, .disconnect channelName listener ∈ s.tasks → listener < s.hubs.next

theorem mem_disconnectEventHubs {h : Hubs} {channelName : String} {listener : Nat} :
    .disconnect channelName listener ∈ disconnectEventHubs h ↔
      h.channelEventHubs.lookup channelName = some listener := by
  unfold disconnectEventHubs
  rw [List.mem_filterMap]
  constructor
  · rintro ⟨e, -, he⟩
    obtain ⟨l, hl, heq⟩ := Option.map_eq_some_iff.1 he
    cases heq
    exact hl
  · intro hl
    exact ⟨⟨channelName, listener⟩, AList.mem_lookup_iff.1 hl, by rw [hl]; rfl⟩

theorem lookup_add {h : Hubs} {channelName name : String} {listener : Nat}
    (hl : (h.add channelName).channelEventHubs.lookup name = some listener) :
    listener = h.next ∨ h.channelEventHubs.lookup name = some listener := by
  by_cases hname : name = channelName
  · rw [hname, Hubs.add, AList.lookup_insert] at hl
    exact .inl (Option.some.inj hl).symm
  · rw [Hubs.add, AList.lookup_insert_ne hname] at hl
    exact .inr hl

theorem lookup_remove {h : Hubs} {channelName name : String} {removed listener : Nat}
    (hl : (h.remove channelName removed).channelEventHubs.lookup name = some listener) :
    h.channelEventHubs.lookup name = some listener := by
  by_cases hname : name = channelName
  · rw [hname, Hubs.remove, AList.lookup_erase] at hl
    cases hl
  · rwa [Hubs.remove, AList.lookup_erase_ne hname] at hl

/-- A reply starts no removal. -/
theorem removing_of_reply {tasks ts : List Task} {i : Nat} (hts : ∀ channelName listener,
    .disconnect channelName listener ∉ ts) {channelName : String} {listener : Nat}
    (hmem : .disconnect channelName listener ∈ tasks.eraseIdx i ++ ts) :
    .disconnect channelName listener ∈ tasks :=
  (List.mem_append.1 hmem).elim List.mem_of_mem_eraseIdx fun hnew => absurd hnew (hts _ _)

/-- A removal that is not the resumed task is still there. -/
theorem removing_reply {tasks : List Task} {i : Nat} {t : Task} (ht : tasks[i]? = some t) (ts : List Task)
    {channelName : String} {listener : Nat} (hne : .disconnect channelName listener ≠ t)
    (hmem : .disconnect channelName listener ∈ tasks) :
    .disconnect channelName listener ∈ tasks.eraseIdx i ++ ts := by
  obtain ⟨j, hj⟩ := List.mem_iff_getElem?.1 hmem
  have hij : j ≠ i := fun hji => hne (Option.some.inj ((hji ▸ hj).symm.trans ht))
  exact List.mem_append_left _ (List.mem_eraseIdx_iff_getElem?.2 ⟨j, hij, hj⟩)

theorem fresh_step {s s' : St} {ev : Ev} (h : Fresh s) (hs : step s ev = some s') : Fresh s' := by
  by_cases hev : ∀ i r, ev ≠ .reply i r
  · obtain ⟨hhubs, ts, htasks, hts⟩ := step_call hev hs
    refine ⟨by rw [hhubs]; exact h.stored, fun channelName listener hmem => ?_⟩
    rw [hhubs]
    rw [htasks, List.mem_append] at hmem
    rcases hmem with hold | hnew
    · exact h.removing _ _ hold
    · rcases hts with ⟨-, rfl⟩ | ⟨-, hnone⟩
      · exact h.stored _ _ (mem_disconnectEventHubs.1 hnew)
      · exact absurd hnew (hnone _ _)
  · push Not at hev
    obtain ⟨i, r, rfl⟩ := hev
    obtain ⟨t, ts, -, htasks, hchange, hts⟩ := step_reply hs
    have hold := @removing_of_reply s.tasks ts i hts
    rw [← htasks] at hold
    cases hchange with
    | same _ _ hh =>
      exact ⟨hh ▸ h.stored, fun _ _ hmem => hh ▸ h.removing _ _ (hold hmem)⟩
    | add channelName _ _ hh =>
      have hnext : s'.hubs.next = s.hubs.next + 1 := by rw [hh]; rfl
      refine ⟨fun _ _ hl => ?_, fun _ _ hmem => ?_⟩
      · rw [hh] at hl
        rcases lookup_add hl with heq | hl
        · omega
        · have := h.stored _ _ hl
          omega
      · have := h.removing _ _ (hold hmem)
        omega
    | remove channelName listener _ _ hh =>
      have hnext : s'.hubs.next = s.hubs.next := by rw [hh]; rfl
      refine ⟨fun _ _ hl => ?_, fun _ _ hmem => hnext ▸ h.removing _ _ (hold hmem)⟩
      rw [hh] at hl
      exact hnext ▸ h.stored _ _ (lookup_remove hl)

/-- A removal takes its own listener away, and no removal is started. -/
theorem leaving_step {s s' : St} {ev : Ev} (h : Fresh s) (hev : ev ≠ .disconnectEventHubs)
    (hs : step s ev = some s') : Leaving s' ↔ Leaving s ∧ AddsNone s ev := by
  by_cases hcall : ∀ i r, ev ≠ .reply i r
  · obtain ⟨hhubs, ts, htasks, hts⟩ := step_call hcall hs
    have hnone : ∀ channelName listener, .disconnect channelName listener ∉ ts :=
      hts.elim (fun h => absurd h.1 hev) And.right
    rw [and_iff_left (show AddsNone s ev from (adds_call hcall).1), Leaving, Leaving, hhubs, htasks]
    refine forall₂_congr fun p _ => ?_
    rw [List.mem_append, or_iff_left (hnone _ _)]
  · push Not at hcall
    obtain ⟨i, r, rfl⟩ := hcall
    obtain ⟨t, ts, ht, htasks, hchange, hts⟩ := step_reply hs
    have hadds : adds s (.reply i r) = t.adds r := (adds_reply ht r).1
    have hold := @removing_of_reply s.tasks ts i hts
    have hkept := @removing_reply s.tasks i t ht ts
    rw [← htasks] at hold hkept
    cases hchange with
    | same hnone hremoves hh =>
      rw [and_iff_left (show AddsNone s _ from hadds.trans hnone), Leaving, Leaving, hh]
      refine forall₂_congr fun p _ => ⟨fun hmem => hold hmem, fun hmem => ?_⟩
      by_cases htask : .disconnect p.1 p.2 = t
      · subst htask
        cases r with
        | done => cases hremoves
        | rejected =>
          simp [step, ht, Task.resume] at hs
      · exact hkept htask hmem
    | add channelName htask hreply hh =>
      subst htask hreply
      refine iff_of_false (fun hl => ?_) fun hl => ?_
      · have hmem : (channelName, s.hubs.next) ∈ s'.hubs.blockListeners := by
          rw [hh]
          exact List.mem_append_right _ (List.mem_singleton_self _)
        have hlt := h.removing _ _ (hold (hl _ hmem))
        exact absurd hlt (Nat.lt_irrefl _)
      · have hnone : adds s (.reply i .done) = none := hl.2
        rw [hadds] at hnone
        cases hnone
    | remove channelName listener htask hreply hh =>
      subst htask hreply
      have hmem : ∀ p, p ∈ s'.hubs.blockListeners ↔ p ∈ s.hubs.blockListeners ∧ p ≠ (channelName, listener) :=
        fun p => by
          rw [hh, Hubs.remove, List.mem_filter, decide_eq_true_iff]
      rw [and_iff_left (show AddsNone s _ from hadds)]
      constructor
      · intro hl p hp
        by_cases heq : p = (channelName, listener)
        · rw [heq]
          exact List.mem_of_getElem? ht
        · exact hold (hl p ((hmem p).2 ⟨hp, heq⟩))
      · intro hl p hp
        obtain ⟨hp, hne⟩ := (hmem p).1 hp
        refine hkept (fun heq => hne ?_) (hl p hp)
        cases heq
        rfl

theorem leaving_disconnectEventHubs {s s' : St} (hone : OneListener s.hubs)
    (hs : step s .disconnectEventHubs = some s') : Leaving s' := by
  cases hs
  intro p hp
  refine List.mem_append_right _ (mem_disconnectEventHubs.2 ?_)
  have hmem : p.2 ∈ s.hubs.listeners p.1 :=
    List.mem_map.2 ⟨p, List.mem_filter.2 ⟨hp, decide_eq_true rfl⟩, rfl⟩
  exact Option.mem_toList.1 ((hone p.1).subset hmem)

theorem leaving_iff_of_tasks {s : St} (hs : s.tasks = []) : Leaving s ↔ s.hubs.blockListeners = [] := by
  rw [List.eq_nil_iff_forall_not_mem, Leaving, hs]
  exact forall_congr' fun p => by simp

/-- **One block listener for a channel.** In every order of the completions:
every state that a run goes through has at most one listener for each channel,
the stored one, if and only if each completion finds the others `Apart`. When
`disconnectEventHubs` has been called in such a state and nothing is pending any
more, no listener is left if and only if no creation has completed since. -/
theorem listeners_iff (evs : List Ev) (s : St) (hr : lts.Run init evs s) :
    ((∀ pre post m, evs = pre ++ post → lts.Run init pre m → OneListener m.hubs) ↔
        (lts.restrict Apart).Run init evs s) ∧
      ∀ pre post m, evs = pre ++ .disconnectEventHubs :: post → .disconnectEventHubs ∉ post →
        lts.Run init pre m → OneListener m.hubs → s.tasks = [] →
        (s.hubs.blockListeners = [] ↔ (lts.restrict AddsNone).Run m (.disconnectEventHubs :: post) s) := by
  have hfresh : Fresh init := ⟨fun _ _ h => (by cases h), fun _ _ h => (by cases h)⟩
  constructor
  · have hone : OneListener init.hubs := fun _ => List.nil_sublist _
    exact LTS.Run.always_iff (I := fun s => OneListener s.hubs) (J := fun _ => True) (fun _ _ _ _ _ => trivial)
      (fun _ _ _ _ => oneListener_step) hr trivial hone
  · intro pre post m heq hpost hpre hone htasks
    have hfreshm : Fresh m := hpre.keeps (fun _ _ _ => fresh_step) hfresh
    have hrest : lts.Run m (.disconnectEventHubs :: post) s := hpre.of_append (heq ▸ hr)
    cases hrest with
    | @cons _ m₁ _ _ _ hclose hrun =>
      have hleaving : Leaving m₁ := leaving_disconnectEventHubs hone hclose
      have hkept : Leaving s ↔ Leaving m₁ ∧ (lts.restrict AddsNone).Run m₁ post s :=
        hrun.kept_iff (I := Leaving) (J := Fresh) (A := (· ≠ .disconnectEventHubs))
          (fun _ _ _ h _ => fresh_step h) (fun _ _ _ => leaving_step)
          (fun l hl heq => hpost (heq ▸ hl)) (fresh_step hfreshm hclose)
      rw [← leaving_iff_of_tasks htasks, hkept, and_iff_right hleaving]
      refine ⟨fun h => .cons ⟨rfl, hclose⟩ h, fun h => ?_⟩
      cases h with
      | @cons _ m₂ _ _ _ hclose' hrun' =>
        obtain rfl : m₁ = m₂ := Option.some.inj (hclose.symm.trans hclose'.2)
        exact hrun'

/-! ## Two orders -/

/-- The timer comes when the creation has completed. -/
def created : List Ev :=
  [.addChannel "mychannel", .initializeEvents, .reply 0 .done, .reply 0 .done, .timer, .reply 0 .done]

def closing : List Ev := [.disconnectEventHubs, .reply 0 .done]

theorem listeners_iff_created :
    ∃ m s, lts.Run init created m ∧ OneListener m.hubs ∧ m.hubs.listeners "mychannel" = [0] ∧
      lts.Run init (created ++ closing) s ∧ s.tasks = [] ∧ s.hubs.blockListeners = [] := by
  have hcreated : (LTS.exec (LTS.guarded Apart step) init created).map
      (fun m => m.hubs.listeners "mychannel") = some [0] := by decide
  have hclosing : ((LTS.exec (LTS.guarded Apart step) init created).bind fun m =>
      (LTS.exec (LTS.guarded AddsNone step) m closing).map St.tasks) = some [] := by decide
  obtain ⟨m, hm, hlisteners⟩ := Option.map_eq_some_iff.1 hcreated
  rw [hm, Option.bind_some] at hclosing
  obtain ⟨s, hs, htasks⟩ := Option.map_eq_some_iff.1 hclosing
  have hapart : (lts.restrict Apart).Run init created m := LTS.restrict_run_of_exec hm
  have hnone : (lts.restrict AddsNone).Run m closing s := LTS.restrict_run_of_exec hs
  have hone : OneListener m.hubs :=
    (listeners_iff created m hapart.of_restrict).1.2 hapart created [] m (by simp) hapart.of_restrict
  have hrun : lts.Run init (created ++ closing) s := hapart.of_restrict.append hnone.of_restrict
  have hclosed := (listeners_iff (created ++ closing) s hrun).2 created [.reply 0 .done] m rfl (by decide)
    hapart.of_restrict hone htasks
  exact ⟨m, s, hapart.of_restrict, hone, hlisteners, hrun, htasks, hclosed.2 hnone⟩

/-- The timer comes between the two awaits of the creation. -/
def createdTwice : List Ev :=
  [.addChannel "mychannel", .initializeEvents, .reply 0 .done, .timer, .reply 0 .done, .reply 0 .done,
    .reply 0 .done]

theorem listeners_createdTwice :
    ∃ m s, lts.Run init createdTwice m ∧ m.hubs.listeners "mychannel" = [0, 1] ∧ ¬ OneListener m.hubs ∧
      lts.Run init (createdTwice ++ closing) s ∧ s.tasks = [] ∧ s.hubs.blockListeners = [("mychannel", 0)] := by
  have htwice : (LTS.exec step init createdTwice).map (fun m => m.hubs.listeners "mychannel") =
      some [0, 1] := by decide
  have hclosing : ((LTS.exec step init createdTwice).bind fun m =>
      (LTS.exec step m closing).map fun s => (s.tasks, s.hubs.blockListeners)) =
        some ([], [("mychannel", 0)]) := by decide
  obtain ⟨m, hm, hlisteners⟩ := Option.map_eq_some_iff.1 htwice
  rw [hm, Option.bind_some] at hclosing
  obtain ⟨s, hs, hclosed⟩ := Option.map_eq_some_iff.1 hclosing
  obtain ⟨htasks, hleft⟩ := Prod.mk.inj hclosed
  have hrun : lts.Run init createdTwice m := LTS.run_of_exec hm
  refine ⟨m, s, hrun, hlisteners, fun hone => ?_, hrun.append (LTS.run_of_exec hs), htasks, hleft⟩
  have hlen := (hone "mychannel").length_le
  rw [hlisteners] at hlen
  cases hl : m.hubs.channelEventHubs.lookup "mychannel" <;> simp [hl] at hlen

end Explorer.Fabric.EventHubs
