import Explorer.Core.LTS
import Explorer.Iroha.Growth

/-!
# The exported counters

`readFromDb` asks the database for four counts and, when the last of the four
has arrived, sets each counter to its count. `main` starts one call without
awaiting it, `onBlock` one behind each block that is applied. A query of a
call is evaluated by the database at one moment (`Ev.evaluate`); the call goes
on at some moment after its four queries (`Ev.resume`) and then writes the
four counters in one piece. `sync` awaits its calls one by one; here they may
overlap as they like.

What a call writes is as old as its queries, however late it goes on. `applied`
is the age of an answer, `added` what each block has added to the four tables,
`latest` the call that wrote last; the program reads none of the three.

* `inv_step`: a count is the rows there were at the start and those of the
  blocks applied before the query.
* `counters_never_back_iff`: the counters never go back, and end at the counts
  of the call started last, if and only if no call goes on with an answer that
  a block has outdated for a call that has written, or for the one started last.
-/
namespace Explorer.Iroha.Prometheus

variable {Bytes : Type}

/-- mirrors iroha/src/prometheus.ts:13-26 -/
inductive Counter where
  | blocksTotal
  | transactionsTotal
  | accountsTotal
  | peersTotal
  deriving DecidableEq, Repr

/-- The counters in the order of `zipWith`. -/
def counters : List Counter := [.blocksTotal, .transactionsTotal, .accountsTotal, .peersTotal]

theorem mem_counters (c : Counter) : c ∈ counters := by cases c <;> decide

/-- The query behind a counter. -/
def count (db : Db Bytes) : Counter → Nat
  | .blocksTotal => db.blockCount
  | .transactionsTotal => db.transactionCount
  | .accountsTotal => db.accountCount
  | .peersTotal => db.peerCount

/-- What `register.metrics()` shows. -/
abbrev Registry := Counter → Nat

def Registry.reset (r : Registry) (counter : Counter) : Registry := Function.update r counter 0

def Registry.inc (r : Registry) (counter : Counter) (value : Nat) : Registry :=
  Function.update r counter (r counter + value)

/-- mirrors iroha/src/prometheus.ts:6-9 -/
def counterSet (r : Registry) (counter : Counter) (value : Nat) : Registry :=
  (r.reset counter).inc counter value

/-- mirrors iroha/src/prometheus.ts:39-53 -/
def Registry.write (r : Registry) (values : List Nat) : Registry :=
  (counters.zip values).foldl (fun r p => counterSet r p.1 p.2) r

structure Answer where
  value : Nat
  applied : Nat
  deriving DecidableEq, Repr

/-- A call of `readFromDb` and the queries of it that were evaluated. -/
structure Call where
  answers : Counter → Option Answer
  done : Bool

def Call.new : Call := ⟨fun _ => none, false⟩

def Call.answer (call : Call) (c : Counter) (a : Answer) : Call :=
  { call with answers := Function.update call.answers c (some a) }

def Call.finish (call : Call) : Call := { call with done := true }

/-- What `Promise.all` resolves to. -/
def Call.values (call : Call) : Option (List Nat) := counters.mapM fun c => (call.answers c).map Answer.value

structure St (Bytes : Type) where
  db : Db Bytes
  calls : List Call
  registry : Registry
  added : List (Counter → Nat)
  latest : Option Nat

/-- The call of `main`, with any database.
mirrors iroha/src/start.ts:19-21 -/
def St.init (db : Db Bytes) : St Bytes := ⟨db, [.new], fun _ => 0, [], none⟩

/-- `applyBlock`: a block is committed, by this process or another.
`readFromDb`: the call of an `onBlock` starts. -/
inductive Ev where
  | applyBlock (block : Block)
  | readFromDb
  | evaluate (i : Nat) (c : Counter)
  | resume (i : Nat)
  deriving DecidableEq

/-- One call for each block that was applied, behind that of `main`.
mirrors iroha/src/sync.ts:16-20, iroha/src/prometheus.ts:38-54 -/
def step (W : Wire Bytes) (s : St Bytes) : Ev → Option (St Bytes)
  | .applyBlock block =>
    match Iroha.applyBlock W s.db block with
    | .ok db => some { s with db := db, added := s.added ++ [fun c => count db c - count s.db c] }
    | .error _ => none
  | .readFromDb => if s.calls.length ≤ s.added.length then some { s with calls := s.calls ++ [.new] } else none
  | .evaluate i c =>
    match s.calls[i]? with
    | some call =>
      if (call.answers c).isNone then
        some { s with calls := s.calls.set i (call.answer c ⟨count s.db c, s.added.length⟩) }
      else none
    | none => none
  | .resume i =>
    match s.calls[i]? with
    | some call =>
      match call.values with
      | some values =>
        if call.done then none
        else some { s with
          calls := s.calls.set i call.finish, registry := s.registry.write values, latest := some i }
      | none => none
    | none => none

def lts (W : Wire Bytes) (db : Db Bytes) : LTS (St Bytes) Ev := LTS.ofFn (· = .init db) (step W)

/-! ## What is to hold -/

/-- When all calls have finished, the counters are the counts of the call that
was started last. -/
def Settled (s : St Bytes) : Prop :=
  (∀ call ∈ s.calls, call.done) → ∀ call ∈ s.calls.getLast?, ∀ c, ∃ a ∈ call.answers c, s.registry c = a.value

def NeverBack (W : Wire Bytes) (db : Db Bytes) (evs : List Ev) : Prop :=
  ∀ pre post m, evs = pre ++ post → (lts W db).Run (.init db) pre m →
    Settled m ∧ ∀ ev post' m', post = ev :: post' → step W m ev = some m' → ∀ c, m.registry c ≤ m'.registry c

/-- A block behind the first `m`, up to the `n`th, added a row to the table. -/
def Raised (added : List (Counter → Nat)) (c : Counter) (m n : Nat) : Prop :=
  ∃ adds ∈ (added.take n).drop m, 0 < adds c

instance (added : List (Counter → Nat)) (c : Counter) (m n : Nat) : Decidable (Raised added c m n) :=
  inferInstanceAs (Decidable (∃ adds ∈ (added.take n).drop m, 0 < adds c))

/-- A block has added a row to a table between the query of `call` and that of
`other`. -/
def Outdated (added : List (Counter → Nat)) (call other : Call) : Prop :=
  ∃ c ∈ counters, ∃ a ∈ call.answers c, ∃ b ∈ other.answers c, Raised added c a.applied b.applied

instance (added : List (Counter → Nat)) (call other : Call) : Decidable (Outdated added call other) :=
  inferInstanceAs
    (Decidable (∃ c ∈ counters, ∃ a ∈ call.answers c, ∃ b ∈ other.answers c, Raised added c a.applied b.applied))

/-- A call that goes on is not outdated for the call that wrote last; and if it
is the last to go on, it agrees with the call that was started last. -/
def InTime (s : St Bytes) : Ev → Prop
  | .resume i =>
    ∀ call ∈ s.calls[i]?,
      (∀ j ∈ s.latest, ∀ other ∈ s.calls[j]?, ¬ Outdated s.added call other) ∧
      ((∀ other ∈ s.calls.eraseIdx i, other.done) →
        ∀ other ∈ s.calls.getLast?, ¬ Outdated s.added call other ∧ ¬ Outdated s.added other call)
  | _ => True

instance (s : St Bytes) : ∀ ev, Decidable (InTime s ev)
  | .resume i => inferInstanceAs (Decidable (∀ call ∈ s.calls[i]?,
      (∀ j ∈ s.latest, ∀ other ∈ s.calls[j]?, ¬ Outdated s.added call other) ∧
      ((∀ other ∈ s.calls.eraseIdx i, other.done) →
        ∀ other ∈ s.calls.getLast?, ¬ Outdated s.added call other ∧ ¬ Outdated s.added other call)))
  | .applyBlock _ | .readFromDb | .evaluate _ _ => .isTrue trivial

/-! ## Counts -/

theorem count_le {W : Wire Bytes} {db db' : Db Bytes} {block : Block}
    (h : Iroha.applyBlock W db block = .ok db') (c : Counter) : count db c ≤ count db' c := by
  obtain ⟨-, hblock, -, -⟩ := applyBlock_spec h
  obtain ⟨htransaction, haccount, hpeer, -, -⟩ := applyBlock_grows h
  cases c with
  | blocksTotal =>
    show db.block.rows.length ≤ db'.block.rows.length
    rw [hblock, List.length_append]
    omega
  | transactionsTotal => exact htransaction.length_le
  | accountsTotal =>
    have hle := haccount.length_le
    rwa [List.length_map] at hle
  | peersTotal => exact hpeer.length_le

/-- What the first `n` blocks added to the table of `c`. -/
def total (added : List (Counter → Nat)) (c : Counter) (n : Nat) : Nat := ((added.take n).map fun adds => adds c).sum

theorem total_split (added : List (Counter → Nat)) (c : Counter) {m n : Nat} (h : m ≤ n) :
    total added c n = total added c m + (((added.take n).drop m).map fun adds => adds c).sum := by
  have htake : (added.take n).take m = added.take m := by rw [List.take_take, Nat.min_eq_left h]
  rw [total, total, ← htake, ← List.sum_append, ← List.map_append, List.take_append_drop]

theorem total_le_iff (added : List (Counter → Nat)) (c : Counter) (m n : Nat) :
    total added c n ≤ total added c m ↔ ¬ Raised added c m n := by
  rcases Nat.le_total m n with hmn | hnm
  · have hpos : 0 < (((added.take n).drop m).map fun adds => adds c).sum ↔ Raised added c m n := by
      rw [List.sum_pos_iff_exists_pos_nat]
      simp only [List.mem_map, exists_exists_and_eq_and, Raised]
    rw [total_split added c hmn, ← hpos]
    omega
  · have hnone : (added.take n).drop m = [] := List.drop_eq_nil_of_le (by rw [List.length_take]; omega)
    have hle : total added c n ≤ total added c m := by
      rw [total_split added c hnm]
      omega
    simp [Raised, hnone, hle]

theorem total_append {added : List (Counter → Nat)} {n : Nat} (hn : n ≤ added.length) (c : Counter)
    (rest : List (Counter → Nat)) : total (added ++ rest) c n = total added c n := by
  rw [total, List.take_append_of_le_length hn, total]

theorem total_snoc (added : List (Counter → Nat)) (adds : Counter → Nat) (c : Counter) :
    total (added ++ [adds]) c (added ++ [adds]).length = total added c added.length + adds c := by
  rw [total, total, List.take_length, List.take_length, List.map_append, List.sum_append, List.map_singleton,
    List.sum_singleton]

/-! ## Calls -/

@[simp] theorem counterSet_apply (r : Registry) (counter c : Counter) (value : Nat) :
    counterSet r counter value c = if c = counter then value else r c := by
  by_cases h : c = counter
  · subst h
    simp [counterSet, Registry.inc, Registry.reset]
  · simp [counterSet, Registry.inc, Registry.reset, h]

def Call.Complete (call : Call) : Prop := ∀ c, ∃ a, call.answers c = some a

theorem values_eq_some {call : Call} {values : List Nat} (h : call.values = some values) :
    call.Complete ∧ ∀ r c a, call.answers c = some a → Registry.write r values c = a.value := by
  simp only [Call.values, counters, List.mapM_cons, List.mapM_nil, Option.pure_def, Option.bind_eq_bind,
    Option.bind_eq_some_iff, Option.map_eq_some_iff, Option.some.injEq] at h
  obtain ⟨_, ⟨b, hb, rfl⟩, _, ⟨_, ⟨t, ht, rfl⟩, _, ⟨_, ⟨u, hu, rfl⟩, _, ⟨_, ⟨p, hp, rfl⟩, _, rfl, rfl⟩, rfl⟩,
    rfl⟩, rfl⟩ := h
  constructor
  · intro c
    cases c with
    | blocksTotal => exact ⟨b, hb⟩
    | transactionsTotal => exact ⟨t, ht⟩
    | accountsTotal => exact ⟨u, hu⟩
    | peersTotal => exact ⟨p, hp⟩
  · intro r c a ha
    cases c with
    | blocksTotal => simpa [Registry.write, counters, hb] using congrArg (Option.map Answer.value) ha
    | transactionsTotal => simpa [Registry.write, counters, ht] using congrArg (Option.map Answer.value) ha
    | accountsTotal => simpa [Registry.write, counters, hu] using congrArg (Option.map Answer.value) ha
    | peersTotal => simpa [Registry.write, counters, hp] using congrArg (Option.map Answer.value) ha

/-- An answer is the number of rows there were when the query was evaluated. -/
structure CallOk (db : Db Bytes) (added : List (Counter → Nat)) (call : Call) : Prop where
  age : ∀ c a, call.answers c = some a → a.applied ≤ added.length
  value : ∀ c a, call.answers c = some a → a.value = count db c + total added c a.applied
  complete : call.done = true → call.Complete

theorem callOk_new (db : Db Bytes) (added : List (Counter → Nat)) : CallOk db added .new :=
  ⟨fun _ _ h => (nomatch h), fun _ _ h => (nomatch h), fun h => (nomatch h)⟩

theorem CallOk.append {db : Db Bytes} {added : List (Counter → Nat)} {call : Call} (h : CallOk db added call)
    (adds : Counter → Nat) : CallOk db (added ++ [adds]) call where
  age c a ha := by
    have := h.age c a ha
    rw [List.length_append]
    omega
  value c a ha := by rw [total_append (h.age c a ha), h.value c a ha]
  complete := h.complete

theorem CallOk.finish {db : Db Bytes} {added : List (Counter → Nat)} {call : Call} (h : CallOk db added call)
    (hcomplete : call.Complete) : CallOk db added call.finish :=
  ⟨h.age, h.value, fun _ => hcomplete⟩

theorem CallOk.answer {db : Db Bytes} {added : List (Counter → Nat)} {call : Call} (h : CallOk db added call)
    {c : Counter} (hnone : call.answers c = none) :
    CallOk db added (call.answer c ⟨count db c + total added c added.length, added.length⟩) := by
  have hanswers : ∀ c' a, (call.answer c ⟨count db c + total added c added.length, added.length⟩).answers c' = some a →
      (c' = c ∧ a = ⟨count db c + total added c added.length, added.length⟩) ∨ call.answers c' = some a := by
    intro c' a ha
    by_cases hc : c' = c
    · subst hc
      left
      simpa [Call.answer, eq_comm] using ha
    · right
      simpa [Call.answer, hc] using ha
  constructor
  · intro c' a ha
    rcases hanswers c' a ha with ⟨-, rfl⟩ | hold
    · exact Nat.le_refl _
    · exact h.age c' a hold
  · intro c' a ha
    rcases hanswers c' a ha with ⟨rfl, rfl⟩ | hold
    · rfl
    · exact h.value c' a hold
  · intro hdone
    obtain ⟨a, ha⟩ := h.complete hdone c
    rw [hnone] at ha
    cases ha

/-- Which of two calls has the larger counts. -/
theorem le_iff_not_outdated {db : Db Bytes} {added : List (Counter → Nat)} {call other : Call}
    (h : CallOk db added call) (ho : CallOk db added other) :
    (∀ c a b, call.answers c = some a → other.answers c = some b → b.value ≤ a.value) ↔
      ¬ Outdated added call other := by
  have hle : ∀ c a b, call.answers c = some a → other.answers c = some b →
      (b.value ≤ a.value ↔ ¬ Raised added c a.applied b.applied) := by
    intro c a b ha hb
    rw [h.value c a ha, ho.value c b hb, Nat.add_le_add_iff_left, total_le_iff]
  constructor
  · rintro hall ⟨c, -, a, ha, b, hb, hraised⟩
    exact (hle c a b ha hb).1 (hall c a b ha hb) hraised
  · intro hnot c a b ha hb
    exact (hle c a b ha hb).2 fun hraised => hnot ⟨c, mem_counters c, a, ha, b, hb, hraised⟩

/-! ## What a step can do -/

inductive Move (W : Wire Bytes) (s : St Bytes) : Ev → St Bytes → Prop where
  | applyBlock (block : Block) (db : Db Bytes) (hdb : Iroha.applyBlock W s.db block = .ok db) :
      Move W s (.applyBlock block)
        { s with db := db, added := s.added ++ [fun c => count db c - count s.db c] }
  | readFromDb : Move W s .readFromDb { s with calls := s.calls ++ [.new] }
  | evaluate (i : Nat) (c : Counter) (call : Call) (hi : s.calls[i]? = some call) (hnone : call.answers c = none) :
      Move W s (.evaluate i c) { s with calls := s.calls.set i (call.answer c ⟨count s.db c, s.added.length⟩) }
  | resume (i : Nat) (call : Call) (values : List Nat) (hi : s.calls[i]? = some call)
      (hvalues : call.values = some values) (hdone : call.done = false) :
      Move W s (.resume i) { s with
        calls := s.calls.set i call.finish, registry := s.registry.write values, latest := some i }

theorem move_of_step {W : Wire Bytes} {s s' : St Bytes} {ev : Ev} (hs : step W s ev = some s') : Move W s ev s' := by
  cases ev with
  | applyBlock block =>
    simp only [step] at hs
    split at hs
    · rename_i db hdb
      cases hs
      exact .applyBlock block db hdb
    · cases hs
  | readFromDb =>
    simp only [step, Option.ite_none_right_eq_some] at hs
    obtain ⟨-, hs⟩ := hs
    cases hs
    exact .readFromDb
  | evaluate i c =>
    simp only [step] at hs
    split at hs
    · rename_i call hi
      rw [Option.ite_none_right_eq_some, Option.isNone_iff_eq_none] at hs
      obtain ⟨hnone, hs⟩ := hs
      cases hs
      exact .evaluate i c call hi hnone
    · cases hs
  | resume i =>
    simp only [step] at hs
    split at hs
    · rename_i call hi
      split at hs
      · rename_i values hvalues
        rw [Option.ite_none_left_eq_some, Bool.not_eq_true] at hs
        obtain ⟨hdone, hs⟩ := hs
        cases hs
        exact .resume i call values hi hvalues hdone
      · cases hs
    · cases hs

/-! ## Invariant -/

/-- The counters are those of the call that wrote last. -/
def Shown (s : St Bytes) : Prop :=
  (s.latest = none ∧ ∀ c, s.registry c = 0) ∨
    ∃ j call, s.latest = some j ∧ s.calls[j]? = some call ∧ call.done = true ∧
      ∀ c a, call.answers c = some a → s.registry c = a.value

structure Inv (db : Db Bytes) (s : St Bytes) : Prop where
  count : ∀ c, count s.db c = count db c + total s.added c s.added.length
  calls : ∀ call ∈ s.calls, CallOk db s.added call
  shown : Shown s

theorem inv_init (db : Db Bytes) : Inv db (.init db) where
  count c := by simp [St.init, total]
  calls call hcall := by
    rw [List.mem_singleton.1 hcall]
    exact callOk_new db []
  shown := .inl ⟨rfl, fun _ => rfl⟩

theorem inv_step {W : Wire Bytes} {db : Db Bytes} {s s' : St Bytes} {ev : Ev} (h : Inv db s)
    (hs : step W s ev = some s') : Inv db s' := by
  obtain ⟨hcount, hcalls, hshown⟩ := h
  cases move_of_step hs with
  | applyBlock block db' hdb =>
    refine ⟨fun c => ?_, fun call hcall => (hcalls call hcall).append _, hshown⟩
    have hle := count_le hdb c
    have hbefore := hcount c
    show Prometheus.count db' c = _
    rw [total_snoc]
    omega
  | readFromDb =>
    refine ⟨hcount, fun call hcall => ?_, ?_⟩
    · rcases List.mem_append.1 hcall with hold | hnew
      · exact hcalls call hold
      · rw [List.mem_singleton.1 hnew]
        exact callOk_new db s.added
    · rcases hshown with hnone | ⟨j, call, hlatest, hj, hcall⟩
      · exact .inl hnone
      · exact .inr ⟨j, call, hlatest, by rw [List.getElem?_append_left (List.getElem?_eq_some_iff.1 hj).1, hj], hcall⟩
  | evaluate i c call hi hnone =>
    refine ⟨hcount, fun call' hcall' => ?_, ?_⟩
    · rcases List.mem_or_eq_of_mem_set hcall' with hold | rfl
      · exact hcalls call' hold
      · rw [hcount c]
        exact (hcalls call (List.mem_of_getElem? hi)).answer hnone
    · rcases hshown with hnone' | ⟨j, other, hlatest, hj, hdone, hregistry⟩
      · exact .inl hnone'
      · -- a call that has written is not asking any more
        have hij : i ≠ j := by
          rintro rfl
          rw [hi] at hj
          cases hj
          obtain ⟨a, ha⟩ := (hcalls call (List.mem_of_getElem? hi)).complete hdone c
          rw [hnone] at ha
          cases ha
        exact .inr ⟨j, other, hlatest, by rw [List.getElem?_set_ne hij, hj], hdone, hregistry⟩
  | resume i call values hi hvalues hdone =>
    obtain ⟨hcomplete, hwrite⟩ := values_eq_some hvalues
    refine ⟨hcount, fun call' hcall' => ?_, ?_⟩
    · rcases List.mem_or_eq_of_mem_set hcall' with hold | rfl
      · exact hcalls call' hold
      · exact (hcalls call (List.mem_of_getElem? hi)).finish hcomplete
    · have hlt := (List.getElem?_eq_some_iff.1 hi).1
      exact .inr ⟨i, call.finish, rfl, List.getElem?_set_self hlt, rfl, fun c a ha => hwrite _ c a ha⟩

/-! ## When a counter goes back -/

/-- The last of the calls when one of them finishes. -/
theorem getLast?_finish {calls : List Call} {i : Nat} {call : Call} (hi : calls[i]? = some call) :
    (calls.set i call.finish).getLast?.map Call.answers = calls.getLast?.map Call.answers := by
  have hsame : (calls.map Call.answers).set i call.answers = calls.map Call.answers := by
    obtain ⟨hlt, hget⟩ := List.getElem?_eq_some_iff.1 hi
    rw [← List.map_set, ← hget, List.set_getElem_self]
  rw [← List.getLast?_map, List.map_set, Call.finish, hsame, List.getLast?_map]

theorem forall_getLast?_finish {calls : List Call} {i : Nat} {call : Call} (hi : calls[i]? = some call)
    {P : (Counter → Option Answer) → Prop} :
    (∀ other ∈ (calls.set i call.finish).getLast?, P other.answers) ↔ ∀ other ∈ calls.getLast?, P other.answers := by
  have hmap : ∀ o : Option Call, (∀ other ∈ o, P other.answers) ↔ ∀ answers ∈ o.map Call.answers, P answers := by
    intro o
    cases o with
    | none => simp
    | some other => simp
  rw [hmap, getLast?_finish hi, ← hmap]

theorem forall_set_finish {calls : List Call} {i : Nat} {call : Call} (hi : calls[i]? = some call) :
    (∀ other ∈ calls.set i call.finish, other.done = true) ↔ ∀ other ∈ calls.eraseIdx i, other.done = true := by
  have hlt := (List.getElem?_eq_some_iff.1 hi).1
  rw [List.set_eq_take_append_cons_drop, if_pos hlt, List.eraseIdx_eq_take_drop_succ]
  simp only [List.mem_append, List.mem_cons, or_imp, forall_and, forall_eq]
  simp [Call.finish]

/-- The others have finished and this one has its answers. -/
theorem complete_of_finished {db : Db Bytes} {added : List (Counter → Nat)} {calls : List Call}
    (hcalls : ∀ other ∈ calls, CallOk db added other) {i : Nat} {call : Call} (hi : calls[i]? = some call)
    (hcomplete : call.Complete) (hall : ∀ other ∈ calls.eraseIdx i, other.done = true) {other : Call}
    (hother : other ∈ calls) : other.Complete := by
  obtain ⟨k, hk⟩ := List.mem_iff_getElem?.1 hother
  by_cases hik : i = k
  · subst hik
    rw [hi] at hk
    cases hk
    exact hcomplete
  · have hmem : other ∈ calls.set i call.finish := by
      apply List.mem_of_getElem?
      rw [List.getElem?_set_ne hik, hk]
    exact (hcalls other hother).complete ((forall_set_finish hi).2 hall other hmem)

theorem writes_more_iff {db : Db Bytes} {s : St Bytes} {call : Call} (hcalls : ∀ other ∈ s.calls, CallOk db s.added other)
    (hshown : Shown s) (hcall : CallOk db s.added call) (hcomplete : call.Complete) {registry : Registry}
    (hwrite : ∀ c a, call.answers c = some a → registry c = a.value) :
    (∀ c, s.registry c ≤ registry c) ↔
      ∀ j ∈ s.latest, ∀ other ∈ s.calls[j]?, ¬ Outdated s.added call other := by
  rcases hshown with ⟨hnone, hzero⟩ | ⟨j, other, hlatest, hj, hdone, hregistry⟩
  · simp [hnone, hzero]
  · have hother : CallOk db s.added other := hcalls other (List.mem_of_getElem? hj)
    rw [hlatest]
    simp only [Option.mem_some_iff, forall_eq', hj]
    rw [← le_iff_not_outdated hcall hother]
    constructor
    · intro hle c a b ha hb
      rw [← hwrite c a ha, ← hregistry c b hb]
      exact hle c
    · intro hle c
      obtain ⟨a, ha⟩ := hcomplete c
      obtain ⟨b, hb⟩ := hother.complete hdone c
      rw [hwrite c a ha, hregistry c b hb]
      exact hle c a b ha hb

theorem writes_same_iff {db : Db Bytes} {added : List (Counter → Nat)} {call other : Call}
    (hcall : CallOk db added call) (hother : CallOk db added other) (hcomplete : call.Complete)
    (hcomplete' : other.Complete) {registry : Registry}
    (hwrite : ∀ c a, call.answers c = some a → registry c = a.value) :
    (∀ c, ∃ b ∈ other.answers c, registry c = b.value) ↔ ¬ Outdated added call other ∧ ¬ Outdated added other call := by
  rw [← le_iff_not_outdated hcall hother, ← le_iff_not_outdated hother hcall]
  constructor
  · intro hsame
    have heq : ∀ c a b, call.answers c = some a → other.answers c = some b → a.value = b.value := by
      intro c a b ha hb
      obtain ⟨b', hb', hregistry⟩ := hsame c
      rw [Option.mem_def, hb, Option.some.injEq] at hb'
      rw [hb', ← hregistry, hwrite c a ha]
    exact ⟨fun c a b ha hb => (heq c a b ha hb).ge, fun c b a hb ha => (heq c a b ha hb).le⟩
  · rintro ⟨hle, hge⟩ c
    obtain ⟨a, ha⟩ := hcomplete c
    obtain ⟨b, hb⟩ := hcomplete' c
    refine ⟨b, hb, ?_⟩
    rw [hwrite c a ha]
    exact Nat.le_antisymm (hge c b a hb ha) (hle c a b ha hb)

theorem inTime_iff {W : Wire Bytes} {db : Db Bytes} {s s' : St Bytes} {ev : Ev} (h : Inv db s) (hsettled : Settled s)
    (hs : step W s ev = some s') : (Settled s' ∧ ∀ c, s.registry c ≤ s'.registry c) ↔ InTime s ev := by
  cases move_of_step hs with
  | applyBlock block db' hdb => exact ⟨fun _ => trivial, fun _ => ⟨hsettled, fun c => Nat.le_refl _⟩⟩
  | readFromDb =>
    refine ⟨fun _ => trivial, fun _ => ⟨fun hall => ?_, fun c => Nat.le_refl _⟩⟩
    have hnew : Call.new.done = true := hall .new (List.mem_append_right _ (List.mem_singleton_self _))
    cases hnew
  | evaluate i c call hi hnone =>
    refine ⟨fun _ => trivial, fun _ => ⟨fun hall => ?_, fun c => Nat.le_refl _⟩⟩
    have hmem : call.answer c ⟨count s.db c, s.added.length⟩ ∈ s.calls.set i _ :=
      List.mem_set (List.getElem?_eq_some_iff.1 hi).1 _
    have hfinished := hall _ hmem
    have hdone : call.done = true := hfinished
    obtain ⟨a, ha⟩ := (h.calls call (List.mem_of_getElem? hi)).complete hdone c
    rw [hnone] at ha
    cases ha
  | resume i call values hi hvalues hdone =>
    obtain ⟨hcomplete, hwrite⟩ := values_eq_some hvalues
    have hcall : CallOk db s.added call := h.calls call (List.mem_of_getElem? hi)
    have hlower := writes_more_iff h.calls h.shown hcall hcomplete (hwrite s.registry)
    have hlast : Settled { s with
          calls := s.calls.set i call.finish, registry := s.registry.write values, latest := some i } ↔
        ((∀ other ∈ s.calls.eraseIdx i, other.done) → ∀ other ∈ s.calls.getLast?,
          ¬ Outdated s.added call other ∧ ¬ Outdated s.added other call) := by
      rw [Settled, forall_set_finish hi, forall_getLast?_finish hi
        (P := fun answers => ∀ c, ∃ a ∈ answers c, s.registry.write values c = a.value)]
      apply imp_congr_right
      intro hall
      apply forall_congr'
      intro other
      apply imp_congr_right
      intro hother
      have hmem : other ∈ s.calls := List.mem_of_getLast? hother
      exact writes_same_iff hcall (h.calls other hmem) hcomplete
        (complete_of_finished h.calls hi hcomplete hall hmem) (hwrite s.registry)
    rw [hlast, hlower, InTime, hi]
    simp only [Option.mem_some_iff, forall_eq', and_comm]

/-! ## Whole runs -/

/-- **Counters that never go back.** In every run of calls and applied blocks
no step lowers a counter, and in each of its states in which all calls have
finished the counters are those of the call started last, if and only if each
call that goes on does so in time. -/
theorem counters_never_back_iff (W : Wire Bytes) (db : Db Bytes) (evs : List Ev) (s : St Bytes)
    (hr : (lts W db).Run (.init db) evs s) :
    NeverBack W db evs ↔ ((lts W db).restrict InTime).Run (.init db) evs s := by
  have hstep : ∀ s ev s', Inv db s → Settled s → step W s ev = some s' →
      ((Settled s' ∧ ∀ c, s.registry c ≤ s'.registry c) ↔ InTime s ev) :=
    fun s ev s' h hsettled hs => inTime_iff h hsettled hs
  have hsettled : Settled (St.init db) := by
    intro hall
    have hnew : Call.new.done = true := hall .new (List.mem_singleton_self _)
    cases hnew
  exact hr.always_steps_iff (fun _ _ _ h hs => inv_step h hs) hstep (inv_init db) hsettled

def queries (i : Nat) : List Ev := counters.map (.evaluate i)

/-- The call of `main` has written before the first block is applied. -/
def inOrder : List Ev :=
  queries 0 ++ [.resume 0, .applyBlock ⟨1, 0, "", []⟩, .readFromDb] ++ queries 1 ++ [.resume 1]

theorem counters_never_back_iff_inOrder :
    ∃ s, LTS.exec (step plainWire) (.init .empty) inOrder = some s ∧ counters.map s.registry = [1, 0, 0, 0] ∧
      NeverBack plainWire .empty inOrder := by
  have hrun : (LTS.exec (LTS.guarded InTime (step plainWire)) (.init .empty) inOrder).map
      (fun s => counters.map s.registry) = some [1, 0, 0, 0] := by
    decide +kernel
  obtain ⟨s, hs, hregistry⟩ := Option.map_eq_some_iff.1 hrun
  have hrestrict : ((lts plainWire .empty).restrict InTime).Run (.init .empty) inOrder s :=
    LTS.restrict_run_of_exec hs
  exact ⟨s, LTS.exec_of_guarded hs, hregistry,
    (counters_never_back_iff plainWire .empty inOrder s hrestrict.of_restrict).2 hrestrict⟩

/-- The answers to the call of `main` come late: a block is applied behind its
queries, and the call for that block writes first. -/
def lateStart : List Ev :=
  queries 0 ++ [.applyBlock ⟨1, 0, "", []⟩, .readFromDb] ++ queries 1 ++ [.resume 1]

theorem counters_back_lateStart :
    (∃ s s', LTS.exec (step plainWire) (.init .empty) lateStart = some s ∧
      step plainWire s (.resume 0) = some s' ∧ counters.map s.registry = [1, 0, 0, 0] ∧
        counters.map s'.registry = [0, 0, 0, 0] ∧
        s'.calls.map (fun call => (call.done, (call.answers .blocksTotal).map Answer.value)) =
          [(true, some 0), (true, some 1)]) ∧
      ¬ NeverBack plainWire .empty (lateStart ++ [.resume 0]) := by
  have hrun : (LTS.exec (step plainWire) (.init .empty) lateStart).bind (fun s =>
      (step plainWire s (.resume 0)).map fun s' => (counters.map s.registry, counters.map s'.registry,
        s'.calls.map fun call => (call.done, (call.answers .blocksTotal).map Answer.value))) =
      some ([1, 0, 0, 0], [0, 0, 0, 0], [(true, some 0), (true, some 1)]) := by
    decide +kernel
  obtain ⟨s, hs, hresume⟩ := Option.bind_eq_some_iff.1 hrun
  obtain ⟨s', hs', hfinal⟩ := Option.map_eq_some_iff.1 hresume
  simp only [Prod.mk.injEq] at hfinal
  obtain ⟨hbefore, hafter, hcalls⟩ := hfinal
  refine ⟨⟨s, s', hs, hs', hbefore, hafter, hcalls⟩, fun h => ?_⟩
  have hle := (h lateStart [.resume 0] s rfl (LTS.run_of_exec hs)).2 (.resume 0) [] s' rfl hs' .blocksTotal
  simp only [counters, List.map_cons, List.cons.injEq] at hbefore hafter
  omega

end Explorer.Iroha.Prometheus
