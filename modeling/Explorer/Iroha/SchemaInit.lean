import Mathlib.Data.List.Basic
import Explorer.Core.LTS

/-!
# `IrohaDb.init`

A run of `init` asks whether the table `schema_version` exists. If not, it
executes `postgres.sql`, which creates the tables in one transaction, and then
inserts the hash of the file with a statement of its own; otherwise it compares
the stored hash. Any number of runs share one database (`St`), a run can be
interrupted before each of its statements, and other programs write to the
tables behind `schema_version`.

What a transaction has created is seen by the others from its `COMMIT` on; a
`CREATE TABLE` waits for an open transaction that has created the same table,
and fails when the table is there. The file is the same for all runs.

* `inv_step`: at most one run is at work on a table `schema_version` without a
  row.
* `init_repeatable_iff`: from an empty database a later run completes, if and
  only if no run was interrupted between the `COMMIT` and its `INSERT`; no run
  changes a database with a version row.
-/
namespace Explorer.Iroha.SchemaInit

inductive Table where
  | schemaVersion
  | block
  | transaction
  | account
  | peer
  | role
  | domain
  deriving DecidableEq, Repr

inductive Statement where
  | begin
  | createTable (table : Table)
  | commit
  deriving DecidableEq, Repr

/-- mirrors iroha/files/postgres.sql:2-66 -/
def postgresSql : List Statement :=
  [.begin, .createTable .schemaVersion, .createTable .block, .createTable .transaction, .createTable .account,
    .createTable .peer, .createTable .role, .createTable .domain, .commit]

def Statement.table : Statement → Option Table
  | .createTable table => some table
  | _ => none

/-- `schemaVersion` holds the rows of `schema_version`, `rows` those of the
other tables. -/
structure Database (R : Type) where
  tables : List Table
  schemaVersion : List String
  rows : Table → List R
  version : .schemaVersion ∉ tables → schemaVersion = []

variable {R : Type}

def Database.empty : Database R := ⟨[], [], fun _ => [], fun _ => rfl⟩

def Database.create (db : Database R) (created : List Table) : Database R where
  tables := db.tables ++ created
  schemaVersion := db.schemaVersion
  rows table := if table ∈ created then [] else db.rows table
  version h := db.version fun hmem => h (List.mem_append_left _ hmem)

def Database.insertVersion (db : Database R) (hash : String) (h : .schemaVersion ∈ db.tables) : Database R where
  tables := db.tables
  schemaVersion := db.schemaVersion ++ [hash]
  rows := db.rows
  version hnot := absurd h hnot

def Database.write (db : Database R) (table : Table) (rows : List R) : Database R :=
  { db with rows := fun t => if t = table then rows else db.rows t }

inductive InitError where
  | duplicateTable (table : Table)
  | undefinedTable (table : Table)
  | dataIntegrity
  | version (message : String)
  deriving DecidableEq, Repr

/-- What a run does next. `script k`: `k` statements of the file are done, and
when these are all, the `INSERT` is next. -/
inductive Proc where
  | check
  | script (k : Nat)
  | compare
  | finished (error : Option InitError)
  | interrupted
  deriving DecidableEq, Repr

/-- The tables that the open transaction has created. -/
def Proc.created : Proc → List Table
  | .script k => if k < postgresSql.length then (postgresSql.take k).filterMap Statement.table else []
  | _ => []

/-- `dbHash !== fileHash` for the result of `maybeOneFirst`. -/
def compareHash (fileHash : String) : List String → Option InitError
  | [] => some (.version ("IrohaDb.init: expected db schema version " ++ fileHash ++ " but got null"))
  | [dbHash] =>
    if dbHash = fileHash then none
    else some (.version ("IrohaDb.init: expected db schema version " ++ fileHash ++ " but got " ++ dbHash))
  | _ => some .dataIntegrity

/-- The next statement of a run, with `held` what other open transactions have
created.
mirrors iroha/src/iroha-db.ts:93-111 -/
def Proc.step (fileHash : String) (held : List Table) (db : Database R) : Proc → Option (Database R × Proc)
  | .check => some (db, if .schemaVersion ∉ db.tables then .script 0 else .compare)
  | .script k =>
    match postgresSql[k]? with
    | some .begin => some (db, .script (k + 1))
    | some (.createTable table) =>
      if table ∈ db.tables then some (db, .finished (some (.duplicateTable table)))
      else if table ∈ held then none
      else some (db, .script (k + 1))
    | some .commit => some (db.create (Proc.script k).created, .script (k + 1))
    | none =>
      if h : .schemaVersion ∈ db.tables then some (db.insertVersion fileHash h, .finished none)
      else some (db, .finished (some (.undefinedTable .schemaVersion)))
  | .compare => some (db, .finished (compareHash fileHash db.schemaVersion))
  | .finished _ => none
  | .interrupted => none

def Proc.inFlight : Proc → Bool
  | .check | .script _ | .compare => true
  | .finished _ | .interrupted => false

structure St (R : Type) where
  db : Database R
  runs : List Proc

/-- `write`: another program changes the rows of a table. -/
inductive Ev (R : Type) where
  | start
  | step (i : Nat)
  | interrupt (i : Nat)
  | write (table : Table) (rows : List R)

def St.held (s : St R) (i : Nat) : List Table := (s.runs.eraseIdx i).flatMap Proc.created

def step (fileHash : String) (s : St R) : Ev R → Option (St R)
  | .start => some { s with runs := s.runs ++ [.check] }
  | .step i =>
    match s.runs[i]? with
    | some p => (p.step fileHash (s.held i) s.db).map fun (db, p') => ⟨db, s.runs.set i p'⟩
    | none => none
  | .interrupt i =>
    match s.runs[i]? with
    | some p => if p.inFlight then some { s with runs := s.runs.set i .interrupted } else none
    | none => none
  | .write table rows =>
    if table ∈ s.db.tables ∧ table ≠ .schemaVersion then some { s with db := s.db.write table rows } else none

/-- Runs of `init` on a database.
mirrors iroha/src/init.ts:7-9 -/
def lts (fileHash : String) (db : Database R) : LTS (St R) (Ev R) := LTS.ofFn (· = ⟨db, []⟩) (step fileHash)

/-! ## What is to hold -/

def Idle (s : St R) : Prop := ∀ p ∈ s.runs, p.inFlight = false

/-- A run that nothing interrupts or overlaps completes without error and
leaves all tables with the one version row. -/
def CompletesAlone (fileHash : String) (s : St R) : Prop :=
  ∃ n s', LTS.exec (step fileHash) s (.start :: List.replicate n (.step s.runs.length)) = some s' ∧
    s'.runs = s.runs ++ [.finished none] ∧ s'.db.tables = postgresSql.filterMap Statement.table ∧
    s'.db.schemaVersion = [fileHash]

def Ev.isWrite : Ev R → Bool
  | .write _ _ => true
  | _ => false

/-- Whatever database the runs began with, no statement of them changes one
with a version row. -/
def LeavesVersioned (R : Type) (fileHash : String) : Prop :=
  ∀ (db : Database R) (evs : List (Ev R)) (s : St R) (ev : Ev R) (s' : St R),
    (lts fileHash db).Run ⟨db, []⟩ evs s → step fileHash s ev = some s' → ev.isWrite = false →
      s.db.schemaVersion ≠ [] → s'.db = s.db

/-- The script is committed and the version row is not yet inserted. -/
def Proc.between : Proc → Bool
  | .script k => postgresSql.length ≤ k
  | _ => false

/-- No run is interrupted between the `COMMIT` and its `INSERT`. -/
def NotBetween (s : St R) : Ev R → Prop
  | .interrupt i => ∀ p ∈ s.runs[i]?, p.between = false
  | _ => True

instance (s : St R) : ∀ ev, Decidable (NotBetween s ev)
  | .interrupt i => inferInstanceAs (Decidable (∀ p ∈ s.runs[i]?, p.between = false))
  | .start | .step _ | .write _ _ => .isTrue trivial

/-! ## What a statement can do -/

/-- Its transaction has created `schema_version` and is open. -/
def Proc.holds (p : Proc) : Bool := .schemaVersion ∈ p.created

theorem holds_succ : ∀ k < postgresSql.length, (Proc.script (k + 1)).holds = true →
    (Proc.script k).holds = true ∨ postgresSql[k]? = some (.createTable .schemaVersion) := by decide

theorem commit_last : ∀ k < postgresSql.length, postgresSql[k]? = some .commit ↔ k + 1 = postgresSql.length := by decide

/-- A statement changes nothing, or is the `COMMIT` of a transaction that has
created all tables, or the `INSERT`. -/
inductive Did (fileHash : String) (held : List Table) (db : Database R) (p : Proc) : Database R → Proc → Prop where
  | nothing (p' : Proc) (hp : p.between = false) (hp' : p'.between = false)
      (hholds : p'.holds = true → p.holds = true ∨ .schemaVersion ∉ db.tables ∧ .schemaVersion ∉ held) :
      Did fileHash held db p db p'
  | commit (p' : Proc) (hp : p.between = false) (hp' : p'.between = true) (hholds : p.holds = true)
      (hholds' : p'.holds = false) :
      Did fileHash held db p (db.create (postgresSql.filterMap Statement.table)) p'
  | insert (h : .schemaVersion ∈ db.tables) (hp : p.between = true) (hholds : p.holds = false) :
      Did fileHash held db p (db.insertVersion fileHash h) (.finished none)
  | missing (h : .schemaVersion ∉ db.tables) (hp : p.between = true) (p' : Proc) : Did fileHash held db p db p'

theorem between_script (k : Nat) : (Proc.script k).between = true ↔ postgresSql.length ≤ k := by
  simp [Proc.between]

theorem did_succ {fileHash : String} {held : List Table} {db : Database R} {k : Nat} (hlt : k < postgresSql.length)
    (hcommit : postgresSql[k]? ≠ some .commit)
    (hnew : postgresSql[k]? = some (.createTable .schemaVersion) →
      .schemaVersion ∉ db.tables ∧ .schemaVersion ∉ held) :
    Did fileHash held db (.script k) db (.script (k + 1)) := by
  have hsucc : k + 1 ≠ postgresSql.length := fun heq => hcommit ((commit_last k hlt).2 heq)
  apply Did.nothing
  · rw [Bool.eq_false_iff, Ne, between_script]
    omega
  · rw [Bool.eq_false_iff, Ne, between_script]
    omega
  · intro hholds
    rcases holds_succ k hlt hholds with hold | hstmt
    · exact .inl hold
    · exact .inr (hnew hstmt)

theorem did_of_script {fileHash : String} {held : List Table} {db db' : Database R} {k : Nat} {p' : Proc}
    (h : (Proc.script k).step fileHash held db = some (db', p')) : Did fileHash held db (.script k) db' p' := by
  simp only [Proc.step] at h
  split at h
  · rename_i hstmt
    cases h
    apply did_succ (List.getElem?_eq_some_iff.1 hstmt).1
    · rw [hstmt]
      intro heq
      cases heq
    · rw [hstmt]
      intro heq
      cases heq
  · rename_i table hstmt
    have hlt := (List.getElem?_eq_some_iff.1 hstmt).1
    by_cases hmem : table ∈ db.tables
    · rw [if_pos hmem] at h
      cases h
      refine .nothing _ ?_ rfl (fun h => (nomatch h))
      rw [Bool.eq_false_iff, Ne, between_script]
      omega
    · rw [if_neg hmem, Option.ite_none_left_eq_some] at h
      obtain ⟨hheld, h⟩ := h
      cases h
      apply did_succ hlt
      · rw [hstmt]
        intro heq
        cases heq
      · intro heq
        rw [hstmt] at heq
        cases heq
        exact ⟨hmem, hheld⟩
  · rename_i hstmt
    cases h
    have hlt := (List.getElem?_eq_some_iff.1 hstmt).1
    obtain rfl : k = 8 := by
      have hlast := (commit_last k hlt).1 hstmt
      exact Nat.succ.inj hlast
    exact .commit _ (by decide) (by decide) (by decide) (by decide)
  · rename_i hstmt
    have hle := List.getElem?_eq_none_iff.1 hstmt
    by_cases hv : .schemaVersion ∈ db.tables
    · rw [dif_pos hv] at h
      cases h
      refine .insert hv ((between_script k).2 hle) ?_
      simp [Proc.holds, Proc.created, Nat.not_lt.2 hle]
    · rw [dif_neg hv] at h
      cases h
      exact .missing hv ((between_script k).2 hle) _

theorem did_of_step {fileHash : String} {held : List Table} {db db' : Database R} {p p' : Proc}
    (h : p.step fileHash held db = some (db', p')) : Did fileHash held db p db' p' := by
  cases p with
  | check =>
    simp only [Proc.step, Option.some.injEq, Prod.mk.injEq] at h
    obtain ⟨rfl, rfl⟩ := h
    by_cases hv : .schemaVersion ∈ db.tables
    · rw [if_neg (not_not_intro hv)]
      exact .nothing _ rfl rfl (fun h => (nomatch h))
    · rw [if_pos hv]
      exact .nothing _ rfl rfl (fun h => absurd h (by decide))
  | compare =>
    cases h
    exact .nothing _ rfl rfl (fun h => (nomatch h))
  | finished error => cases h
  | interrupted => cases h
  | script k => exact did_of_script h

/-! ## Invariant -/

/-- How many of the runs are in a phase. -/
theorem countP_set_run {runs : List Proc} {i : Nat} {p : Proc} (hi : runs[i]? = some p) (f : Proc → Bool) :
    runs.countP f = (runs.eraseIdx i).countP f + (f p).toNat ∧
      ∀ p', (runs.set i p').countP f = (runs.eraseIdx i).countP f + (f p').toNat := by
  obtain ⟨hlt, hget⟩ := List.getElem?_eq_some_iff.1 hi
  have hset : ∀ p', (runs.set i p').countP f = (runs.eraseIdx i).countP f + (f p').toNat := by
    intro p'
    rw [List.set_eq_take_append_cons_drop, if_pos hlt, List.eraseIdx_eq_take_drop_succ, List.countP_append,
      List.countP_cons, List.countP_append]
    cases f p' with
    | true =>
      show _ = _ + 1
      rw [if_pos rfl]
      omega
    | false =>
      show _ = _ + 0
      rw [if_neg Bool.false_ne_true]
      omega
  have hself := hset runs[i]
  rw [List.set_getElem_self, hget] at hself
  exact ⟨hself, hset⟩

theorem held_iff (s : St R) (i : Nat) :
    .schemaVersion ∉ s.held i ↔ (s.runs.eraseIdx i).countP Proc.holds = 0 := by
  rw [List.countP_eq_zero, St.held, List.mem_flatMap]
  simp [Proc.holds]

/-- At most one run has created `schema_version` without committing, and at
most one has committed it without a row. -/
structure Counted (db : Database R) (h b : Nat) : Prop where
  holders : h ≤ 1
  uncommitted : 0 < h → .schemaVersion ∉ db.tables
  betweens : b ≤ 1
  unversioned : 0 < b → .schemaVersion ∈ db.tables ∧ db.schemaVersion = []

def Inv (s : St R) : Prop := Counted s.db (s.runs.countP Proc.holds) (s.runs.countP Proc.between)

theorem inv_init (db : Database R) : Inv ⟨db, []⟩ :=
  ⟨Nat.zero_le _, fun h => absurd h (Nat.lt_irrefl 0), Nat.zero_le _, fun h => absurd h (Nat.lt_irrefl 0)⟩

theorem Counted.fewer {db : Database R} {h b h' b' : Nat} (hc : Counted db h b) (hh : h' ≤ h) (hb : b' ≤ b) :
    Counted db h' b' :=
  ⟨Nat.le_trans hh hc.holders, fun hpos => hc.uncommitted (by omega), Nat.le_trans hb hc.betweens,
    fun hpos => hc.unversioned (by omega)⟩

theorem countP_pos_run {runs : List Proc} {i : Nat} {p : Proc} (hi : runs[i]? = some p) {f : Proc → Bool}
    (hp : f p = true) : 0 < runs.countP f :=
  List.countP_pos_iff.2 ⟨p, List.mem_of_getElem? hi, hp⟩

/-- Nobody else has committed the table that an open transaction has created. -/
theorem Inv.absent {s : St R} (h : Inv s) {i : Nat} {p : Proc} (hi : s.runs[i]? = some p) (hp : p.holds = true) :
    .schemaVersion ∉ s.db.tables := h.uncommitted (countP_pos_run hi hp)

/-- The `INSERT` finds the table, and no row in it. -/
theorem Inv.noRow {s : St R} (h : Inv s) {i : Nat} {p : Proc} (hi : s.runs[i]? = some p) (hp : p.between = true) :
    .schemaVersion ∈ s.db.tables ∧ s.db.schemaVersion = [] := h.unversioned (countP_pos_run hi hp)

/-- What a run does with the database, seen from the state. -/
theorem step_run {fileHash : String} {s s' : St R} {i : Nat} (hs : step fileHash s (.step i) = some s') :
    ∃ p db' p', s.runs[i]? = some p ∧ Did fileHash (s.held i) s.db p db' p' ∧ s' = ⟨db', s.runs.set i p'⟩ := by
  simp only [step] at hs
  split at hs
  · rename_i p hp
    obtain ⟨⟨db', p'⟩, hstep, heq⟩ := Option.map_eq_some_iff.1 hs
    exact ⟨p, db', p', hp, did_of_step hstep, heq.symm⟩
  · cases hs

theorem step_interrupt {fileHash : String} {s s' : St R} {i : Nat} (hs : step fileHash s (.interrupt i) = some s') :
    ∃ p, s.runs[i]? = some p ∧ s' = { s with runs := s.runs.set i .interrupted } := by
  simp only [step] at hs
  split at hs
  · rename_i p hp
    rw [Option.ite_none_right_eq_some] at hs
    obtain ⟨-, hs⟩ := hs
    cases hs
    exact ⟨p, hp, rfl⟩
  · cases hs

theorem schemaVersion_mem : Table.schemaVersion ∈ postgresSql.filterMap Statement.table := by decide

theorem inv_run {fileHash : String} {s : St R} {i : Nat} {p p' : Proc} {db' : Database R} (h : Inv s)
    (hi : s.runs[i]? = some p) (hdid : Did fileHash (s.held i) s.db p db' p') : Inv ⟨db', s.runs.set i p'⟩ := by
  obtain ⟨hholds, hholds'⟩ := countP_set_run hi Proc.holds
  obtain ⟨hbetween, hbetween'⟩ := countP_set_run hi Proc.between
  have hnow : Counted s.db ((s.runs.eraseIdx i).countP Proc.holds + p.holds.toNat)
      ((s.runs.eraseIdx i).countP Proc.between + p.between.toNat) := by
    rw [← hholds, ← hbetween]
    exact h
  show Counted db' ((s.runs.set i p').countP Proc.holds) ((s.runs.set i p').countP Proc.between)
  rw [hholds', hbetween']
  cases hdid with
  | nothing _ hp hp' hnew =>
    rw [hp] at hnow
    rw [hp']
    cases hholding : p'.holds with
    | false => exact hnow.fewer (Nat.add_le_add_left (Nat.zero_le _) _) (Nat.le_refl _)
    | true =>
      rcases hnew hholding with hph | ⟨hnot, hheld⟩
      · rwa [hph] at hnow
      · rw [(held_iff s i).1 hheld]
        exact ⟨Nat.le_refl _, fun _ => hnot, hnow.betweens, hnow.unversioned⟩
  | commit _ hp hp' hph hp'h =>
    -- the table is new, so no other run is between its statements
    have hnot := h.absent hi hph
    rw [hp, hph] at hnow
    rw [hp', hp'h]
    have hnone : (s.runs.eraseIdx i).countP Proc.between = 0 := by
      by_contra hpos
      exact hnot (hnow.unversioned (Nat.pos_of_ne_zero hpos)).1
    have hothers : (s.runs.eraseIdx i).countP Proc.holds = 0 := Nat.le_zero.1 (Nat.le_of_succ_le_succ hnow.holders)
    rw [hnone, hothers]
    exact ⟨Nat.zero_le _, fun hpos => absurd hpos (Nat.lt_irrefl 0), Nat.le_refl _,
      fun _ => ⟨List.mem_append_right _ schemaVersion_mem, s.db.version hnot⟩⟩
  | insert hmem hp hph =>
    rw [hp, hph] at hnow
    have hnone : (s.runs.eraseIdx i).countP Proc.between = 0 := Nat.le_zero.1 (Nat.le_of_succ_le_succ hnow.betweens)
    rw [hnone]
    exact ⟨hnow.holders, hnow.uncommitted, Nat.zero_le _, fun hpos => absurd hpos (Nat.lt_irrefl 0)⟩
  | missing hnot hp => exact absurd (h.noRow hi hp).1 hnot

theorem inv_step {fileHash : String} {s s' : St R} {ev : Ev R} (h : Inv s) (hs : step fileHash s ev = some s') :
    Inv s' := by
  cases ev with
  | start =>
    cases hs
    have hcheck : Proc.check.holds = false ∧ Proc.check.between = false := by decide
    show Counted s.db ((s.runs ++ [Proc.check]).countP Proc.holds) ((s.runs ++ [Proc.check]).countP Proc.between)
    rw [List.countP_append, List.countP_append, List.countP_singleton, List.countP_singleton, hcheck.1, hcheck.2]
    exact h
  | step i =>
    obtain ⟨p, db', p', hi, hdid, rfl⟩ := step_run hs
    exact inv_run h hi hdid
  | interrupt i =>
    obtain ⟨p, hi, rfl⟩ := step_interrupt hs
    obtain ⟨hholds, hholds'⟩ := countP_set_run hi Proc.holds
    obtain ⟨hbetween, hbetween'⟩ := countP_set_run hi Proc.between
    have hinterrupted : Proc.interrupted.holds = false ∧ Proc.interrupted.between = false := by decide
    apply Counted.fewer h
    · rw [hholds, hholds', hinterrupted.1]
      exact Nat.add_le_add_left (Nat.zero_le _) _
    · rw [hbetween, hbetween', hinterrupted.2]
      exact Nat.add_le_add_left (Nat.zero_le _) _
  | write table rows =>
    simp only [step, Option.ite_none_right_eq_some, Option.some.injEq] at hs
    obtain ⟨-, rfl⟩ := hs
    exact ⟨h.holders, h.uncommitted, h.betweens, h.unversioned⟩

/-! ## Half a database -/

/-- `schema_version` is there, and no run is going to insert its row. -/
structure Half (s : St R) : Prop where
  table : .schemaVersion ∈ s.db.tables
  unversioned : s.db.schemaVersion = []
  betweens : s.runs.countP Proc.between = 0

theorem half_congr {s s' : St R} (htables : s'.db.tables = s.db.tables)
    (hversion : s'.db.schemaVersion = s.db.schemaVersion)
    (hbetweens : s'.runs.countP Proc.between = s.runs.countP Proc.between) : Half s' ↔ Half s := by
  constructor
  · intro h
    exact ⟨htables ▸ h.table, hversion ▸ h.unversioned, hbetweens ▸ h.betweens⟩
  · intro h
    exact ⟨htables ▸ h.table, hversion.trans h.unversioned, hbetweens.trans h.betweens⟩

theorem half_run {fileHash : String} {s : St R} {i : Nat} {p p' : Proc} {db' : Database R} (h : Inv s)
    (hi : s.runs[i]? = some p) (hdid : Did fileHash (s.held i) s.db p db' p') :
    Half ⟨db', s.runs.set i p'⟩ ↔ Half s := by
  obtain ⟨hbetween, hbetween'⟩ := countP_set_run hi Proc.between
  cases hdid with
  | nothing _ hp hp' hnew => exact half_congr rfl rfl (by rw [hbetween', hbetween, hp, hp'])
  | commit _ hp hp' hph hp'h =>
    constructor
    · intro hhalf
      have hzero := hhalf.betweens
      rw [hbetween', hp'] at hzero
      cases hzero
    · intro hhalf
      exact absurd hhalf.table (h.absent hi hph)
  | insert hmem hp hph =>
    constructor
    · intro hhalf
      exact absurd hhalf.unversioned (List.append_ne_nil_of_right_ne_nil _ (List.cons_ne_nil _ _))
    · intro hhalf
      exact absurd hhalf.betweens (Nat.ne_of_gt (countP_pos_run hi hp))
  | missing hnot hp => exact absurd (h.noRow hi hp).1 hnot

/-- Only an interruption between the two statements makes half a database, and
nothing repairs it. -/
theorem half_step {fileHash : String} {s s' : St R} {ev : Ev R} (h : Inv s) (hs : step fileHash s ev = some s') :
    ¬ Half s' ↔ ¬ Half s ∧ NotBetween s ev := by
  cases ev with
  | start =>
    cases hs
    have hsame : (s.runs ++ [Proc.check]).countP Proc.between = s.runs.countP Proc.between := by
      rw [List.countP_append]
      rfl
    have hiff : Half { s with runs := s.runs ++ [.check] } ↔ Half s := half_congr rfl rfl hsame
    rw [hiff]
    exact (and_iff_left trivial).symm
  | step i =>
    obtain ⟨p, db', p', hi, hdid, rfl⟩ := step_run hs
    rw [half_run h hi hdid]
    exact (and_iff_left trivial).symm
  | interrupt i =>
    obtain ⟨p, hi, rfl⟩ := step_interrupt hs
    obtain ⟨hbetween, hbetween'⟩ := countP_set_run hi Proc.between
    have hinterrupted : Proc.interrupted.between = false := rfl
    rw [NotBetween, hi]
    simp only [Option.mem_some_iff, forall_eq']
    cases hp : p.between with
    | false =>
      have hsame : (s.runs.set i .interrupted).countP Proc.between = s.runs.countP Proc.between := by
        rw [hbetween', hbetween, hp, hinterrupted]
      have hiff : Half { s with runs := s.runs.set i .interrupted } ↔ Half s := half_congr rfl rfl hsame
      rw [hiff]
      exact (and_iff_left rfl).symm
    | true =>
      -- it was the only run that could have inserted the row
      rw [hp] at hbetween
      have hbetweens := h.betweens
      obtain ⟨htable, hunversioned⟩ := h.noRow hi hp
      have hzero : (s.runs.set i .interrupted).countP Proc.between = 0 := by
        rw [hbetween] at hbetweens
        rw [hbetween', hinterrupted]
        exact Nat.le_zero.1 (Nat.le_of_succ_le_succ hbetweens)
      have hhalf : Half { s with runs := s.runs.set i .interrupted } := ⟨htable, hunversioned, hzero⟩
      exact ⟨fun hnot => absurd hhalf hnot, fun ⟨_, hfalse⟩ => Bool.noConfusion hfalse⟩
  | write table rows =>
    simp only [step, Option.ite_none_right_eq_some, Option.some.injEq] at hs
    obtain ⟨-, rfl⟩ := hs
    have hiff : Half { s with db := s.db.write table rows } ↔ Half s := half_congr rfl rfl rfl
    rw [hiff]
    exact (and_iff_left trivial).symm

/-! ## A run on its own -/

/-- What the runs have made of an empty database. -/
structure FromEmpty (fileHash : String) (s : St R) : Prop where
  tables : s.db.tables = [] ∨ s.db.tables = postgresSql.filterMap Statement.table
  version : s.db.schemaVersion = [] ∨ s.db.schemaVersion = [fileHash]

theorem fromEmpty_step {fileHash : String} {s s' : St R} {ev : Ev R} (h : Inv s) (he : FromEmpty fileHash s)
    (hs : step fileHash s ev = some s') : FromEmpty fileHash s' := by
  cases ev with
  | start =>
    cases hs
    exact ⟨he.tables, he.version⟩
  | interrupt i =>
    obtain ⟨p, hi, rfl⟩ := step_interrupt hs
    exact ⟨he.tables, he.version⟩
  | write table rows =>
    simp only [step, Option.ite_none_right_eq_some, Option.some.injEq] at hs
    obtain ⟨-, rfl⟩ := hs
    exact ⟨he.tables, he.version⟩
  | step i =>
    obtain ⟨p, db', p', hi, hdid, rfl⟩ := step_run hs
    cases hdid with
    | nothing => exact ⟨he.tables, he.version⟩
    | commit _ hp hp' hph hp'h =>
      have hnot := h.absent hi hph
      refine ⟨.inr ?_, he.version⟩
      rcases he.tables with hempty | hall
      · show s.db.tables ++ _ = _
        rw [hempty, List.nil_append]
      · rw [hall] at hnot
        exact absurd schemaVersion_mem hnot
    | insert hmem hp hph =>
      obtain ⟨-, hunversioned⟩ := h.noRow hi hp
      refine ⟨he.tables, .inr ?_⟩
      show s.db.schemaVersion ++ [fileHash] = _
      rw [hunversioned, List.nil_append]
    | missing hnot hp => exact absurd (h.noRow hi hp).1 hnot

def alone (fileHash : String) : Nat → Database R → Proc → Option (Database R × Proc)
  | 0, db, p => some (db, p)
  | n + 1, db, p => (p.step fileHash [] db).bind fun q => alone fileHash n q.1 q.2

theorem created_of_idle {runs : List Proc} (hidle : ∀ p ∈ runs, p.inFlight = false) :
    runs.flatMap Proc.created = [] := by
  rw [List.flatMap_eq_nil_iff]
  intro p hp
  have hp := hidle p hp
  cases p with
  | script k => cases hp
  | check => rfl
  | compare => rfl
  | finished error => rfl
  | interrupted => rfl

theorem exec_alone {fileHash : String} {runs : List Proc} (hidle : ∀ p ∈ runs, p.inFlight = false) (n : Nat) :
    ∀ (db : Database R) (p : Proc),
      LTS.exec (step fileHash) ⟨db, runs ++ [p]⟩ (List.replicate n (.step runs.length)) =
        (alone fileHash n db p).map fun q => ⟨q.1, runs ++ [q.2]⟩ := by
  have hstep : ∀ (db : Database R) (p : Proc), step fileHash ⟨db, runs ++ [p]⟩ (.step runs.length) =
      (p.step fileHash [] db).map fun q => ⟨q.1, runs ++ [q.2]⟩ := by
    intro db p
    have hheld : St.held ⟨db, runs ++ [p]⟩ runs.length = [] := by
      rw [St.held, List.eraseIdx_append_of_length_le (Nat.le_refl _), Nat.sub_self]
      simp [created_of_idle hidle]
    simp [step, hheld]
  induction n with
  | zero =>
    intro db p
    rfl
  | succ n ih =>
    intro db p
    rw [List.replicate_succ, LTS.exec, hstep, alone]
    cases p.step fileHash [] db with
    | none => rfl
    | some q => exact ih q.1 q.2

theorem alone_empty (fileHash : String) {db : Database R} (h : db.tables = []) :
    ∃ db', alone fileHash 11 db .check = some (db', .finished none) ∧
      db'.tables = postgresSql.filterMap Statement.table ∧ db'.schemaVersion = [fileHash] := by
  obtain ⟨tables, schemaVersion, rows, hversion⟩ := db
  cases h
  obtain rfl : schemaVersion = [] := hversion (List.not_mem_nil)
  exact ⟨_, rfl, rfl, rfl⟩

theorem alone_versioned {fileHash : String} {db : Database R} (h : .schemaVersion ∈ db.tables) (n : Nat) :
    alone fileHash (n + 2) db .check =
      alone fileHash n db (.finished (compareHash fileHash db.schemaVersion)) := by
  simp [alone, Proc.step, h]

theorem alone_finished {fileHash : String} {db : Database R} {error : Option InitError} {n : Nat}
    {q : Database R × Proc} (h : alone fileHash n db (.finished error) = some q) : q = (db, .finished error) := by
  cases n with
  | zero =>
    cases h
    rfl
  | succ n => cases h

theorem completes_iff {fileHash : String} {s : St R} (he : FromEmpty fileHash s) (hidle : Idle s) :
    CompletesAlone fileHash s ↔ ¬ Half s := by
  have hexec : ∀ n, LTS.exec (step fileHash) s (.start :: List.replicate n (.step s.runs.length)) =
      (alone fileHash n s.db .check).map fun q => ⟨q.1, s.runs ++ [q.2]⟩ :=
    fun n => exec_alone hidle n s.db .check
  have hbetweens : s.runs.countP Proc.between = 0 := by
    rw [List.countP_eq_zero]
    intro p hp hpb
    have hflight := hidle p hp
    cases p with
    | script k => cases hflight
    | check => cases hpb
    | compare => cases hpb
    | finished error => cases hpb
    | interrupted => cases hpb
  constructor
  · rintro ⟨n, s', hs, hruns, -, hversion⟩ hhalf
    rw [hexec, Option.map_eq_some_iff] at hs
    obtain ⟨⟨db', p'⟩, hq, rfl⟩ := hs
    obtain rfl : p' = .finished none := by
      have hlast := List.append_cancel_left hruns
      exact List.head_eq_of_cons_eq hlast
    -- it reads no hash and fails
    cases n with
    | zero => cases hq
    | succ n =>
      cases n with
      | zero => simp [alone, Proc.step, hhalf.table] at hq
      | succ n =>
        rw [alone_versioned hhalf.table, hhalf.unversioned] at hq
        cases alone_finished hq
  · intro hhalf
    rcases he.tables with hempty | hall
    · obtain ⟨db', hq, htables, hversion⟩ := alone_empty fileHash hempty
      refine ⟨11, ⟨db', s.runs ++ [.finished none]⟩, ?_, rfl, htables, hversion⟩
      rw [hexec, hq]
      rfl
    · have hmem : .schemaVersion ∈ s.db.tables := hall ▸ schemaVersion_mem
      rcases he.version with hnone | hhash
      · exact absurd ⟨hmem, hnone, hbetweens⟩ hhalf
      · refine ⟨2, ⟨s.db, s.runs ++ [.finished none]⟩, ?_, rfl, hall, hhash⟩
        rw [hexec, alone_versioned hmem, hhash]
        simp [alone, compareHash]

/-! ## Whole runs -/

theorem leavesVersioned (R : Type) (fileHash : String) : LeavesVersioned R fileHash := by
  intro db evs s ev s' hr hs hwrite hversion
  have hinv : ∀ (s : St R) ev s', Inv s → (lts fileHash db).step s ev s' → Inv s' := fun _ _ _ h hs => inv_step h hs
  have h : Inv s := hr.keeps hinv (inv_init db)
  cases ev with
  | start =>
    cases hs
    rfl
  | interrupt i =>
    obtain ⟨p, hi, rfl⟩ := step_interrupt hs
    rfl
  | write table rows => cases hwrite
  | step i =>
    obtain ⟨p, db', p', hi, hdid, rfl⟩ := step_run hs
    cases hdid with
    | nothing => rfl
    | missing => rfl
    | commit _ hp hp' hph hp'h => exact absurd (s.db.version (h.absent hi hph)) hversion
    | insert hmem hp hph => exact absurd (h.noRow hi hp).2 hversion

/-- **When `init` can be repeated.** After any runs on an empty database, none
of them still at work, a run on its own completes and leaves all tables with
the hash of the file, and no run ever changes a database with a version row, if
and only if no run was interrupted between the `COMMIT` of the script and its
`INSERT`. -/
theorem init_repeatable_iff (fileHash : String) (evs : List (Ev R)) (s : St R)
    (hr : (lts fileHash Database.empty).Run ⟨.empty, []⟩ evs s) (hidle : Idle s) :
    (CompletesAlone fileHash s ∧ LeavesVersioned R fileHash) ↔
      ((lts fileHash Database.empty).restrict NotBetween).Run ⟨.empty, []⟩ evs s := by
  have hboth : ∀ (s : St R) ev s', Inv s ∧ FromEmpty fileHash s → (lts fileHash Database.empty).step s ev s' →
      Inv s' ∧ FromEmpty fileHash s' := fun _ _ _ h hs => ⟨inv_step h.1 hs, fromEmpty_step h.1 h.2 hs⟩
  obtain ⟨-, hfrom⟩ := hr.keeps hboth ⟨inv_init _, .inl rfl, .inl rfl⟩
  have hinv : ∀ (s : St R) ev s', Inv s → True → (lts fileHash Database.empty).step s ev s' → Inv s' :=
    fun _ _ _ h _ hs => inv_step h hs
  have hhalf : ∀ (s : St R) ev s', Inv s → True → (lts fileHash Database.empty).step s ev s' →
      (¬ Half s' ↔ ¬ Half s ∧ NotBetween s ev) := fun _ _ _ h _ hs => half_step h hs
  have hkept := hr.kept_iff hinv hhalf (fun _ _ => trivial) (inv_init _)
  have hempty : ¬ Half (⟨Database.empty, []⟩ : St R) := fun h => absurd h.table List.not_mem_nil
  rw [completes_iff hfrom hidle, hkept, and_iff_left (leavesVersioned R fileHash), and_iff_right hempty]

/-- Interrupted in the script. -/
def inScript : List (Ev Unit) := .start :: List.replicate 5 (.step 0) ++ [.interrupt 0]

theorem init_repeatable_iff_inScript :
    ∃ s, LTS.exec (step "hash") ⟨.empty, []⟩ inScript = some s ∧ s.runs = [.interrupted] ∧
      CompletesAlone "hash" s ∧ LeavesVersioned Unit "hash" := by
  have hrun : (LTS.exec (LTS.guarded NotBetween (step "hash")) ⟨.empty, []⟩ inScript).map (·.runs) =
      some [.interrupted] := by
    decide +kernel
  obtain ⟨s, hs, hruns⟩ := Option.map_eq_some_iff.1 hrun
  have hidle : Idle s := by
    intro p hp
    rw [hruns, List.mem_singleton] at hp
    rw [hp]
    rfl
  have hrestrict : ((lts "hash" Database.empty).restrict NotBetween).Run ⟨.empty, []⟩ inScript s :=
    LTS.restrict_run_of_exec hs
  exact ⟨s, LTS.exec_of_guarded hs, hruns,
    (init_repeatable_iff "hash" inScript s hrestrict.of_restrict hidle).2 hrestrict⟩

/-- Interrupted behind the `COMMIT`. -/
def behindCommit : List (Ev Unit) := .start :: List.replicate 10 (.step 0) ++ [.interrupt 0]

theorem init_behindCommit :
    ∃ s, LTS.exec (step "hash") ⟨.empty, []⟩ behindCommit = some s ∧ Idle s ∧ ¬ CompletesAlone "hash" s ∧
      (LTS.exec (step "hash") s [.start, .step 1, .step 1]).map (·.runs) =
        some [.interrupted,
          .finished (some (.version "IrohaDb.init: expected db schema version hash but got null"))] := by
  have hrun : (LTS.exec (step "hash") ⟨.empty, []⟩ behindCommit).bind (fun s =>
      (LTS.exec (step "hash") s [.start, .step 1, .step 1]).map fun s' =>
        (s.runs, s.db.tables, s.db.schemaVersion, s'.runs)) =
      some ([.interrupted], postgresSql.filterMap Statement.table, [], [.interrupted,
        .finished (some (.version "IrohaDb.init: expected db schema version hash but got null"))]) := by
    decide +kernel
  obtain ⟨s, hs, hnext⟩ := Option.bind_eq_some_iff.1 hrun
  obtain ⟨s', hs', hfinal⟩ := Option.map_eq_some_iff.1 hnext
  simp only [Prod.mk.injEq] at hfinal
  obtain ⟨hruns, htables, hversion, hruns'⟩ := hfinal
  have hidle : Idle s := by
    intro p hp
    rw [hruns, List.mem_singleton] at hp
    rw [hp]
    rfl
  have hhalf : Half s := ⟨htables ▸ schemaVersion_mem, hversion, by rw [hruns]; rfl⟩
  refine ⟨s, hs, hidle, fun hcompletes => ?_, by rw [hs']; exact congrArg some hruns'⟩
  exact (completes_iff ⟨.inr htables, .inl hversion⟩ hidle).1 hcompletes hhalf

end Explorer.Iroha.SchemaInit
