import Explorer.Fabric.ExactlyOnce
import Explorer.Fabric.Guards

/-!
# Catch-up closes every gap

One run of `synchBlocks`, from whatever the tables hold, among any other
executions of `processBlockEvent`. The numbers it has found missing pass from
its query to the ledger, one after the other, to `processBlockEvent`, which
returns at once for a block whose key is held.

* `Catching`: the invariant. It speaks of a list of tasks, so that a task can
  be taken out of the bag, resumed and put back. A number below the height is
  still to do (`Outstanding`), or it has a row or a held key (`Settled`).
* `catch_up_iff`: the outcome. A held key is as good as a row as long as the
  execution that holds it is running.
-/
namespace Explorer.Fabric.SyncService

variable {C : Client} {L : Ledger}

/-! ## One execution -/

theorem Exec.Built.mono {e : Exec} {db db' : Db} (h : e.Built C db)
    (hsub : ∀ key ∈ blockKeys C.networkName db, key ∈ blockKeys C.networkName db') : e.Built C db' := by
  unfold Exec.Built at h ⊢
  split
  · trivial
  · trivial
  · rename_i hpc
    rw [hpc] at h
    exact h
  · rename_i hpc
    rw [hpc] at h
    exact ⟨h.1, fun hstmt => hsub _ (h.2 hstmt)⟩

theorem built_nextTransaction {e e' : Exec} {block : BlockRow} {i : Nat} (hrow : e.Row C block)
    (h : e.nextTransaction C block i = .await e') (db : Db) :
    e'.Built C db ∧ ∀ row, e'.pc ≠ .saveBlock row .insert := by
  unfold Exec.nextTransaction at h
  split at h
  · split at h
    · cases h
      exact ⟨hrow, fun row heq => by cases heq⟩
    · cases h
  · cases h
    exact ⟨⟨hrow, fun heq => by cases heq⟩, fun row heq => by cases heq⟩

/-- An execution that awaits again; it inserts only after it has counted no
row like its own. -/
theorem built_resume {e e' : Exec} {db : Db} (h : e.Built C db) (hres : (e.resume C db).2 = .await e') :
    e'.Built C (e.resume C db).1 ∧ ∀ row, e'.pc = .saveBlock row .insert → e.Row C row ∧
      (e.resume C db).1 = db ∧ isValidRow (countBlocks C.networkName row db) = true := by
  have hnext : ∀ block i, e.Row C block → e.nextTransaction C block i = .await e' →
      e'.Built C (e.resume C db).1 ∧ ∀ row, e'.pc = .saveBlock row .insert → e.Row C row ∧
        (e.resume C db).1 = db ∧ isValidRow (countBlocks C.networkName row db) = true := by
    intro block i hrow hn
    obtain ⟨hbuilt, hpc⟩ := built_nextTransaction hrow hn (e.resume C db).1
    exact ⟨hbuilt, fun row hins => absurd hins (hpc row)⟩
  unfold Exec.Built at h
  cases hpc : e.pc with
  | timeStamp =>
    simp only [Exec.resume, hpc] at hres
    cases hres
    exact ⟨trivial, fun row heq => by cases heq⟩
  | blockHash =>
    cases hh : e.channelGenesisHash with
    | none => simp [Exec.resume, hpc, hh] at hres
    | some hash =>
      refine hnext (blockRow C hash e.block e.firstTx) 0 ⟨hh, rfl⟩ ?_
      simpa [Exec.resume, hpc, hh] using hres
  | saveTransaction block i row stmt =>
    rw [hpc] at h
    rw [resume_saveTransaction hpc] at hres
    split at hres
    · cases hres
      exact ⟨h, fun row heq => by cases heq⟩
    · exact hnext block (i + 1) h hres
  | saveBlock block stmt =>
    rw [hpc] at h
    rw [resume_saveBlock hpc] at hres
    cases stmt with
    | count =>
      cases hv : isValidRow (countBlocks C.networkName block db) with
      | true =>
        simp only [SaveBlock.run, hv, if_true] at hres
        cases hres
        have hsame : (e.resume C db).1 = db := by
          rw [resume_db, Exec.write, hpc]
        exact ⟨⟨h.1, fun heq => by cases heq⟩, fun row heq => by cases heq; exact ⟨h.1, hsame, hv⟩⟩
      | false => simp [SaveBlock.run, hv] at hres
    | insert =>
      cases hres
      refine ⟨⟨h.1, fun _ => ?_⟩, fun row heq => by cases heq⟩
      refine mem_blockKeys.2 ⟨{ block with networkName := some C.networkName }, ?_, rfl, rfl, h.1.number⟩
      rw [resume_blocks, Exec.newBlocks, hpc]
      exact List.mem_append_right _ (List.mem_singleton_self _)
    | channel => cases hres

/-! ## The invariant -/

section
variable (C) (L) (channelName hash : String) (height : Nat)

/-- All rows that the block has are those of the ledger. -/
def FromLedger (db : Db) (n : Nat) : Prop :=
  ∀ r ∈ db.blocks, r.networkName = some C.networkName → r.channelGenesisHash = hash → r.blocknum = n →
    ∃ block firstTx, L.block channelName n = some block ∧
      r = { blockRow C hash block firstTx with networkName := some C.networkName }

/-- What a task of the run, or its execution of a block, has to do and may
rely on. -/
def Honest (db : Db) : Task → Prop
  | .synch _ .chainInfo | .block .listener _ => True
  | .synch _ (.missing blockHeight) => blockHeight = (height : Int) - 1
  | .synch _ (.queryBlock id rest) => ∀ n ∈ id :: rest, FromLedger C L channelName hash db n
  | .block (.synchBlocks _ rest) e =>
    (∀ n ∈ e.number :: rest, FromLedger C L channelName hash db n) ∧ e.channelName = channelName ∧
      ∀ row, e.pc = .saveBlock row .insert → (hash, e.number) ∉ blockKeys C.networkName db

/-- The task will come to block `n`, or has not looked yet. -/
def Task.Pending : Task → Nat → Prop
  | .synch _ .chainInfo, _ | .synch _ (.missing _), _ => True
  | .synch _ (.queryBlock id rest), n => n ∈ id :: rest
  | .block (.synchBlocks _ rest) _, n => n ∈ rest
  | .block .listener _, _ => False

def Outstanding (tasks : List Task) (n : Nat) : Prop := ∃ t ∈ tasks, t.synch? = some channelName ∧ t.Pending n

/-- Block `n` has a row, or its key is held. -/
def Settled (s : St) (n : Nat) : Prop :=
  (hash, n) ∈ blockKeys C.networkName s.db ∨ blockProKey channelName n ∈ s.blocksInProcess

/-- `tracked`: a run of `synchBlocks` is the one in question. `answered`: no
execution has left a key behind for a block without a row. -/
structure Catching (tracked answered : Prop) (s : St) (tasks : List Task) : Prop where
  guarded : Guarded s.blocksInProcess ((tasks.filterMap Task.exec?).map Exec.key)
  execs : ∀ e ∈ tasks.filterMap Task.exec?, e.From C L ∧ e.Built C s.db
  synchs : Guarded s.synchInProcess ((tasks.filterMap Task.synch?).map (synchKey C))
  honest : tracked → ∀ t ∈ tasks, t.synch? = some channelName → Honest C L channelName hash height s.db t
  covered : tracked → (channelName ∈ tasks.filterMap Task.synch? ∨ synchKey C channelName ∉ s.synchInProcess) →
    ∀ n < height, Outstanding channelName tasks n ∨ Settled C channelName hash s n
  answering : answered → ∀ n < height, blockProKey channelName n ∈ s.blocksInProcess →
    (∃ e ∈ tasks.filterMap Task.exec?, e.channelName = channelName ∧ e.number = n) ∨
      (hash, n) ∈ blockKeys C.networkName s.db

end

section
variable {channelName hash : String} {height : Nat} {tracked answered : Prop} {s : St} {t : Task} {tasks : List Task}

theorem synchKey_inj {a b : String} (h : synchKey C a = synchKey C b) : a = b := by
  have hlist := congrArg String.toList h
  exact String.toList_inj.1 (by simpa [synchKey] using hlist)

/-! ## What the tables keep -/

theorem fromLedger_resume (hch : C.getChannelGenHash channelName = some hash) {e : Exec} {db : Db}
    (he : e.From C L) (hb : e.Built C db) {n : Nat} (h : FromLedger C L channelName hash db n) :
    FromLedger C L channelName hash (e.resume C db).1 n := by
  intro r hr hnet hhash hn
  rw [resume_blocks, List.mem_append] at hr
  rcases hr with hold | hnew
  · exact h r hold hnet hhash hn
  · obtain ⟨hrow, heq⟩ := hb.row hnew
    rw [hhash] at hrow heq
    have hname : e.channelName = channelName := C.distinct _ _ _ (he.hash ▸ hrow) hch
    have hnum : n = e.number := by
      rw [← hn, heq]
      rfl
    exact ⟨e.block, e.firstTx, by rw [← hname, hnum, he.ledger], heq⟩

/-- Among rows of the ledger `saveBlock` counts by the number. -/
theorem not_mem_of_isValidRow (hch : C.getChannelGenHash channelName = some hash) {e : Exec} {db : Db}
    {row : BlockRow} (he : e.From C L) (hname : e.channelName = channelName) (hrow : e.Row C row)
    (h : FromLedger C L channelName hash db e.number)
    (hvalid : isValidRow (countBlocks C.networkName row db) = true) :
    (hash, e.number) ∉ blockKeys C.networkName db := by
  have hhash : row.channelGenesisHash = hash := by
    have hsome := hrow.1
    rw [he.hash, hname, hch] at hsome
    exact (Option.some.inj hsome).symm
  have hsame : ∀ r ∈ db.blocks, r.networkName = some C.networkName →
      r.channelGenesisHash = row.channelGenesisHash → r.blocknum = row.blocknum →
      r.txcount = row.txcount ∧ r.prehash = row.prehash ∧ r.datahash = row.datahash := by
    intro r hr hnet hsame hnum
    obtain ⟨block, firstTx, hblock, heq⟩ := h r hr hnet (hsame.trans hhash) (hnum.trans hrow.number)
    have hl := he.ledger
    rw [hname, hblock] at hl
    rw [heq, hrow.2, Option.some.inj hl]
    exact ⟨rfl, rfl, rfl⟩
  have hnot := (isValidRow_countBlocks hsame).1 hvalid
  rwa [hhash, hrow.number] at hnot

theorem Honest.mono {db db' : Db} (h : Honest C L channelName hash height db t)
    (hfrom : ∀ n, FromLedger C L channelName hash db n → FromLedger C L channelName hash db' n)
    (hkeys : ∀ e, t.exec? = some e → e.channelName = channelName →
      (hash, e.number) ∈ blockKeys C.networkName db' → (hash, e.number) ∈ blockKeys C.networkName db) :
    Honest C L channelName hash height db' t := by
  cases t with
  | synch c pc =>
    cases pc with
    | chainInfo => trivial
    | missing blockHeight => exact h
    | queryBlock id rest => exact fun n hn => hfrom n (h n hn)
  | block owner e =>
    cases owner with
    | listener => trivial
    | synchBlocks c rest =>
      obtain ⟨hrows, hname, hnew⟩ := h
      exact ⟨fun n hn => hfrom n (hrows n hn), hname, fun row hpc hmem => hnew row hpc (hkeys e rfl hname hmem)⟩

/-! ## Tasks -/

theorem Catching.perm {tasks' : List Task} (h : Catching C L channelName hash height tracked answered s tasks)
    (hp : tasks.Perm tasks') : Catching C L channelName hash height tracked answered s tasks' := by
  obtain ⟨h1, h2, h3, h4, h5, h6⟩ := h
  have hexecs := hp.filterMap Task.exec?
  have hsynchs := hp.filterMap Task.synch?
  refine ⟨h1.perm (hexecs.map _), fun e he => h2 e (hexecs.mem_iff.2 he), h3.perm (hsynchs.map _),
    fun ht t hmem => h4 ht t (hp.mem_iff.2 hmem), fun ht halive n hn => ?_, fun ha n hn hheld => ?_⟩
  · refine (h5 ht (halive.imp_left hsynchs.mem_iff.2) n hn).imp_left ?_
    rintro ⟨t, hmem, hpending⟩
    exact ⟨t, hp.mem_iff.1 hmem, hpending⟩
  · refine (h6 ha n hn hheld).imp_left ?_
    rintro ⟨e, hmem, hid⟩
    exact ⟨e, hexecs.mem_iff.1 hmem, hid⟩

theorem Catching.imp {tracked' answered' : Prop}
    (h : Catching C L channelName hash height tracked answered s tasks) (htracked : tracked' → tracked)
    (hanswered : answered' → answered) : Catching C L channelName hash height tracked' answered' s tasks :=
  ⟨h.guarded, h.execs, h.synchs, fun ht => h.honest (htracked ht), fun ht => h.covered (htracked ht),
    fun ha => h.answering (hanswered ha)⟩

/-- Other tables, other notifications. -/
theorem Catching.congr {s' : St} (h : Catching C L channelName hash height tracked answered s tasks)
    (hblocks : s'.db.blocks = s.db.blocks) (hheld : s'.blocksInProcess = s.blocksInProcess)
    (hsynchs : s'.synchInProcess = s.synchInProcess) :
    Catching C L channelName hash height tracked answered s' tasks := by
  obtain ⟨h1, h2, h3, h4, h5, h6⟩ := h
  have hkeys : blockKeys C.networkName s'.db = blockKeys C.networkName s.db := blockKeys_congr hblocks
  refine ⟨hheld ▸ h1, fun e he => (h2 e he).imp_right fun hb => hb.mono fun key hkey => hkeys ▸ hkey, hsynchs ▸ h3,
    fun ht t hmem hc => (h4 ht t hmem hc).mono (fun n hn => ?_) (fun e _ _ hkey => hkeys ▸ hkey), ?_, ?_⟩
  · unfold FromLedger at hn ⊢
    rwa [hblocks]
  · unfold Settled
    rw [hkeys, hheld, hsynchs]
    exact h5
  · rw [hkeys, hheld]
    exact h6

theorem catching_push (h : Catching C L channelName hash height tracked answered s (t :: s.tasks)) :
    Catching C L channelName hash height tracked answered (s.push t) (s.push t).tasks := by
  have hp : (t :: s.tasks).Perm (s.push t).tasks := (List.perm_append_singleton t s.tasks).symm
  exact (h.perm hp).congr rfl rfl rfl

theorem not_mem_synchs (h : Catching C L channelName hash height tracked answered s (t :: tasks)) {c : String}
    (hc : t.synch? = some c) : c ∉ tasks.filterMap Task.synch? := by
  have hnodup := h.synchs.nodup_running
  rw [List.filterMap_cons_some hc, List.map_cons, List.nodup_cons] at hnodup
  exact fun hmem => hnodup.1 (List.mem_map_of_mem hmem)

theorem mem_synchInProcess (h : Catching C L channelName hash height tracked answered s (t :: tasks)) {c : String}
    (hc : t.synch? = some c) : synchKey C c ∈ s.synchInProcess := by
  refine h.synchs.sub _ ?_
  rw [List.filterMap_cons_some hc, List.map_cons]
  exact List.mem_cons_self

theorem guarded_tail {held : List String} {α : Type} {f : Task → Option α} {key : α → String}
    (h : Guarded held (((t :: tasks).filterMap f).map key)) : Guarded held ((tasks.filterMap f).map key) := by
  cases hf : f t with
  | none => rwa [List.filterMap_cons_none hf] at h
  | some a =>
    rw [List.filterMap_cons_some hf, List.map_cons] at h
    exact h.lost

theorem mem_filterMap_tail {α : Type} {f : Task → Option α} {a : α} (h : a ∈ tasks.filterMap f) :
    a ∈ (t :: tasks).filterMap f := by
  obtain ⟨t', ht', ha⟩ := List.mem_filterMap.1 h
  exact List.mem_filterMap.2 ⟨t', List.mem_cons_of_mem _ ht', ha⟩

/-- A task is over and keeps what it holds. -/
theorem Catching.drop (h : Catching C L channelName hash height tracked answered s (t :: tasks))
    (hans : answered → ∀ e, t.exec? = some e → e.channelName = channelName → e.number < height →
      (hash, e.number) ∈ blockKeys C.networkName s.db) :
    Catching C L channelName hash height tracked answered s tasks where
  guarded := guarded_tail h.guarded
  execs e he := h.execs e (mem_filterMap_tail he)
  synchs := guarded_tail h.synchs
  honest ht t' hmem := h.honest ht t' (List.mem_cons_of_mem _ hmem)
  covered ht halive n hn := by
    rcases h.covered ht (halive.imp_left mem_filterMap_tail) n hn with ⟨t', hmem, hc, hpending⟩ | hsettled
    · rcases List.mem_cons.1 hmem with rfl | hmem
      · exact (halive.elim (not_mem_synchs h hc) fun hkey => hkey (mem_synchInProcess h hc)).elim
      · exact .inl ⟨t', hmem, hc, hpending⟩
    · exact .inr hsettled
  answering ha n hn hheld := by
    rcases h.answering ha n hn hheld with ⟨e, hmem, hname, hnum⟩ | hrow
    · obtain ⟨t', ht', he⟩ := List.mem_filterMap.1 hmem
      rcases List.mem_cons.1 ht' with rfl | ht'
      · subst hnum
        exact .inr (hans ha e he hname hn)
      · exact .inl ⟨e, List.mem_filterMap.2 ⟨t', ht', he⟩, hname, hnum⟩
    · exact .inr hrow

/-- `synchBlocks` goes on to another await. -/
theorem Catching.swap {t' : Task} (h : Catching C L channelName hash height tracked answered s (t :: tasks))
    (ht : t.exec? = none) (ht' : t'.exec? = none) (hsynch : t'.synch? = t.synch?)
    (hhonest : tracked → t.synch? = some channelName → Honest C L channelName hash height s.db t')
    (hpending : tracked → t.synch? = some channelName → ∀ n < height, t.Pending n →
      t'.Pending n ∨ Settled C channelName hash s n) :
    Catching C L channelName hash height tracked answered s (t' :: tasks) := by
  have hexecs : (t' :: tasks).filterMap Task.exec? = (t :: tasks).filterMap Task.exec? := by
    rw [List.filterMap_cons_none ht, List.filterMap_cons_none ht']
  have hsynchs : (t' :: tasks).filterMap Task.synch? = (t :: tasks).filterMap Task.synch? := by
    rw [List.filterMap_cons, List.filterMap_cons, hsynch]
  refine ⟨hexecs ▸ h.guarded, hexecs ▸ h.execs, hsynchs ▸ h.synchs, fun hon t₁ hmem hc => ?_,
    fun hon halive n hn => ?_, hexecs ▸ h.answering⟩
  · rcases List.mem_cons.1 hmem with rfl | hmem
    · exact hhonest hon (hsynch ▸ hc)
    · exact h.honest hon t₁ (List.mem_cons_of_mem _ hmem) hc
  · rw [hsynchs] at halive
    rcases h.covered hon halive n hn with ⟨t₁, hmem, hc, hp⟩ | hsettled
    · rcases List.mem_cons.1 hmem with rfl | hmem
      · exact (hpending hon hc n hn hp).imp_left fun hp => ⟨t', List.mem_cons_self, hsynch ▸ hc, hp⟩
      · exact .inl ⟨t₁, List.mem_cons_of_mem _ hmem, hc, hp⟩
    · exact .inr hsettled

/-- `synchBlocks` returns and gives its key back. -/
theorem Catching.returned {c : String} (h : Catching C L channelName hash height tracked answered s (t :: tasks))
    (ht : t.exec? = none) (hc : t.synch? = some c)
    (hpending : tracked → c = channelName → ∀ n < height, t.Pending n → Settled C channelName hash s n) :
    Catching C L channelName hash height tracked answered
      { s with synchInProcess := release s.synchInProcess (synchKey C c) } tasks := by
  have hexecs : (t :: tasks).filterMap Task.exec? = tasks.filterMap Task.exec? := List.filterMap_cons_none ht
  have hguard := h.synchs
  rw [List.filterMap_cons_some hc, List.map_cons] at hguard
  refine ⟨hexecs ▸ h.guarded, hexecs ▸ h.execs, hguard.finish,
    fun hon t₁ hmem => h.honest hon t₁ (List.mem_cons_of_mem _ hmem), fun hon halive n hn => ?_, hexecs ▸ h.answering⟩
  have halive' : channelName ∈ (t :: tasks).filterMap Task.synch? ∨
      synchKey C channelName ∉ s.synchInProcess := by
    by_cases hname : c = channelName
    · left
      rw [List.filterMap_cons_some hc, hname]
      exact List.mem_cons_self
    · refine halive.imp mem_filterMap_tail fun hkey hmem => hkey (hguard.mem_release.2 ⟨fun heq => ?_, hmem⟩)
      exact hname (synchKey_inj heq).symm
  rcases h.covered hon halive' n hn with ⟨t₁, hmem, hc₁, hp⟩ | hsettled
  · rcases List.mem_cons.1 hmem with rfl | hmem
    · exact .inr (hpending hon (Option.some.inj (hc.symm.trans hc₁)) n hn hp)
    · exact .inl ⟨t₁, hmem, hc₁, hp⟩
  · exact .inr hsettled

theorem catching_nextMissing {c : String} {ids : List Nat}
    (h : Catching C L channelName hash height tracked answered s (t :: s.tasks)) (ht : t.exec? = none)
    (hc : t.synch? = some c)
    (hhonest : tracked → c = channelName → ∀ n ∈ ids, FromLedger C L channelName hash s.db n)
    (hpending : tracked → c = channelName → ∀ n < height, t.Pending n →
      n ∈ ids ∨ Settled C channelName hash s n) :
    Catching C L channelName hash height tracked answered (s.nextMissing C c ids) (s.nextMissing C c ids).tasks := by
  cases ids with
  | nil =>
    exact h.returned ht hc fun hon hname n hn hp => (hpending hon hname n hn hp).resolve_left List.not_mem_nil
  | cons id rest =>
    refine catching_push (h.swap ht rfl hc.symm (fun hon hname => ?_) fun hon hname => ?_)
    · exact hhonest hon (Option.some.inj (hc.symm.trans hname))
    · exact hpending hon (Option.some.inj (hc.symm.trans hname))

/-! ## `processBlockEvent` -/

/-- Who has called `processBlockEvent` for block `n`, at that call. -/
def Owner.hand (n : Nat) : Owner → List Task
  | .listener => []
  | .synchBlocks c rest => [.synch c (.queryBlock n rest)]

theorem exec?_hand (owner : Owner) (n : Nat) (tasks : List Task) :
    (owner.hand n ++ tasks).filterMap Task.exec? = tasks.filterMap Task.exec? := by
  cases owner <;> rfl

theorem synch?_hand (owner : Owner) (n : Nat) (e : Exec) (tasks : List Task) :
    (owner.hand n ++ tasks).filterMap Task.synch? = (.block owner e :: tasks).filterMap Task.synch? := by
  cases owner <;> rfl

theorem catching_returnTo (id : Nat) {owner : Owner}
    (h : Catching C L channelName hash height tracked answered s (owner.hand id ++ s.tasks))
    (hid : tracked → channelName ∈ owner.synchs → id < height → Settled C channelName hash s id) :
    Catching C L channelName hash height tracked answered (s.returnTo C owner) (s.returnTo C owner).tasks := by
  cases owner with
  | listener => exact h
  | synchBlocks c rest =>
    have hmem : Task.synch c (.queryBlock id rest) ∈ (Owner.synchBlocks c rest).hand id ++ s.tasks :=
      List.mem_cons_self
    refine catching_nextMissing (t := .synch c (.queryBlock id rest)) h rfl rfl (fun hon hname n hn => ?_)
      fun hon hname n hn hp => ?_
    · exact h.honest hon _ hmem (congrArg some hname) n (List.mem_cons_of_mem _ hn)
    · rcases List.mem_cons.1 hp with rfl | hrest
      · exact .inr (hid hon (List.mem_singleton.2 hname.symm) hn)
      · exact .inl hrest

/-- A block whose key is free gets an execution. -/
theorem catching_start {owner : Owner} {e : Exec}
    (h : Catching C L channelName hash height tracked answered s (owner.hand e.number ++ tasks))
    (he : e.From C L) (hpc : e.pc = .timeStamp) (hkey : e.key ∉ s.blocksInProcess)
    (hname : ∀ c ∈ owner.synchs, c = e.channelName) :
    Catching C L channelName hash height tracked answered
      { s with blocksInProcess := s.blocksInProcess ++ [e.key] } (.block owner e :: tasks) := by
  obtain ⟨h1, h2, h3, h4, h5, h6⟩ := h
  rw [exec?_hand] at h1 h2 h6
  rw [synch?_hand owner e.number e] at h3 h5
  refine ⟨h1.start hkey, fun a ha => ?_, h3, fun hon t ht hc => ?_, fun hon halive n hn => ?_, fun ha n hn hheld => ?_⟩
  · rcases List.mem_cons.1 ha with rfl | ha
    · exact ⟨he, by simp only [Exec.Built, hpc]⟩
    · exact h2 a ha
  · rcases List.mem_cons.1 ht with rfl | ht
    · cases owner with
      | listener => trivial
      | synchBlocks c rest =>
        obtain rfl : c = channelName := Option.some.inj hc
        have hrows := h4 hon (.synch c (.queryBlock e.number rest)) List.mem_cons_self hc
        refine ⟨hrows, (hname c (List.mem_singleton_self c)).symm, fun row heq => ?_⟩
        rw [hpc] at heq
        cases heq
    · exact h4 hon t (List.mem_append_right _ ht) hc
  · rcases h5 hon halive n hn with ⟨t, ht, hc, hp⟩ | hrow | hheld
    · rcases List.mem_append.1 ht with ht | ht
      · cases owner with
        | listener => cases ht
        | synchBlocks c rest =>
          rw [List.mem_singleton.1 ht] at hc hp
          obtain rfl : c = channelName := Option.some.inj hc
          rcases List.mem_cons.1 hp with rfl | hrest
          · refine .inr (.inr ?_)
            rw [hname c (List.mem_singleton_self c)]
            exact List.mem_append_right _ (List.mem_singleton_self e.key)
          · exact .inl ⟨_, List.mem_cons_self, rfl, hrest⟩
      · exact .inl ⟨t, List.mem_cons_of_mem _ ht, hc, hp⟩
    · exact .inr (.inl hrow)
    · exact .inr (.inr (List.mem_append_left _ hheld))
  · rcases List.mem_append.1 hheld with hheld | hnew
    · rcases h6 ha n hn hheld with ⟨a, hmem, hid⟩ | hrow
      · exact .inl ⟨a, List.mem_cons_of_mem _ hmem, hid⟩
      · exact .inr hrow
    · obtain ⟨hsame, hnum⟩ := blockProKey_inj (List.mem_singleton.1 hnew)
      exact .inl ⟨e, List.mem_cons_self, hsame.symm, hnum.symm⟩

theorem catching_processBlockEvent (owner : Owner) {c : String} {n : Nat} {block : Block}
    (h : Catching C L channelName hash height tracked answered s (owner.hand n ++ s.tasks))
    (hblock : L.block c n = some block) (hname : ∀ c' ∈ owner.synchs, c' = c) :
    Catching C L channelName hash height tracked answered (s.processBlockEvent C owner block)
      (s.processBlockEvent C owner block).tasks := by
  have hn := L.number _ _ _ hblock
  subst hn
  cases hdata : block.data with
  | nil =>
    simp only [St.processBlockEvent, hdata]
    cases owner with
    | listener => exact h
    | synchBlocks c' rest => exact h.drop fun _ e he => by cases he
  | cons firstTx txs =>
    have hfirst : block.data.head? = some firstTx := by rw [hdata]; rfl
    have hch := L.channel _ _ _ _ hblock hfirst
    subst hch
    simp only [St.processBlockEvent, hdata]
    split
    · rename_i hkey
      refine catching_returnTo block.header.number (h.congr rfl rfl rfl) fun hon hmem _ => .inr ?_
      rw [hname channelName hmem]
      exact hkey
    · rename_i hkey
      have he : (Exec.start C block firstTx).From C L := from_start hblock hfirst
      exact catching_push ((catching_start h he rfl hkey hname).congr rfl rfl rfl)

/-! ## An execution is resumed -/

/-- An execution that inserts its row goes on to the counter. -/
theorem blocks_resume {e : Exec} {db : Db} (h : (e.resume C db).2.execs = []) :
    (e.resume C db).1.blocks = db.blocks := by
  rw [resume_blocks]
  unfold Exec.newBlocks
  split
  · rename_i block hpc
    rw [resume_saveBlock hpc] at h
    cases h
  · exact List.append_nil _

theorem key_of_name {a e : Exec} (hname : a.channelName = e.channelName) (hnum : a.number = e.number) :
    a.key = e.key := by
  show blockProKey a.channelName a.number = blockProKey e.channelName e.number
  rw [hname, hnum]

/-- The keys of the other executions are not that of `e`. -/
theorem not_mem_keys {owner : Owner} {e : Exec}
    (h : Catching C L channelName hash height tracked answered s (.block owner e :: tasks)) :
    e.key ∉ (tasks.filterMap Task.exec?).map Exec.key :=
  (List.nodup_cons.1 h.guarded.nodup_running).1

/-- A row that `e` inserts is not for the block of another execution. -/
theorem blockKeys_resume_other (hch : C.getChannelGenHash channelName = some hash) {owner : Owner} {e a : Exec}
    (h : Catching C L channelName hash height tracked answered s (.block owner e :: tasks))
    (ha : a ∈ tasks.filterMap Task.exec?) (hname : a.channelName = channelName)
    (hmem : (hash, a.number) ∈ blockKeys C.networkName (e.resume C s.db).1) :
    (hash, a.number) ∈ blockKeys C.networkName s.db := by
  obtain ⟨hfrom, hbuilt⟩ := h.execs e List.mem_cons_self
  rcases blockKeys_resume_of hbuilt hmem with hold | ⟨hhash, hsame⟩
  · exact hold
  · have hchannel : e.channelName = channelName := C.distinct _ _ _ (hfrom.hash ▸ hhash) hch
    have hkey : a.key = e.key := key_of_name (hname.trans hchannel.symm) hsame
    exact absurd (List.mem_map.2 ⟨a, ha, hkey⟩) (not_mem_keys h)

theorem catching_await (hch : C.getChannelGenHash channelName = some hash) {owner : Owner} {e e' : Exec}
    (h : Catching C L channelName hash height tracked answered s (.block owner e :: tasks))
    (hres : (e.resume C s.db).2 = .await e') :
    Catching C L channelName hash height tracked answered { s with db := (e.resume C s.db).1 }
      (.block owner e' :: tasks) := by
  obtain ⟨hfrom, hbuilt⟩ := h.execs e List.mem_cons_self
  obtain ⟨hbuilt', hins⟩ := built_resume hbuilt hres
  have heq := await_resume hres
  have hsub : ∀ key ∈ blockKeys C.networkName s.db, key ∈ blockKeys C.networkName (e.resume C s.db).1 :=
    blockKeys_subset_resume e s.db
  have hrows : ∀ n, FromLedger C L channelName hash s.db n →
      FromLedger C L channelName hash (e.resume C s.db).1 n := fun _ => fromLedger_resume hch hfrom hbuilt
  have hnum : e'.number = e.number := by
    rw [heq]
    rfl
  have hname : e'.channelName = e.channelName := by rw [heq]
  have hsynch : (Task.block owner e').synch? = (Task.block owner e).synch? := by cases owner <;> rfl
  have hsynchs : (Task.block owner e' :: tasks).filterMap Task.synch? =
      (Task.block owner e :: tasks).filterMap Task.synch? := by cases owner <;> rfl
  refine ⟨?_, fun a ha => ?_, hsynchs ▸ h.synchs, fun hon t ht hc => ?_, fun hon halive n hn => ?_,
    fun ha n hn hheld => ?_⟩
  · show Guarded s.blocksInProcess (e'.key :: (tasks.filterMap Task.exec?).map Exec.key)
    rw [key_of_name hname hnum]
    exact h.guarded
  · rcases List.mem_cons.1 ha with rfl | ha
    · exact ⟨from_resume hfrom hres, hbuilt'⟩
    · exact (h.execs a (List.mem_cons_of_mem _ ha)).imp_right fun hb => hb.mono hsub
  · rcases List.mem_cons.1 ht with rfl | ht
    · cases owner with
      | listener => trivial
      | synchBlocks c rest =>
        obtain ⟨hids, hchannel, -⟩ := h.honest hon _ List.mem_cons_self hc
        rw [← hnum] at hids
        refine ⟨fun n hn => hrows n (hids n hn), hname.trans hchannel, fun row hpc => ?_⟩
        obtain ⟨hrow, hsame, hvalid⟩ := hins row hpc
        have hledger : FromLedger C L channelName hash s.db e.number := hnum ▸ hids _ List.mem_cons_self
        rw [hnum]
        show _ ∉ blockKeys C.networkName (e.resume C s.db).1
        rw [hsame]
        exact not_mem_of_isValidRow hch hfrom hchannel hrow hledger hvalid
    · refine (h.honest hon t (List.mem_cons_of_mem _ ht) hc).mono hrows fun a ha hchannel hmem => ?_
      exact blockKeys_resume_other hch h (List.mem_filterMap.2 ⟨t, ht, ha⟩) hchannel hmem
  · rw [hsynchs] at halive
    rcases h.covered hon halive n hn with ⟨t, ht, hc, hp⟩ | hrow | hheld
    · rcases List.mem_cons.1 ht with rfl | ht
      · exact .inl ⟨.block owner e', List.mem_cons_self, hsynch.trans hc, by cases owner <;> exact hp⟩
      · exact .inl ⟨t, List.mem_cons_of_mem _ ht, hc, hp⟩
    · exact .inr (.inl (hsub _ hrow))
    · exact .inr (.inr hheld)
  · rcases h.answering ha n hn hheld with ⟨a, hmem, hchannel, hid⟩ | hrow
    · rcases List.mem_cons.1 hmem with rfl | hmem
      · exact .inl ⟨e', List.mem_cons_self, hname.trans hchannel, hnum.trans hid⟩
      · exact .inl ⟨a, List.mem_cons_of_mem _ hmem, hchannel, hid⟩
    · exact .inr (hsub _ hrow)

/-- An execution that returns gives its key back, and its block has a row. -/
theorem catching_done {owner : Owner} {e : Exec}
    (h : Catching C L channelName hash height tracked answered s (.block owner e :: tasks))
    (hrow : e.channelName = channelName → (hash, e.number) ∈ blockKeys C.networkName s.db) :
    Catching C L channelName hash height tracked answered
      { s with blocksInProcess := release s.blocksInProcess e.key } (owner.hand e.number ++ tasks) := by
  have hguard : Guarded s.blocksInProcess (e.key :: (tasks.filterMap Task.exec?).map Exec.key) := h.guarded
  have hheld : ∀ n, blockProKey channelName n ∈ s.blocksInProcess →
      blockProKey channelName n ∈ release s.blocksInProcess e.key ∨ (hash, n) ∈ blockKeys C.networkName s.db := by
    intro n hmem
    by_cases hkey : blockProKey channelName n = e.key
    · obtain ⟨hname, hnum⟩ := blockProKey_inj hkey
      right
      rw [hnum]
      exact hrow hname.symm
    · exact .inl (hguard.mem_release.2 ⟨hkey, hmem⟩)
  refine ⟨?_, fun a ha => ?_, ?_, fun hon t ht hc => ?_, fun hon halive n hn => ?_, fun ha n hn hmem => ?_⟩
  · rw [exec?_hand]
    exact hguard.finish
  · rw [exec?_hand] at ha
    exact h.execs a (List.mem_cons_of_mem _ ha)
  · rw [synch?_hand owner e.number e]
    exact h.synchs
  · rcases List.mem_append.1 ht with ht | ht
    · cases owner with
      | listener => cases ht
      | synchBlocks c rest =>
        rw [List.mem_singleton.1 ht] at hc ⊢
        exact (h.honest hon _ List.mem_cons_self hc).1
    · exact h.honest hon t (List.mem_cons_of_mem _ ht) hc
  · rw [synch?_hand owner e.number e] at halive
    rcases h.covered hon halive n hn with ⟨t, ht, hc, hp⟩ | hset | hmem
    · rcases List.mem_cons.1 ht with rfl | ht
      · cases owner with
        | listener => cases hc
        | synchBlocks c rest => exact .inl ⟨_, List.mem_cons_self, hc, List.mem_cons_of_mem _ hp⟩
      · exact .inl ⟨t, List.mem_append_right _ ht, hc, hp⟩
    · exact .inr (.inl hset)
    · exact .inr (hheld n hmem).symm
  · rw [exec?_hand]
    obtain ⟨hne, hmem⟩ := hguard.mem_release.1 hmem
    rcases h.answering ha n hn hmem with ⟨a, ha', hname, hnum⟩ | hset
    · rcases List.mem_cons.1 ha' with rfl | ha'
      · refine absurd ?_ hne
        rw [← hname, ← hnum]
        rfl
      · exact .inl ⟨a, ha', hname, hnum⟩
    · exact .inr hset

theorem catching_settle (hch : C.getChannelGenHash channelName = some hash) {owner : Owner} {e : Exec}
    (h : Catching C L channelName hash height tracked answered s (.block owner e :: tasks))
    (hans : answered → (e.resume C s.db).2 = .thrown → e.channelName = channelName → e.number < height →
      (hash, e.number) ∈ blockKeys C.networkName s.db) :
    let s' := { s with db := (e.resume C s.db).1, tasks := tasks }.settle C owner e.key (e.resume C s.db).2
    Catching C L channelName hash height tracked answered s' s'.tasks := by
  obtain ⟨hfrom, hbuilt⟩ := h.execs e List.mem_cons_self
  cases hres : (e.resume C s.db).2 with
  | await e' => exact catching_push ((catching_await hch h hres).congr rfl rfl rfl)
  | done notes =>
    have hblocks : (e.resume C s.db).1.blocks = s.db.blocks := blocks_resume (by rw [hres]; rfl)
    have hrow : e.channelName = channelName → (hash, e.number) ∈ blockKeys C.networkName s.db := by
      intro hname
      have hhash : e.channelGenesisHash = some hash := by rw [hfrom.hash, hname, hch]
      have hmem := done_resume hbuilt hhash hres
      rwa [blockKeys_congr hblocks] at hmem
    have hdone := catching_done h hrow
    refine catching_returnTo e.number (hdone.congr hblocks rfl rfl) fun hon hmem _ => .inl ?_
    cases owner with
    | listener => cases hmem
    | synchBlocks c rest =>
      have hc : channelName = c := List.mem_singleton.1 hmem
      obtain ⟨-, hname, -⟩ := h.honest hon _ List.mem_cons_self (congrArg some hc.symm)
      show _ ∈ blockKeys C.networkName (e.resume C s.db).1
      rw [blockKeys_congr hblocks]
      exact hrow hname
  | thrown =>
    have hblocks : (e.resume C s.db).1.blocks = s.db.blocks := blocks_resume (by rw [hres]; rfl)
    refine Catching.congr (h.drop fun ha a heq hname hn => ?_) hblocks rfl rfl
    cases heq
    exact hans ha hres hname hn

/-! ## `synchBlocks` -/

/-- A call that finds its key free. -/
theorem catching_synchBlocks {c : String}
    (h : Catching C L channelName hash height tracked answered s s.tasks) (hkey : synchKey C c ∉ s.synchInProcess) :
    let s' := { s with synchInProcess := s.synchInProcess ++ [synchKey C c] }.push (.synch c .chainInfo)
    Catching C L channelName hash height (tracked ∨ c = channelName) answered s' s'.tasks := by
  obtain ⟨h1, h2, h3, h4, h5, h6⟩ := h
  have hstart : Catching C L channelName hash height (tracked ∨ c = channelName) answered
      { s with synchInProcess := s.synchInProcess ++ [synchKey C c] } (.synch c .chainInfo :: s.tasks) := by
    refine ⟨h1, h2, h3.start hkey, fun hon t ht hc => ?_, fun hon halive n hn => ?_, h6⟩
    · rcases List.mem_cons.1 ht with rfl | ht
      · trivial
      · rcases hon with hon | rfl
        · exact h4 hon t ht hc
        · refine absurd (h3.sub _ ?_) hkey
          exact List.mem_map_of_mem (List.mem_filterMap.2 ⟨t, ht, hc⟩)
    · by_cases hname : c = channelName
      · exact .inl ⟨.synch c .chainInfo, List.mem_cons_self, congrArg some hname, trivial⟩
      · have halive' : channelName ∈ s.tasks.filterMap Task.synch? ∨ synchKey C channelName ∉ s.synchInProcess := by
          refine halive.imp (fun hmem => ?_) fun hmem hheld => hmem (List.mem_append_left _ hheld)
          exact (List.mem_cons.1 hmem).resolve_left fun heq => hname heq.symm
        refine (h5 (hon.resolve_right hname) halive' n hn).imp_left ?_
        rintro ⟨t, ht, hc, hp⟩
        exact ⟨t, List.mem_cons_of_mem _ ht, hc, hp⟩
  exact catching_push hstart

/-- The numbers that `findMissingBlockNumber` leaves out have a row. -/
theorem catching_missing (hch : C.getChannelGenHash channelName = some hash) {c : String} {blockHeight : Int}
    (h : Catching C L channelName hash height tracked answered s (.synch c (.missing blockHeight) :: s.tasks)) :
    let results := findMissingBlockNumber C.networkName ((C.getChannelGenHash c).getD "undefined") blockHeight s.db
    Catching C L channelName hash height tracked answered (s.nextMissing C c results)
      (s.nextMissing C c results).tasks := by
  refine catching_nextMissing h rfl rfl (fun _ hname n hn => ?_) fun hon hname n hn _ => ?_
  · subst hname
    rw [hch, Option.getD_some, mem_findMissingBlockNumber] at hn
    intro r hr hnet hhash hnum
    exact absurd (mem_blockKeys.2 ⟨r, hr, hnet, hhash, hnum⟩) hn.2
  · have hheight : blockHeight = (height : Int) - 1 := h.honest hon _ List.mem_cons_self (congrArg some hname)
    subst hname
    rw [hch, Option.getD_some, mem_findMissingBlockNumber]
    by_cases hrow : (hash, n) ∈ blockKeys C.networkName s.db
    · exact .inr (.inl hrow)
    · exact .inl ⟨by omega, hrow⟩

theorem low_of_lt {n : Nat} (h : n < 2 ^ 31) : low n = n := by
  unfold low
  rw [Int.bmod_eq_of_le] <;> omega

end

/-! ## The runs in question -/

section
variable (C) (channelName hash : String) (height : Nat)

/-- No `processBlockEvent` meets a failure. -/
def Calm (s : St) : Ev → Prop
  | .crash => False
  | .fail i _ => s.tasks[i]?.bind Task.exec? = none
  | _ => True

def NoneThrows (s : St) : Ev → Prop
  | .run i => ∀ e ∈ s.tasks[i]?.bind Task.exec?, (e.resume C s.db).2 ≠ .thrown
  | _ => True

/-- No `processBlockEvent` fails, for whatever reason. -/
def Unfailed (s : St) (ev : Ev) : Prop := Calm s ev ∧ NoneThrows C s ev

/-- The run of `synchBlocks` gets its answers. -/
def Answers (s : St) : Ev → Prop
  | .chainInfo i answer => s.tasks[i]?.bind Task.synch? = some channelName → answer = some height
  | .queryBlock i found => s.tasks[i]?.bind Task.synch? = some channelName → found = true
  | .fail i _ => s.tasks[i]?.bind Task.synch? ≠ some channelName
  | _ => True

/-- The run of `synchBlocks` has not returned, and neither it nor a
`processBlockEvent` meets a failure of the ledger or the database. -/
def Undisturbed (s : St) (ev : Ev) : Prop :=
  synchKey C channelName ∈ s.synchInProcess ∧ Calm s ev ∧ Answers channelName height s ev

/-- Block `n` has no row, and what held its key is over. -/
structure Lost (s : St) (n : Nat) : Prop where
  held : blockProKey channelName n ∈ s.blocksInProcess
  idle : ¬ Running channelName s n
  row : (hash, n) ∉ blockKeys C.networkName s.db

/-- A `processBlockEvent` of a block below the height that has no row can read
the envelope it comes to. -/
def Reads (s : St) : Ev → Prop
  | .run i => ∀ e ∈ s.tasks[i]?.bind Task.exec?, e.channelName = channelName → e.number < height →
      (hash, e.number) ∉ blockKeys C.networkName s.db → ∀ txObj ∈ e.reads C s.db, txObj.Readable e.block
  | _ => True

instance decidableCalm (s : St) : (ev : Ev) → Decidable (Calm s ev)
  | .crash => inferInstanceAs (Decidable False)
  | .fail i _ => inferInstanceAs (Decidable (s.tasks[i]?.bind Task.exec? = none))
  | .blockEvent _ _ | .synchBlocks _ | .chainInfo _ _ | .queryBlock _ _ | .run _ | .discovered _ =>
    inferInstanceAs (Decidable True)

instance decidableNoneThrows (s : St) : (ev : Ev) → Decidable (NoneThrows C s ev)
  | .run i => inferInstanceAs (Decidable (∀ e ∈ s.tasks[i]?.bind Task.exec?, (e.resume C s.db).2 ≠ .thrown))
  | .blockEvent _ _ | .synchBlocks _ | .chainInfo _ _ | .queryBlock _ _ | .fail _ _ | .discovered _ | .crash =>
    inferInstanceAs (Decidable True)

instance decidableUnfailed (s : St) (ev : Ev) : Decidable (Unfailed C s ev) :=
  inferInstanceAs (Decidable (_ ∧ _))

instance decidableAnswers (s : St) : (ev : Ev) → Decidable (Answers channelName height s ev)
  | .chainInfo _ _ | .queryBlock _ _ => inferInstanceAs (Decidable (_ = _ → _ = _))
  | .fail _ _ => inferInstanceAs (Decidable (_ ≠ _))
  | .blockEvent _ _ | .synchBlocks _ | .run _ | .discovered _ | .crash => inferInstanceAs (Decidable True)

instance decidableUndisturbed (s : St) (ev : Ev) : Decidable (Undisturbed C channelName height s ev) :=
  inferInstanceAs (Decidable (_ ∧ _ ∧ _))

instance decidableReads (s : St) : (ev : Ev) → Decidable (Reads C channelName hash height s ev)
  | .run i => inferInstanceAs (Decidable (∀ e ∈ s.tasks[i]?.bind Task.exec?, e.channelName = channelName →
      e.number < height → (hash, e.number) ∉ blockKeys C.networkName s.db →
        ∀ txObj ∈ e.reads C s.db, txObj.Readable e.block))
  | .blockEvent _ _ | .synchBlocks _ | .chainInfo _ _ | .queryBlock _ _ | .fail _ _ | .discovered _ | .crash =>
    inferInstanceAs (Decidable True)

end

section
variable {channelName hash : String} {height : Nat} {tracked answered : Prop}

theorem catching_init (db : Db) : Catching C L channelName hash height False True (init db) (init db).tasks where
  guarded := Guarded.nil
  execs _ he := absurd he List.not_mem_nil
  synchs := Guarded.nil
  honest hf := hf.elim
  covered hf := hf.elim
  answering _ _ _ hheld := absurd hheld List.not_mem_nil

theorem reads_of_unfailed {s : St} {ev : Ev} (h : Unfailed C s ev) : Reads C channelName hash height s ev := by
  cases ev with
  | run i =>
    intro e he _ _ _
    by_contra hnot
    exact h.2 e he (resume_thrown_iff.2 hnot)
  | _ => trivial

/-- **What a step keeps.** -/
theorem catching_answers (hch : C.getChannelGenHash channelName = some hash) (hheight : height < 2 ^ 31) {s s' : St}
    {ev : Ev} (h : Catching C L channelName hash height tracked answered s s.tasks) (hcalm : Calm s ev)
    (hon : tracked → Answers channelName height s ev)
    (hans : answered → Reads C channelName hash height s ev) (hs : step C L s ev = some s') :
    Catching C L channelName hash height tracked answered s' s'.tasks := by
  have htake : ∀ {i t}, s.tasks[i]? = some t → Catching C L channelName hash height tracked answered
      { s with tasks := s.tasks.eraseIdx i } (t :: s.tasks.eraseIdx i) :=
    fun hi => (h.perm (eraseIdx_perm hi)).congr rfl rfl rfl
  cases step_next hs with
  | genesis | refused => exact h
  | delivered hblock => exact catching_processBlockEvent .listener h hblock nofun
  | called hkey => exact (catching_synchBlocks h hkey).imp Or.inl id
  | noHeight hi => exact (htake hi).drop fun _ e he => by cases he
  | @height i n c hi =>
    refine catching_push ((htake hi).swap rfl rfl rfl (fun htracked hc => ?_) fun _ _ _ _ _ => .inl trivial)
    have hsome : some n = some height := hon htracked (by rwa [hi])
    show low n - 1 = (height : Int) - 1
    rw [Option.some.inj hsome, low_of_lt hheight]
  | @noBlock i id c rest hi =>
    have hother : tracked → c ≠ channelName := fun htracked hname => by
      have htrue : false = true := hon htracked (by rw [hi, ← hname]; rfl)
      cases htrue
    exact catching_nextMissing (htake hi) rfl rfl (fun htracked hname => absurd hname (hother htracked))
      fun htracked hname => absurd hname (hother htracked)
  | @found i id c rest block hi hblock =>
    exact catching_processBlockEvent (.synchBlocks c rest) (htake hi) hblock fun c' hc' => List.mem_singleton.1 hc'
  | @resumed i owner e hi =>
    refine catching_settle hch (h.perm (eraseIdx_perm hi)) fun ha hthrown hname hn => ?_
    by_contra hrow
    exact resume_thrown_iff.1 hthrown (hans ha e (by rw [hi]; rfl) hname hn hrow)
  | missing hi => exact catching_missing hch (htake hi)
  | @rejected i took owner e hi =>
    have hnone : some e = none := by rwa [Calm, hi] at hcalm
    cases hnone
  | noMissing hi => exact (htake hi).drop fun _ e he => by cases he
  | discovered row => exact h.congr rfl rfl rfl
  | crash => exact hcalm.elim

theorem catching_step (hch : C.getChannelGenHash channelName = some hash) (hheight : height < 2 ^ 31) {s s' : St}
    {ev : Ev} (h : Catching C L channelName hash height tracked answered s s.tasks) (hcalm : Calm s ev)
    (hon : tracked → Undisturbed C channelName height s ev)
    (hans : answered → Reads C channelName hash height s ev) (hs : step C L s ev = some s') :
    Catching C L channelName hash height tracked answered s' s'.tasks :=
  catching_answers hch hheight h hcalm (fun ht => (hon ht).2.2) hans hs

/-! ## Lost blocks -/

theorem lost_congr {s s' : St} {n : Nat} (h : Lost C channelName hash s n) (hq : Quiet s s') :
    Lost C channelName hash s' n where
  held := hq.held ▸ h.held
  idle hrun := h.idle ((running_perm hq.execs).1 hrun)
  row := by
    rw [blockKeys_congr hq.blocks]
    exact h.row

/-- No call and no execution repairs it. -/
theorem lost_move (hch : C.getChannelGenHash channelName = some hash) {s s' : St}
    (h : Catching C L channelName hash height tracked answered s s.tasks) (hm : Move C L s s') {n : Nat}
    (hlost : Lost C channelName hash s n) : Lost C channelName hash s' n := by
  cases hm with
  | quiet hq => exact lost_congr hlost hq
  | held c block firstTx hblock hfirst hkey hq =>
    have hlost' : Lost C channelName hash
        { s with delivered := s.delivered ++ [(c, block.header.number)] } n := ⟨hlost.held, hlost.idle, hlost.row⟩
    exact lost_congr hlost' hq
  | started c block firstTx hblock hfirst hkey hdb hheld hexecs hsent hdelivered =>
    refine ⟨?_, ?_, hdb ▸ hlost.row⟩
    · rw [hheld]
      exact List.mem_append_left _ hlost.held
    · rintro ⟨a, ha, hname, hnum⟩
      rcases List.mem_cons.1 (hexecs.mem_iff.1 ha) with rfl | ha
      · refine hkey ?_
        have hsame : (Exec.start C block firstTx).key = blockProKey channelName n := by
          rw [← hname, ← hnum]
          rfl
        rw [hsame]
        exact hlost.held
      · exact hlost.idle ⟨a, ha, hname, hnum⟩
  | resumed e rest hp hdb hr hdelivered =>
    obtain ⟨hfrom, hbuilt⟩ := h.execs e (hp.mem_iff.2 List.mem_cons_self)
    have hother : ¬ (e.channelName = channelName ∧ e.number = n) := fun ⟨hname, hnum⟩ =>
      hlost.idle ⟨e, hp.mem_iff.2 List.mem_cons_self, hname, hnum⟩
    refine ⟨?_, fun hrun => hlost.idle ?_, fun hrow => ?_⟩
    · cases hres : (e.resume C s.db).2 with
      | await e' | thrown =>
        rw [hres] at hr
        rw [hr.1]
        exact hlost.held
      | done notes =>
        rw [hres] at hr
        have hg : Guarded s.blocksInProcess (e.key :: rest.map Exec.key) := h.guarded.perm (hp.map Exec.key)
        rw [hr.1, hg.mem_release]
        refine ⟨fun hkey => hother ?_, hlost.held⟩
        obtain ⟨hname, hnum⟩ := blockProKey_inj hkey
        exact ⟨hname.symm, hnum.symm⟩
    · exact (running_resumed channelName hp hr n).1 hrun
    · rw [hdb] at hrow
      rcases blockKeys_resume_of hbuilt hrow with hold | ⟨hhash, hnum⟩
      · exact hlost.row hold
      · exact hother ⟨C.distinct _ _ _ (hfrom.hash ▸ hhash) hch, hnum.symm⟩

theorem lost_step (hch : C.getChannelGenHash channelName = some hash) {s s' : St} {ev : Ev}
    (h : Catching C L channelName hash height tracked answered s s.tasks) (hcalm : Calm s ev)
    (hs : step C L s ev = some s') {n : Nat} (hlost : Lost C channelName hash s n) :
    Lost C channelName hash s' n := by
  rcases step_cases hs with ⟨-, hm⟩ | ⟨hfails, -⟩
  · exact lost_move hch h hm hlost
  · cases step_next hs with
    | @rejected i took owner e hi =>
      have hnone : some e = none := by rwa [Calm, hi] at hcalm
      cases hnone
    | noMissing hi => exact lost_congr hlost (quiet_eraseIdx hi)
    | crash => exact hcalm.elim
    | _ => cases hfails

/-- An execution that throws loses its block. -/
theorem lost_of_not_reads {s s' : St} {ev : Ev}
    (h : Catching C L channelName hash height tracked answered s s.tasks) (hs : step C L s ev = some s')
    (hnot : ¬ Reads C channelName hash height s ev) : ∃ n < height, Lost C channelName hash s' n := by
  cases ev with
  | run i =>
    rw [Reads] at hnot
    push Not at hnot
    obtain ⟨e, he, hname, hn, hrow, txObj, htx, hunread⟩ := hnot
    have hthrown : (e.resume C s.db).2 = .thrown :=
      resume_thrown_iff.2 fun hall => hunread (hall txObj htx)
    obtain ⟨t, hi, ht⟩ := Option.bind_eq_some_iff.1 he
    cases t with
    | synch c pc => cases ht
    | block owner a =>
      obtain rfl : a = e := Option.some.inj ht
      have h' := h.perm (eraseIdx_perm hi)
      simp only [step, hi, hthrown, St.settle, Option.some.injEq] at hs
      subst hs
      refine ⟨a.number, hn, ?_, ?_, ?_⟩
      · rw [← hname]
        exact h'.guarded.sub a.key List.mem_cons_self
      · rintro ⟨b, hb, hbname, hnum⟩
        exact not_mem_keys h' (List.mem_map.2 ⟨b, hb, key_of_name (hbname.trans hname.symm) hnum⟩)
      · show _ ∉ blockKeys C.networkName (a.resume C s.db).1
        rwa [blockKeys_congr (blocks_resume (by rw [hthrown]; rfl))]
  | _ => exact absurd trivial hnot

/-- **A step loses no block, if and only if the envelope it comes to is
readable.** -/
theorem lost_step_iff (hch : C.getChannelGenHash channelName = some hash) (hheight : height < 2 ^ 31) {s s' : St}
    {ev : Ev} (h : Catching C L channelName hash height True False s s.tasks)
    (hon : Undisturbed C channelName height s ev) (hs : step C L s ev = some s') :
    (∀ n < height, ¬ Lost C channelName hash s' n) ↔
      (∀ n < height, ¬ Lost C channelName hash s n) ∧ Reads C channelName hash height s ev := by
  constructor
  · intro hnone
    refine ⟨fun n hn hlost => hnone n hn (lost_step hch h hon.2.1 hs hlost), ?_⟩
    by_contra hnot
    obtain ⟨n, hn, hlost⟩ := lost_of_not_reads h hs hnot
    exact hnone n hn hlost
  · rintro ⟨hnone, hreads⟩ n hn hlost
    have hall : Catching C L channelName hash height True True s s.tasks := by
      refine ⟨h.guarded, h.execs, h.synchs, h.honest, h.covered, fun _ n hn hheld => ?_⟩
      by_contra hnot
      rw [not_or] at hnot
      exact hnone n hn ⟨hheld, hnot.1, hnot.2⟩
    have hnext := catching_step hch hheight hall hon.2.1 (fun _ => hon) (fun _ => hreads) hs
    exact (hnext.answering trivial n hn hlost.held).elim hlost.idle hlost.row

/-! ## The outcome -/

variable (C L channelName hash height) in
/-- Every number below the height has a row, or an execution of
`processBlockEvent` for it is running. -/
def CaughtUp (s : St) : Prop :=
  ∀ n < height, (hash, n) ∈ blockKeys C.networkName s.db ∨ Running channelName s n

variable (C L channelName) in
/-- What the run inserts next is for a number without a row. -/
def InsertsNew (s : St) : Prop :=
  ∀ i rest e s', s.tasks[i]? = some (.block (.synchBlocks channelName rest) e) → step C L s (.run i) = some s' →
    ∀ r ∈ s'.db.blocks.drop s.db.blocks.length,
      (r.channelGenesisHash, r.blocknum) ∉ blockKeys C.networkName s.db

theorem insertsNew (hch : C.getChannelGenHash channelName = some hash) {s : St} (htracked : tracked)
    (h : Catching C L channelName hash height tracked answered s s.tasks) : InsertsNew C L channelName s := by
  intro i rest e s' hi hs r hr
  have h' := h.perm (eraseIdx_perm hi)
  obtain ⟨hfrom, hbuilt⟩ := h'.execs e List.mem_cons_self
  obtain ⟨-, hname, hnew⟩ := h'.honest htracked _ List.mem_cons_self rfl
  have hdb : s'.db = (e.resume C s.db).1 := by
    simp only [step, hi, Option.some.injEq] at hs
    rw [← hs, db_settle]
  rw [hdb, resume_blocks, List.drop_left] at hr
  obtain ⟨hhash, hrow⟩ := hbuilt.row hr
  rw [hfrom.hash, hname, hch] at hhash
  have hnum : r.blocknum = e.number := by
    rw [hrow]
    rfl
  unfold Exec.newBlocks at hr
  split at hr
  · rename_i block hpc
    rw [hnum, ← Option.some.inj hhash]
    exact hnew block hpc
  · cases hr

/-- When the run has returned nothing is left to do. -/
theorem caughtUp_iff {s : St} (htracked : tracked)
    (h : Catching C L channelName hash height tracked answered s s.tasks)
    (hreturn : synchKey C channelName ∉ s.synchInProcess) :
    CaughtUp C channelName hash height s ↔ ∀ n < height, ¬ Lost C channelName hash s n := by
  constructor
  · intro hup n hn hlost
    exact (hup n hn).elim hlost.row hlost.idle
  · intro hnone n hn
    rcases h.covered htracked (.inr hreturn) n hn with ⟨t, ht, hc, -⟩ | hrow | hheld
    · refine absurd (h.synchs.sub _ ?_) hreturn
      exact List.mem_map_of_mem (List.mem_filterMap.2 ⟨t, ht, hc⟩)
    · exact .inl hrow
    · by_contra hnot
      rw [not_or] at hnot
      exact hnone n hn ⟨hheld, hnot.2, hnot.1⟩

/-- **A catch-up run closes every gap unless an execution throws.** A process
starts with any tables; no `processBlockEvent` has failed when `synchBlocks`
is called for a channel, and no statement or reply is lost until it returns.
Then every number below the height has a row, or an execution for it is
running, if and only if every `processBlockEvent` could read the envelopes of
a block that had no row yet. Whatever the run inserts is for a number without
a row. -/
theorem catch_up_iff (channelName hash : String) (hch : C.getChannelGenHash channelName = some hash)
    (height : Nat) (hheight : height < 2 ^ 31) (db : Db) (before evs : List Ev) (s₀ s₁ s : St)
    (hbefore : ((lts C L fun _ => True).restrict (Unfailed C)).Run (init db) before s₀)
    (hidle : synchKey C channelName ∉ s₀.synchInProcess)
    (hstart : step C L s₀ (.synchBlocks channelName) = some s₁)
    (hr : ((lts C L fun _ => True).restrict (Undisturbed C channelName height)).Run s₁ evs s)
    (hreturn : synchKey C channelName ∉ s.synchInProcess) :
    (CaughtUp C channelName hash height s ↔
      (((lts C L fun _ => True).restrict (Undisturbed C channelName height)).restrict
        (Reads C channelName hash height)).Run s₁ evs s) ∧
    ∀ pre post m, evs = pre ++ post →
      ((lts C L fun _ => True).restrict (Undisturbed C channelName height)).Run s₁ pre m →
      InsertsNew C L channelName m := by
  have hclean : ∀ s ev s', Catching C L channelName hash height False True s s.tasks →
      ((lts C L fun _ => True).restrict (Unfailed C)).step s ev s' →
      Catching C L channelName hash height False True s' s'.tasks := fun s ev s' h hs =>
    catching_step hch hheight h hs.1.1 False.elim (fun _ => reads_of_unfailed hs.1) hs.2
  have h₀ : Catching C L channelName hash height False True s₀ s₀.tasks := hbefore.keeps hclean (catching_init db)
  have h₁ : Catching C L channelName hash height True True s₁ s₁.tasks := by
    simp only [step, if_neg hidle, Option.some.injEq] at hstart
    subst hstart
    exact (catching_synchBlocks h₀ hidle).imp (fun _ => .inr rfl) id
  have hkeep : ∀ s ev s', Catching C L channelName hash height True False s s.tasks → True →
      ((lts C L fun _ => True).restrict (Undisturbed C channelName height)).step s ev s' →
      Catching C L channelName hash height True False s' s'.tasks := fun s ev s' h _ hs =>
    catching_step hch hheight h hs.1.2.1 (fun _ => hs.1) False.elim hs.2
  have hstep : ∀ s ev s', Catching C L channelName hash height True False s s.tasks → True →
      ((lts C L fun _ => True).restrict (Undisturbed C channelName height)).step s ev s' →
      ((∀ n < height, ¬ Lost C channelName hash s' n) ↔
        (∀ n < height, ¬ Lost C channelName hash s n) ∧ Reads C channelName hash height s ev) :=
    fun s ev s' h _ hs => lost_step_iff hch hheight h hs.1 hs.2
  have hweak : Catching C L channelName hash height True False s₁ s₁.tasks := h₁.imp id False.elim
  have hend : Catching C L channelName hash height True False s s.tasks :=
    hr.keeps (fun s ev s' h hs => hkeep s ev s' h trivial hs) hweak
  refine ⟨?_, fun pre post m _ hpre => ?_⟩
  · rw [caughtUp_iff trivial hend hreturn, hr.kept_iff hkeep hstep (fun _ _ => trivial) hweak]
    exact and_iff_right fun n hn hlost => (h₁.answering trivial n hn hlost.held).elim hlost.idle hlost.row
  · exact insertsNew hch trivial (hpre.keeps (fun s ev s' h hs => hkeep s ev s' h trivial hs) hweak)

/-- The row of block 0 is stored. -/
def blockZeroStored : Db where
  blocks :=
    [{ blockRow mychannel "genesis" ⟨⟨0, "", "d0"⟩, [transfer "t0"], [[0]]⟩ (transfer "t0") with
      networkName := some "first-network" }]
  transactions := []
  channel := [⟨"mychannel", 1, 1, "genesis", "first-network"⟩]
  chaincodes := []

/-- The listener is processing block 1 when catch-up counts it as missing, and
has stored it before catch-up comes to it. -/
def listenerFirst : List Ev :=
  [.chainInfo 1 (some 2), .run 1, .run 0] ++ List.replicate 11 (.run 1) ++
    .queryBlock 0 true :: List.replicate 5 (.run 0)

theorem catch_up_iff_listenerFirst :
    ∃ s₀ s₁ s, LTS.exec (step mychannel ledgerOne) (init blockZeroStored) [.blockEvent "mychannel" 1, .run 0] =
        some s₀ ∧
      step mychannel ledgerOne s₀ (.synchBlocks "mychannel") = some s₁ ∧
      LTS.exec (step mychannel ledgerOne) s₁ listenerFirst = some s ∧ s.db.blocks.length = 2 ∧
      CaughtUp mychannel "mychannel" "genesis" 2 s := by
  have hrun : ((LTS.exec (LTS.guarded (Unfailed mychannel) (step mychannel ledgerOne)) (init blockZeroStored)
      [.blockEvent "mychannel" 1, .run 0]).bind fun s₀ =>
        (step mychannel ledgerOne s₀ (.synchBlocks "mychannel")).bind fun s₁ =>
          (LTS.exec (LTS.guarded (fun s ev => Undisturbed mychannel "mychannel" 2 s ev ∧
              Reads mychannel "mychannel" "genesis" 2 s ev) (step mychannel ledgerOne)) s₁ listenerFirst).map
            fun s => (s₀.synchInProcess, s.synchInProcess, s.db.blocks.length)) = some ([], [], 2) := by
    decide +kernel
  obtain ⟨s₀, hbefore, hrun⟩ := Option.bind_eq_some_iff.1 hrun
  obtain ⟨s₁, hstart, hrun⟩ := Option.bind_eq_some_iff.1 hrun
  obtain ⟨s, hs, hfinal⟩ := Option.map_eq_some_iff.1 hrun
  simp only [Prod.mk.injEq] at hfinal
  obtain ⟨hidle, hreturn, hlength⟩ := hfinal
  have hboth : ((lts mychannel ledgerOne fun _ => True).restrict fun s ev =>
      Undisturbed mychannel "mychannel" 2 s ev ∧ Reads mychannel "mychannel" "genesis" 2 s ev).Run
        s₁ listenerFirst s := LTS.restrict_run_of_exec hs
  have hreads : (((lts mychannel ledgerOne fun _ => True).restrict (Undisturbed mychannel "mychannel" 2)).restrict
      (Reads mychannel "mychannel" "genesis" 2)).Run s₁ listenerFirst s := by
    refine LTS.Run.mono ?_ hboth
    rintro s ev s' ⟨⟨hundisturbed, hread⟩, hstep⟩
    exact ⟨hread, hundisturbed, hstep⟩
  refine ⟨s₀, s₁, s, LTS.exec_of_guarded hbefore, hstart, LTS.exec_of_guarded hs, hlength, ?_⟩
  exact (catch_up_iff "mychannel" "genesis" rfl 2 (by omega) blockZeroStored _ listenerFirst s₀ s₁ s
    (LTS.restrict_run_of_exec hbefore) (by simp [hidle]) hstart hreads.of_restrict (by simp [hreturn])).1.2 hreads

/-- Catch-up counts block 1 as missing after the listener's execution of it
has thrown, and finds its key held. -/
def listenerThrows : List Ev :=
  [.blockEvent "mychannel" 1, .run 1, .run 1, .chainInfo 0 (some 2), .run 0, .queryBlock 0 true]

/-- The run returns, nothing is running any more, and block 1 has no row. -/
theorem catch_up_iff_listenerThrows :
    ∃ s₁ s, step mychannel ledgerNoAction (init blockZeroStored) (.synchBlocks "mychannel") = some s₁ ∧
      ((lts mychannel ledgerNoAction fun _ => True).restrict (Undisturbed mychannel "mychannel" 2)).Run
        s₁ listenerThrows s ∧
      synchKey mychannel "mychannel" ∉ s.synchInProcess ∧ s.tasks = [] ∧
      blockRows "first-network" s.db "genesis" 1 = [] ∧ ¬ CaughtUp mychannel "mychannel" "genesis" 2 s := by
  have hrun : ((step mychannel ledgerNoAction (init blockZeroStored) (.synchBlocks "mychannel")).bind fun s₁ =>
      (LTS.exec (LTS.guarded (Undisturbed mychannel "mychannel" 2) (step mychannel ledgerNoAction)) s₁
        listenerThrows).map fun s => (s.synchInProcess, s.tasks, blockRows "first-network" s.db "genesis" 1)) =
          some ([], [], []) := by
    decide +kernel
  obtain ⟨s₁, hstart, hrun⟩ := Option.bind_eq_some_iff.1 hrun
  obtain ⟨s, hs, hfinal⟩ := Option.map_eq_some_iff.1 hrun
  simp only [Prod.mk.injEq] at hfinal
  obtain ⟨hreturn, htasks, hrows⟩ := hfinal
  refine ⟨s₁, s, hstart, LTS.restrict_run_of_exec hs, by simp [hreturn], htasks, hrows, fun hup => ?_⟩
  rcases hup 1 (by omega) with hrow | ⟨e, he, -⟩
  · have hcount : List.count ("genesis", 1) (blockKeys "first-network" s.db) = 0 := by
      rw [← length_blockRows, hrows, List.length_nil]
    exact List.count_eq_zero.1 hcount hrow
  · rw [St.execs, htasks] at he
    cases he

end

end Explorer.Fabric.SyncService
