import Explorer.Iroha.Entities

/-!
# `applyBlock` refines the entity machine

`applyBlock` reads five indexes from `COUNT` when it starts and counts on by
itself, and looks domains up through a cache that lives as long as the
transaction. `Coherent` says what makes both harmless: every index is the
number of rows, and every cached domain is the row the table has now. Then
one turn of the command loop is one step of `project`, whatever block or
transaction the command stands in.

* `applyCommand_refines`: one command.
* `applyBlocks_refines`: any number of blocks.
* `applyBlock_log`: what an applied block adds to the tables `block` and
  `transaction`.
* `applyBlocks_projects`: the entity tables of an applied chain.
-/
namespace Explorer.Iroha

variable {Bytes : Type}

def entities (db : Db Bytes) : Entities :=
  ⟨db.account.rows, db.peer.rows, db.role.rows, db.domain.rows⟩

/-- The commands of a transaction, of a block and of a chain, in order. -/
def transactionCommands (transaction : Transaction) : List Issued :=
  transaction.payload.commands.map fun command => ⟨creatorIdOf transaction, command⟩

def blockCommands (block : Block) : List Issued := block.transactions.flatMap transactionCommands

def chainCommands (blocks : List Block) : List Issued := blocks.flatMap blockCommands

/-! ## Coherence -/

/-- The indexes are the row counts, and a cached domain is the one the table
has. A domain that was not found is never kept: its command fails. -/
structure Coherent (s : Locals Bytes) : Prop where
  transactionIndex : s.transactionIndex = s.db.transaction.rows.length
  accountIndex : s.accountIndex = s.db.account.rows.length
  peerIndex : s.peerIndex = s.db.peer.rows.length
  roleIndex : s.roleIndex = s.db.role.rows.length
  domainIndex : s.domainIndex = s.db.domain.rows.length
  cached : ∀ id domain, s.domainLoader id = some domain → domain ≠ none ∧ domain = domainById s.db id

theorem coherent_locals (db : Db Bytes) : Coherent (locals db) :=
  ⟨rfl, rfl, rfl, rfl, rfl, fun _ _ h => nomatch h⟩

theorem insert_eq_ok {Row : Type} [UniqueColumns Row] {t t' : Table Row} {row : Row} :
    insert t row = .ok t' ↔ (∀ r ∈ t.rows, clash r row = false) ∧ t'.rows = t.rows ++ [row] := by
  rw [← Table.insert_eq_some, insert]
  cases t.insert row <;> simp

@[simp] theorem rows_updateAccount (db : Db Bytes) (p : AccountRow → Bool)
    (quorum : AccountRow → Nat) (roles permissionsGranted : AccountRow → List String) :
    (db.updateAccount p quorum roles permissionsGranted).account.rows =
      db.account.rows.map fun a =>
        if p a then ⟨a.index, a.id, quorum a, roles a, permissionsGranted a⟩ else a := rfl

/-- `prime` writes the cache only. -/
theorem prime_eq (s : Locals Bytes) (id : String) (domain : Option Domain) :
    s.prime id domain = { s with domainLoader := (s.prime id domain).domainLoader } := by
  unfold Locals.prime
  split <;> rfl

theorem prime_domainLoader {s : Locals Bytes} {id k : String} {domain d : Option Domain}
    (h : (s.prime id domain).domainLoader k = some d) :
    s.domainLoader k = some d ∨ k = id ∧ d = domain := by
  unfold Locals.prime at h
  split at h
  · exact .inl h
  · simp only at h
    split at h
    · exact .inr ⟨‹_›, (Option.some.inj h).symm⟩
    · exact .inl h

/-- A domain that is found is the row of the table, cached or not. -/
theorem load_some {s s' : Locals Bytes} {id : String} {domain : Domain} (h : Coherent s)
    (hl : s.load id = (some domain, s')) :
    domainById s.db id = some domain ∧
      s' = { s with domainLoader := s'.domainLoader } ∧ Coherent s' := by
  unfold Locals.load at hl
  split at hl
  · rename_i d hd
    simp only [Prod.mk.injEq] at hl
    obtain ⟨rfl, rfl⟩ := hl
    exact ⟨(h.cached id _ hd).2.symm, rfl, h⟩
  · simp only [Prod.mk.injEq] at hl
    obtain ⟨hd, rfl⟩ := hl
    refine ⟨hd, prime_eq s id _, ?_⟩
    obtain ⟨h1, h2, h3, h4, h5, h6⟩ := h
    rw [prime_eq]
    refine ⟨h1, h2, h3, h4, h5, fun k d hk => ?_⟩
    rcases prime_domainLoader hk with hk | ⟨rfl, rfl⟩
    · exact h6 k d hk
    · exact ⟨by rw [hd]; exact Option.some_ne_none _, rfl⟩

/-- A domain stays where it is found when a row is added behind it. -/
theorem domainById_append {db db' : Db Bytes} {row : DomainRow} {id : String}
    (h : db'.domain.rows = db.domain.rows ++ [row]) (hd : domainById db id ≠ none) :
    domainById db' id = domainById db id := by
  unfold domainById at hd ⊢
  rw [h, List.find?_append]
  cases hf : db.domain.rows.find? (fun row => row.id = id) with
  | none => rw [hf] at hd; exact absurd rfl hd
  | some r => simp

theorem domainById_new {db db' : Db Bytes} {row : DomainRow}
    (hnew : ∀ r ∈ db.domain.rows, clash r row = false)
    (h : db'.domain.rows = db.domain.rows ++ [row]) :
    domainById db' row.id = some ⟨row.id, row.defaultRole⟩ := by
  unfold domainById
  have hnone : db.domain.rows.find? (fun r => r.id = row.id) = none := by
    rw [List.find?_eq_none]
    intro r hr hid
    have hc := hnew r hr
    simp only [clash, decide_eq_false_iff_not, not_or] at hc
    exact hc.2 (of_decide_eq_true hid)
  rw [h, List.find?_append, hnone]
  simp

/-! ## One command -/

/-- The commands that are about no account leave every row as it is. -/
theorem map_evolve_of_none {x : Issued} {rows : List AccountRow}
    (h : ∀ id, quorumFor id x = none ∧ roleOp id x = none ∧ permissionOp id x = none) :
    rows.map (evolve x) = rows := by
  have heq : evolve x = id := by
    funext a
    obtain ⟨hq, hr, hp⟩ := h a.id
    simp [evolve, hq, hr, hp, ArrayOp.run]
  rw [heq, List.map_id]

/-- The tables an account update leaves alone, and the length of the other. -/
theorem coherent_updateAccount {s : Locals Bytes} (h : Coherent s) (p : AccountRow → Bool)
    (quorum : AccountRow → Nat) (roles permissionsGranted : AccountRow → List String) :
    Coherent { s with db := s.db.updateAccount p quorum roles permissionsGranted } := by
  obtain ⟨h1, h2, h3, h4, h5, h6⟩ := h
  exact ⟨h1, by simpa using h2, h3, h4, h5, h6⟩

/-- The commands that are one `UPDATE`, which does to each row what `evolve`
does. -/
theorem project_updateAccount {db : Db Bytes} {x : Issued} {p : AccountRow → Bool}
    {quorum : AccountRow → Nat} {roles permissionsGranted : AccountRow → List String}
    (hnew : createAccount? x = none ∧ addPeer? x = none ∧ createRole? x = none ∧
      createDomain? x = none)
    (hrow : ∀ a, (if p a then ⟨a.index, a.id, quorum a, roles a, permissionsGranted a⟩ else a) =
      evolve x a) :
    project (entities db) x =
      some (entities (db.updateAccount p quorum roles permissionsGranted)) := by
  obtain ⟨ha, hp, hr, hd⟩ := hnew
  have hmap : (db.updateAccount p quorum roles permissionsGranted).account.rows =
      db.account.rows.map (evolve x) := by
    rw [rows_updateAccount]
    exact List.map_congr_left fun a _ => hrow a
  simp only [project, ha, hp, hr, hd, appendNumbered, entities, hmap]
  rfl

/-- What a statement leaves alone. -/
def SameLog (db db' : Db Bytes) : Prop := db'.block = db.block ∧ db'.transaction = db.transaction

/-- **One command.** -/
theorem applyCommand_refines {creatorId : Option String} {s s' : Locals Bytes} {command : Command}
    (h : Coherent s) (hs : applyCommand creatorId s command = .ok s') :
    project (entities s.db) ⟨creatorId, command⟩ = some (entities s'.db) ∧ Coherent s' ∧
      SameLog s.db s'.db := by
  cases command with
  | createAccount accountName domainId =>
    simp only [applyCommand] at hs
    split at hs
    · cases hs
    · rename_i domain s₁ hload
      obtain ⟨hdom, hs₁, hco⟩ := load_some h hload
      simp only [bind_eq_ok, insert_eq_ok, Except.ok.injEq] at hs
      obtain ⟨account, ⟨-, hrows⟩, rfl⟩ := hs
      have hdb : s₁.db = s.db := by rw [hs₁]
      have hindex : s₁.accountIndex = s.db.account.rows.length := by rw [hco.accountIndex, hdb]
      obtain ⟨row, hfind, rfl⟩ := Option.map_eq_some_iff.1 hdom
      refine ⟨?_, ?_, by rw [hdb], by rw [hdb]⟩
      · simp only [project, createAccount?, entities, hfind, Option.map_some, Option.some.injEq,
          addPeer?, createRole?, createDomain?, appendNumbered, hrows, hdb, hindex, newAccount,
          accountId]
        rw [map_evolve_of_none fun _ => ⟨rfl, rfl, rfl⟩]
      · obtain ⟨h1, h2, h3, h4, h5, h6⟩ := hco
        exact ⟨h1, by simp [hrows, h2], h3, h4, h5, h6⟩
  | addPeer address peerKey =>
    simp only [applyCommand, bind_eq_ok, insert_eq_ok, Except.ok.injEq] at hs
    obtain ⟨peer, ⟨-, hrows⟩, rfl⟩ := hs
    obtain ⟨h1, h2, h3, h4, h5, h6⟩ := h
    refine ⟨?_, ⟨h1, h2, by simp [hrows, h3], h4, h5, h6⟩, rfl, rfl⟩
    simp only [project, createAccount?, addPeer?, createRole?, createDomain?, entities,
      appendNumbered, mkPeer, hrows, h3]
    rw [map_evolve_of_none fun _ => ⟨rfl, rfl, rfl⟩]
  | createRole roleName permissions =>
    simp only [applyCommand, bind_eq_ok, insert_eq_ok, Except.ok.injEq] at hs
    obtain ⟨role, ⟨-, hrows⟩, rfl⟩ := hs
    obtain ⟨h1, h2, h3, h4, h5, h6⟩ := h
    refine ⟨?_, ⟨h1, h2, h3, by simp [hrows, h4], h5, h6⟩, rfl, rfl⟩
    simp only [project, createAccount?, addPeer?, createRole?, createDomain?, entities,
      appendNumbered, mkRole, hrows, h4]
    rw [map_evolve_of_none fun _ => ⟨rfl, rfl, rfl⟩]
  | createDomain domainId defaultRole =>
    simp only [applyCommand, bind_eq_ok, insert_eq_ok, Except.ok.injEq] at hs
    obtain ⟨domain, ⟨hnew, hrows⟩, rfl⟩ := hs
    obtain ⟨h1, h2, h3, h4, h5, h6⟩ := h
    rw [prime_eq]
    refine ⟨?_, ⟨h1, h2, h3, h4, by simp [hrows, h5], fun k d hk => ?_⟩, rfl, rfl⟩
    · simp only [project, createAccount?, addPeer?, createRole?, createDomain?, entities,
        appendNumbered, mkDomain, hrows, h5]
      rw [map_evolve_of_none fun _ => ⟨rfl, rfl, rfl⟩]
    · -- a cached domain keeps its row; the primed one is the new row
      rcases prime_domainLoader hk with hk | ⟨rfl, rfl⟩
      · obtain ⟨hne, hd⟩ := h6 k d hk
        refine ⟨hne, hd.trans (domainById_append hrows ?_).symm⟩
        rw [← hd]; exact hne
      · exact ⟨Option.some_ne_none _, (domainById_new hnew hrows).symm⟩
  | setAccountQuorum accountId value | appendRole accountId value | detachRole accountId value =>
    simp only [applyCommand, Except.ok.injEq] at hs
    subst hs
    refine ⟨project_updateAccount ⟨rfl, rfl, rfl, rfl⟩ fun a => ?_,
      coherent_updateAccount h _ _ _ _, rfl, rfl⟩
    by_cases ha : accountId = a.id
    · simp [evolve, quorumFor, roleOp, permissionOp, grantOp, ArrayOp.run, ArrayOp.apply, ← ha]
    · have ha' : ¬ a.id = accountId := fun e => ha e.symm
      simp [evolve, quorumFor, roleOp, permissionOp, grantOp, ArrayOp.run, ha, ha']
  | grantPermission accountId permission | revokePermission accountId permission =>
    simp only [applyCommand, Except.ok.injEq] at hs
    subst hs
    refine ⟨project_updateAccount ⟨rfl, rfl, rfl, rfl⟩ fun a => ?_,
      coherent_updateAccount h _ _ _ _, rfl, rfl⟩
    by_cases ha : some a.id = creatorId ∨ a.id = accountId
    · simp [evolve, quorumFor, roleOp, permissionOp, grantOp, ArrayOp.run, ArrayOp.apply,
        ArrayOp.map, concerns, ArrayOp.element, ha]
    · simp [evolve, quorumFor, roleOp, permissionOp, grantOp, ArrayOp.run, concerns,
        ArrayOp.element, ha]
  | other json =>
    simp only [applyCommand, Except.ok.injEq] at hs
    subst hs
    refine ⟨?_, h, rfl, rfl⟩
    simp only [project, createAccount?, addPeer?, createRole?, createDomain?, entities,
      appendNumbered]
    rw [map_evolve_of_none fun _ => ⟨rfl, rfl, rfl⟩]

/-! ## Transactions and blocks -/

/-- The transaction table with the rows of some transactions of `block`. -/
def logTransactions (W : Wire Bytes) (block : Block) (rows : List (TransactionRow Bytes))
    (transactions : List Transaction) : List (TransactionRow Bytes) :=
  transactions.foldl (fun rows tx => rows ++ [transactionRow W block (rows.length + 1) tx]) rows

theorem projectAll_append {e e₁ e₂ : Entities} {xs ys : List Issued}
    (h₁ : projectAll e xs = some e₁) (h₂ : projectAll e₁ ys = some e₂) :
    projectAll e (xs ++ ys) = some e₂ := foldlM_append_eq_some.2 ⟨e₁, h₁, h₂⟩

theorem applyCommands_refines {creatorId : Option String} {commands : List Command}
    {s s' : Locals Bytes} (h : Coherent s)
    (hs : commands.foldlM (applyCommand creatorId) s = .ok s') :
    projectAll (entities s.db) (commands.map fun command => ⟨creatorId, command⟩) =
      some (entities s'.db) ∧ Coherent s' ∧ SameLog s.db s'.db := by
  refine foldlM_induct (P := fun done s₁ =>
    projectAll (entities s.db) (done.map fun command => ⟨creatorId, command⟩) =
      some (entities s₁.db) ∧ Coherent s₁ ∧ SameLog s.db s₁.db)
    ⟨rfl, h, rfl, rfl⟩ ?_ hs
  rintro done command s₁ s₂ ⟨hproj, hco, hlog⟩ hstep
  obtain ⟨hproj', hco', hlog'⟩ := applyCommand_refines hco hstep
  refine ⟨?_, hco', hlog'.1.trans hlog.1, hlog'.2.trans hlog.2⟩
  rw [List.map_append]
  refine projectAll_append hproj ?_
  simp [projectAll, hproj']

theorem applyTransaction_refines {W : Wire Bytes} {block : Block} {s s' : Locals Bytes}
    {transaction : Transaction} (h : Coherent s)
    (hs : applyTransaction W block s transaction = .ok s') :
    projectAll (entities s.db) (transactionCommands transaction) = some (entities s'.db) ∧
      Coherent s' ∧ s'.db.block = s.db.block ∧
      s'.db.transaction.rows = logTransactions W block s.db.transaction.rows [transaction] := by
  simp only [applyTransaction, bind_eq_ok, insert_eq_ok] at hs
  obtain ⟨rows, ⟨-, hrows⟩, hs⟩ := hs
  obtain ⟨h1, h2, h3, h4, h5, h6⟩ := h
  have hco : Coherent { s with
      db := { s.db with transaction := rows }, transactionIndex := s.transactionIndex + 1 } :=
    ⟨by simp [hrows, h1], h2, h3, h4, h5, h6⟩
  obtain ⟨hproj, hco', hblock, htx⟩ := applyCommands_refines hco hs
  refine ⟨hproj, hco', hblock, ?_⟩
  rw [htx, hrows, h1]
  rfl

/-- **One block.** The block row, a row per transaction, and the entity
machine on the block's commands. -/
theorem applyBlock_spec {W : Wire Bytes} {db db' : Db Bytes} {block : Block}
    (hs : applyBlock W db block = .ok db') :
    (∀ row ∈ db.block.rows, row.height ≠ block.height) ∧
      db'.block.rows = db.block.rows ++ [blockRow W block] ∧
      db'.transaction.rows = logTransactions W block db.transaction.rows block.transactions ∧
      projectAll (entities db) (blockCommands block) = some (entities db') := by
  simp only [applyBlock, bind_eq_ok, insert_eq_ok, Except.ok.injEq] at hs
  obtain ⟨rows, ⟨hnew, hrows⟩, s', hs, rfl⟩ := hs
  have hloop : projectAll (entities db) (block.transactions.flatMap transactionCommands) =
      some (entities s'.db) ∧ Coherent s' ∧ s'.db.block = rows ∧
      s'.db.transaction.rows = logTransactions W block db.transaction.rows block.transactions := by
    refine foldlM_induct (P := fun done s =>
      projectAll (entities db) (done.flatMap transactionCommands) = some (entities s.db) ∧
        Coherent s ∧ s.db.block = rows ∧
        s.db.transaction.rows = logTransactions W block db.transaction.rows done)
      ⟨rfl, coherent_locals { db with block := rows }, rfl, rfl⟩ ?_ hs
    rintro done transaction s₁ s₂ ⟨hproj, hco, hblock, hlog⟩ hstep
    obtain ⟨hproj', hco', hblock', hlog'⟩ := applyTransaction_refines hco hstep
    refine ⟨?_, hco', hblock'.trans hblock, ?_⟩
    · rw [List.flatMap_append]
      refine projectAll_append hproj ?_
      simpa using hproj'
    · rw [hlog', hlog]
      simp [logTransactions, List.foldl_append]
  obtain ⟨hproj, -, hblock, hlog⟩ := hloop
  exact ⟨fun row hrow => of_decide_eq_false (hnew row hrow), by rw [hblock, hrows], hlog, hproj⟩

/-! ## Chains -/

/-- An invariant of the databases reached from the empty one, indexed by the
blocks applied. -/
theorem applyBlocks_induct {W : Wire Bytes} {P : List Block → Db Bytes → Prop}
    (empty : P [] .empty)
    (block : ∀ done block db db', P done db → applyBlock W db block = .ok db' →
      P (done ++ [block]) db')
    {blocks : List Block} {db : Db Bytes} (h : applyBlocks W .empty blocks = .ok db) :
    P blocks db := foldlM_induct empty block h

/-- **`applyBlock` projects the chain.** The entity tables are the entity
machine's after the commands of the chain. -/
theorem applyBlocks_refines {W : Wire Bytes} {blocks : List Block} {db : Db Bytes}
    (h : applyBlocks W .empty blocks = .ok db) :
    projectAll .empty (chainCommands blocks) = some (entities db) := by
  refine applyBlocks_induct (P := fun done db =>
    projectAll .empty (chainCommands done) = some (entities db)) rfl ?_ h
  intro done block db db' ih hb
  obtain ⟨-, -, -, hproj⟩ := applyBlock_spec hb
  rw [chainCommands, List.flatMap_append]
  refine projectAll_append ih ?_
  simpa using hproj

/-- The updates of the account `id` about role `r`, its creation included. -/
def roleHistory (id defaultRole r : String) (post : List Issued) : List (ArrayOp String) :=
  ArrayOp.about r (.append defaultRole :: post.filterMap (roleOp id))

theorem mem_roles_iff (r : String) (post : List Issued) (index : Nat) (account : String × String)
    (defaultRole : String) :
    r ∈ (evolveAll post (newAccount index account defaultRole)).roles ↔
      roleHistory (accountId account) defaultRole r post ≠ [] ∧
        (roleHistory (accountId account) defaultRole r post).getLast? ≠ some (.remove r) := by
  have hrun : (evolveAll post (newAccount index account defaultRole)).roles =
      ArrayOp.run [] (.append defaultRole :: post.filterMap (roleOp (accountId account))) :=
    evolveAll_roles post _
  rw [hrun, ArrayOp.mem_run_nil]
  exact ArrayOp.getLast?_about

/-- **The entity tables of a chain.** After any number of blocks applied to
the empty database, in the order of their commands: one row per create
command, numbered from 1; the quorum of an account is the last one set after
its creation, else 1; and it has a role iff the updates about it since, its
creation in a domain with that default role included, exist and do not end
with a detach. The domain of an account was created before it, in the same
transaction, the same block or an earlier one. -/
theorem applyBlocks_projects (W : Wire Bytes) (blocks : List Block) (db : Db Bytes)
    (h : applyBlocks W .empty blocks = .ok db) :
    db.domain.rows = numbered mkDomain ((chainCommands blocks).filterMap createDomain?) ∧
    db.role.rows = numbered mkRole ((chainCommands blocks).filterMap createRole?) ∧
    db.peer.rows = numbered mkPeer ((chainCommands blocks).filterMap addPeer?) ∧
    db.account.rows.map (fun a => (a.index, a.id)) =
      numbered mkAccountId ((chainCommands blocks).filterMap createAccount?) ∧
    ∀ pre x post account, chainCommands blocks = pre ++ x :: post →
      createAccount? x = some account →
      ∃ defaultRole, .createDomain account.2 defaultRole ∈ pre.map Issued.command ∧
        ∃ row ∈ db.account.rows,
          row.index = (pre.filterMap createAccount?).length + 1 ∧
          row.id = account.1 ++ "@" ++ account.2 ∧
          row.quorum = ((post.filterMap (quorumFor row.id)).getLast?).getD 1 ∧
          ∀ r, r ∈ row.roles ↔ roleHistory row.id defaultRole r post ≠ [] ∧
            (roleHistory row.id defaultRole r post).getLast? ≠ some (.remove r) := by
  have hproj := applyBlocks_refines h
  obtain ⟨hd, hr, hp, ha⟩ := entities_eq_numbered hproj
  refine ⟨hd, hr, hp, ha, ?_⟩
  intro pre x post account hC hx
  rw [hC] at hproj
  obtain ⟨defaultRole, hdom, hrow⟩ := account_row hx hproj
  refine ⟨defaultRole, hdom, _, hrow, by simp [newAccount], by simp [newAccount, accountId], ?_, ?_⟩
  · rw [evolveAll_quorum, evolveAll_id]
    rfl
  · intro r
    rw [evolveAll_id]
    exact mem_roles_iff r post _ account defaultRole

/-- A domain, an account in it, and its quorum and role changed, within one
block. -/
def firstBlock : Block :=
  ⟨1, 0, "", [⟨⟨"", 0, 1,
    [.createDomain "explorer" "user", .createAccount "alice" "explorer",
      .setAccountQuorum "alice@explorer" 3, .detachRole "alice@explorer" "user"]⟩, []⟩]⟩

theorem applyBlocks_projects_firstBlock :
    ∃ db, applyBlocks plainWire .empty [firstBlock] = .ok db ∧
      db.domain.rows = [⟨1, "explorer", "user"⟩] ∧
      ∃ row ∈ db.account.rows, row.index = 1 ∧ row.quorum = 3 ∧ "user" ∉ row.roles := by
  obtain ⟨db, h⟩ := exists_of_isOk (x := applyBlocks plainWire .empty [firstBlock])
    (by decide +kernel)
  obtain ⟨hd, -, -, -, hrow⟩ := applyBlocks_projects plainWire [firstBlock] db h
  obtain ⟨defaultRole, hdom, row, hmem, hindex, hid, hquorum, hroles⟩ :=
    hrow [⟨none, .createDomain "explorer" "user"⟩] _ _ ("alice", "explorer") rfl rfl
  have hdefault : defaultRole = "user" := by simpa using hdom
  refine ⟨db, h, hd.trans (by decide), row, hmem, hindex, ?_, ?_⟩
  · rw [hquorum, hid]; decide
  · rw [hroles, hid, hdefault]; decide

end Explorer.Iroha
