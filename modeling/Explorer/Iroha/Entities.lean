import Explorer.Core.ArrayOp
import Explorer.Core.Fold
import Explorer.Iroha.Db

/-!
# The entities of a chain, as a machine on its commands

What the four entity tables are for: a machine that reads the commands of
the chain one by one. A command changes the accounts it is about
(`evolve`), and may create one numbered entity. There are no blocks, no
transactions, no counters and no cache here; an account can only be created
in a domain that exists.

* `entities_eq_numbered`: the domains, roles, peers and account ids after a
  history are its create commands, numbered.
* `account_row`: the row an account has at the end is its first row, evolved
  by the commands after its creation.
* `exists_creation`: every row comes about that way.
-/
namespace Explorer.Iroha

/-- A command and the creator of its transaction. -/
structure Issued where
  creatorId : Option String
  command : Command
  deriving DecidableEq, Repr

structure Entities where
  account : List AccountRow
  peer : List PeerRow
  role : List RoleRow
  domain : List DomainRow
  deriving DecidableEq, Repr

def Entities.empty : Entities := ⟨[], [], [], []⟩

/-! ## What a command creates -/

def createDomain? (x : Issued) : Option (String × String) :=
  match x.command with
  | .createDomain domainId defaultRole => some (domainId, defaultRole)
  | _ => none

def createRole? (x : Issued) : Option (String × List Nat) :=
  match x.command with
  | .createRole roleName permissions => some (roleName, permissions)
  | _ => none

def addPeer? (x : Issued) : Option (String × String) :=
  match x.command with
  | .addPeer address peerKey => some (address, peerKey)
  | _ => none

def createAccount? (x : Issued) : Option (String × String) :=
  match x.command with
  | .createAccount accountName domainId => some (accountName, domainId)
  | _ => none

def accountId (account : String × String) : String := account.1 ++ "@" ++ account.2

def mkDomain (index : Nat) (x : String × String) : DomainRow := ⟨index, x.1, x.2⟩
def mkRole (index : Nat) (x : String × List Nat) : RoleRow := ⟨index, x.1, x.2⟩
def mkPeer (index : Nat) (x : String × String) : PeerRow := ⟨index, x.1, x.2⟩
def mkAccountId (index : Nat) (x : String × String) : Nat × String := (index, accountId x)

/-! ## What a command does to an account -/

/-- The quorum `x` sets for the account `id`. -/
def quorumFor (id : String) (x : Issued) : Option Nat :=
  match x.command with
  | .setAccountQuorum accountId quorum => if accountId = id then some quorum else none
  | _ => none

/-- The update of the roles of account `id`. -/
def roleOp (id : String) (x : Issued) : Option (ArrayOp String) :=
  match x.command with
  | .appendRole accountId roleName => if accountId = id then some (.append roleName) else none
  | .detachRole accountId roleName => if accountId = id then some (.remove roleName) else none
  | _ => none

/-- The permission `x` grants or revokes. -/
def grantOp (x : Issued) : Option (ArrayOp PermissionGranted) :=
  match x.command with
  | .grantPermission accountId permission => some (.append ⟨x.creatorId, accountId, permission⟩)
  | .revokePermission accountId permission => some (.remove ⟨x.creatorId, accountId, permission⟩)
  | _ => none

/-- The account is the granter or the grantee. -/
def concerns (id : String) (op : ArrayOp PermissionGranted) : Bool :=
  some id = op.element.by ∨ id = op.element.to

/-- The update of the permissions of account `id`, on their texts. -/
def permissionOp (id : String) (x : Issued) : Option (ArrayOp String) :=
  (grantOp x).bind fun op =>
    if concerns id op then some (op.map PermissionGranted.stringify) else none

def evolve (x : Issued) (a : AccountRow) : AccountRow where
  index := a.index
  id := a.id
  quorum := (quorumFor a.id x).getD a.quorum
  roles := ArrayOp.run a.roles (roleOp a.id x).toList
  permissionsGranted := ArrayOp.run a.permissionsGranted (permissionOp a.id x).toList

/-- The row of a new account. -/
def newAccount (index : Nat) (account : String × String) (defaultRole : String) : AccountRow :=
  ⟨index, accountId account, 1, [defaultRole], []⟩

/-- One command. -/
def project (e : Entities) (x : Issued) : Option Entities :=
  let e' : Entities := {
    account := e.account.map (evolve x)
    peer := appendNumbered mkPeer e.peer (addPeer? x)
    role := appendNumbered mkRole e.role (createRole? x)
    domain := appendNumbered mkDomain e.domain (createDomain? x) }
  match createAccount? x with
  | none => some e'
  | some account =>
    (e.domain.find? fun row => row.id = account.2).map fun row =>
      { e' with account := e'.account ++ [newAccount (e.account.length + 1) account row.defaultRole] }

/-- A history of commands. -/
def projectAll (e : Entities) (xs : List Issued) : Option Entities := xs.foldlM project e

/-! ## The tables after a history -/

/-- What one command adds, in one statement for both branches of
`project`. -/
theorem project_eq_some {e e' : Entities} {x : Issued} (h : project e x = some e') :
    e'.peer = appendNumbered mkPeer e.peer (addPeer? x) ∧
    e'.role = appendNumbered mkRole e.role (createRole? x) ∧
    e'.domain = appendNumbered mkDomain e.domain (createDomain? x) ∧
    (createAccount? x = none ∧ e'.account = e.account.map (evolve x) ∨
      ∃ account row, createAccount? x = some account ∧
        (e.domain.find? fun row => row.id = account.2) = some row ∧
        e'.account = e.account.map (evolve x) ++
          [newAccount (e.account.length + 1) account row.defaultRole]) := by
  unfold project at h
  cases hc : createAccount? x with
  | none =>
    simp only [hc, Option.some.injEq] at h
    subst h
    exact ⟨rfl, rfl, rfl, .inl ⟨rfl, rfl⟩⟩
  | some account =>
    simp only [hc, Option.map_eq_some_iff] at h
    obtain ⟨row, hrow, rfl⟩ := h
    exact ⟨rfl, rfl, rfl, .inr ⟨account, row, rfl, hrow, rfl⟩⟩

/-- The columns of an account no command changes. -/
theorem map_evolve_id (x : Issued) (rows : List AccountRow) :
    (rows.map (evolve x)).map (fun a => (a.index, a.id)) = rows.map fun a => (a.index, a.id) := by
  rw [List.map_map]; rfl

theorem project_accountId {e e' : Entities} {x : Issued} (h : project e x = some e') :
    e'.account.map (fun a => (a.index, a.id)) =
      appendNumbered mkAccountId (e.account.map fun a => (a.index, a.id)) (createAccount? x) := by
  obtain ⟨-, -, -, ⟨hc, ha⟩ | ⟨account, row, hc, -, ha⟩⟩ := project_eq_some h
  · rw [ha, map_evolve_id, hc, appendNumbered]
  · rw [ha, List.map_append, map_evolve_id, hc, appendNumbered, List.length_map]; rfl

theorem filterMap_snoc {A B : Type} (f : A → Option B) (xs : List A) (x : A) :
    (xs ++ [x]).filterMap f = xs.filterMap f ++ (f x).toList := by
  rw [List.filterMap_append]
  cases h : f x <;> simp [h]

/-- **One row per create command, numbered in chain order.** -/
theorem entities_eq_numbered {e : Entities} {xs : List Issued}
    (h : projectAll .empty xs = some e) :
    e.domain = numbered mkDomain (xs.filterMap createDomain?) ∧
    e.role = numbered mkRole (xs.filterMap createRole?) ∧
    e.peer = numbered mkPeer (xs.filterMap addPeer?) ∧
    e.account.map (fun a => (a.index, a.id)) =
      numbered mkAccountId (xs.filterMap createAccount?) := by
  induction xs using List.reverseRecOn generalizing e with
  | nil => cases h; exact ⟨rfl, rfl, rfl, rfl⟩
  | append_singleton xs x ih =>
    obtain ⟨e₁, h₁, hx⟩ := foldlM_concat_eq_some.1 h
    obtain ⟨hd, hr, hp, ha⟩ := ih h₁
    obtain ⟨hp', hr', hd', -⟩ := project_eq_some hx
    simp only [filterMap_snoc, ← appendNumbered_numbered]
    rw [hd', hr', hp', project_accountId hx, hd, hr, hp, ha]
    exact ⟨rfl, rfl, rfl, rfl⟩

/-! ## One account -/

/-- The account row `a` after the commands `xs`. -/
def evolveAll (xs : List Issued) (a : AccountRow) : AccountRow := xs.foldl (fun a x => evolve x a) a

@[simp] theorem evolveAll_nil : evolveAll [] = id := rfl

theorem evolveAll_snoc (xs : List Issued) (x : Issued) (a : AccountRow) :
    evolveAll (xs ++ [x]) a = evolve x (evolveAll xs a) := by
  rw [evolveAll, List.foldl_concat]; rfl

@[simp] theorem evolveAll_id (xs : List Issued) (a : AccountRow) : (evolveAll xs a).id = a.id := by
  induction xs using List.reverseRecOn with
  | nil => rfl
  | append_singleton xs x ih => rw [evolveAll_snoc]; exact ih

@[simp] theorem evolveAll_index (xs : List Issued) (a : AccountRow) :
    (evolveAll xs a).index = a.index := by
  induction xs using List.reverseRecOn with
  | nil => rfl
  | append_singleton xs x ih => rw [evolveAll_snoc]; exact ih

/-- The last quorum set wins. -/
theorem evolveAll_quorum (xs : List Issued) (a : AccountRow) :
    (evolveAll xs a).quorum = ((xs.filterMap (quorumFor a.id)).getLast?).getD a.quorum := by
  induction xs using List.reverseRecOn with
  | nil => rfl
  | append_singleton xs x ih =>
    rw [evolveAll_snoc, filterMap_snoc]
    simp only [evolve, evolveAll_id, ih]
    cases quorumFor a.id x <;> simp

theorem evolveAll_roles (xs : List Issued) (a : AccountRow) :
    (evolveAll xs a).roles = ArrayOp.run a.roles (xs.filterMap (roleOp a.id)) := by
  induction xs using List.reverseRecOn with
  | nil => rfl
  | append_singleton xs x ih =>
    rw [evolveAll_snoc, filterMap_snoc, ArrayOp.run_append, ← ih, evolve, evolveAll_id]

theorem evolveAll_permissionsGranted (xs : List Issued) (a : AccountRow) :
    (evolveAll xs a).permissionsGranted =
      ArrayOp.run a.permissionsGranted (xs.filterMap (permissionOp a.id)) := by
  induction xs using List.reverseRecOn with
  | nil => rfl
  | append_singleton xs x ih =>
    rw [evolveAll_snoc, filterMap_snoc, ArrayOp.run_append, ← ih, evolve, evolveAll_id]

/-- A later history evolves the rows it finds and adds rows behind them. -/
theorem projectAll_account {e e' : Entities} {xs : List Issued} (h : projectAll e xs = some e') :
    ∃ new, e'.account = e.account.map (evolveAll xs) ++ new := by
  induction xs using List.reverseRecOn generalizing e' with
  | nil => cases h; exact ⟨[], by simp⟩
  | append_singleton xs x ih =>
    obtain ⟨e₁, h₁, hx⟩ := foldlM_concat_eq_some.1 h
    obtain ⟨new, hnew⟩ := ih h₁
    have hmap : (e₁.account.map (evolve x)) =
        e.account.map (evolveAll (xs ++ [x])) ++ new.map (evolve x) := by
      rw [hnew, List.map_append, List.map_map]
      congr 1
      exact List.map_congr_left fun a _ => (evolveAll_snoc xs x a).symm
    obtain ⟨-, -, -, ⟨-, ha⟩ | ⟨account, row, -, -, ha⟩⟩ := project_eq_some hx
    · exact ⟨_, by rw [ha, hmap]⟩
    · exact ⟨_, by rw [ha, hmap, List.append_assoc]⟩

theorem mem_numbered {A B : Type} {mk : Nat → A → B} {xs : List A} {b : B}
    (h : b ∈ numbered mk xs) : ∃ i, ∃ x ∈ xs, b = mk i x := by
  obtain ⟨i, hi, rfl⟩ := List.mem_mapIdx.1 h
  exact ⟨i + 1, xs[i], List.getElem_mem hi, rfl⟩

theorem mem_createDomain {xs : List Issued} {domainId defaultRole : String}
    (h : (domainId, defaultRole) ∈ xs.filterMap createDomain?) :
    .createDomain domainId defaultRole ∈ xs.map Issued.command := by
  obtain ⟨x, hx, hc⟩ := List.mem_filterMap.1 h
  unfold createDomain? at hc
  split at hc
  · rename_i hcmd
    cases hc
    exact List.mem_map.2 ⟨x, hx, hcmd⟩
  · cases hc

/-- **The row of an account.** Its domain was created before it, in
whatever block or transaction, and its row is the first row evolved by the
commands that follow. -/
theorem account_row {e : Entities} {pre post : List Issued} {x : Issued} {account : String × String}
    (hx : createAccount? x = some account)
    (h : projectAll .empty (pre ++ x :: post) = some e) :
    ∃ defaultRole, .createDomain account.2 defaultRole ∈ pre.map Issued.command ∧
      evolveAll post (newAccount ((pre.filterMap createAccount?).length + 1) account defaultRole) ∈
        e.account := by
  rw [List.append_cons] at h
  obtain ⟨e₂, h₂, hpost⟩ := foldlM_append_eq_some.1 h
  obtain ⟨e₁, h₁, hcreate⟩ := foldlM_concat_eq_some.1 h₂
  obtain ⟨hd, -, -, hids⟩ := entities_eq_numbered h₁
  have hlen : e₁.account.length = (pre.filterMap createAccount?).length := by
    have := congrArg List.length hids
    simpa [numbered] using this
  obtain ⟨-, -, -, ⟨hc, -⟩ | ⟨account', row, hc, hfind, ha⟩⟩ := project_eq_some hcreate
  · rw [hx] at hc; cases hc
  · rw [hx, Option.some.injEq] at hc
    subst hc
    refine ⟨row.defaultRole, ?_, ?_⟩
    · have hmem := List.mem_of_find?_eq_some hfind
      have hid := List.find?_some hfind
      rw [hd] at hmem
      obtain ⟨i, d, hdmem, rfl⟩ := mem_numbered hmem
      have hid' : d.1 = account.2 := of_decide_eq_true hid
      rw [← hid']
      exact mem_createDomain hdmem
    · obtain ⟨new, hnew⟩ := projectAll_account hpost
      rw [hnew, ha, hlen, List.map_append]
      simp

/-- Every account row comes from one create command. -/
theorem exists_creation {e : Entities} {xs : List Issued} (h : projectAll .empty xs = some e)
    {a : AccountRow} (ha : a ∈ e.account) :
    ∃ pre x post account index defaultRole, xs = pre ++ x :: post ∧
      createAccount? x = some account ∧ a = evolveAll post (newAccount index account defaultRole) := by
  induction xs using List.reverseRecOn generalizing e a with
  | nil => cases h; cases ha
  | append_singleton xs y ih =>
    obtain ⟨e₁, h₁, hy⟩ := foldlM_concat_eq_some.1 h
    have hold : ∀ b ∈ e₁.account.map (evolve y), ∃ pre x post account index defaultRole,
        xs ++ [y] = pre ++ x :: post ∧ createAccount? x = some account ∧
          b = evolveAll post (newAccount index account defaultRole) := by
      intro b hb
      obtain ⟨b₁, hb₁, rfl⟩ := List.mem_map.1 hb
      obtain ⟨pre, x, post, account, index, defaultRole, rfl, hx, rfl⟩ := ih h₁ hb₁
      exact ⟨pre, x, post ++ [y], account, index, defaultRole, by simp, hx,
        (evolveAll_snoc post y _).symm⟩
    obtain ⟨-, -, -, ⟨-, hacc⟩ | ⟨account, row, hc, -, hacc⟩⟩ := project_eq_some hy
    · rw [hacc] at ha
      exact hold a ha
    · rw [hacc, List.mem_append, List.mem_singleton] at ha
      rcases ha with ha | rfl
      · exact hold a ha
      · exact ⟨xs, y, [], account, _, row.defaultRole, rfl, hc, rfl⟩

end Explorer.Iroha
