import Explorer.Iroha.Grants
import Explorer.Iroha.TransactionLog

/-!
# Chains whose references exist

In a chain that Iroha has accepted, the roles, domains and accounts that a
command names have been created before it, and the creator of a transaction
before it, or in it for the genesis transaction (`Referenced`). Then what the
entity tables refer to is stored as well.

* `mem_roles`: the roles of an account were created.
* `mem_permissionsGranted`: a permission of an account was granted, as read.
* `creator_stored`: the account of a creator.
-/
namespace Explorer.Iroha

variable {Bytes : Type}

/-! ## References -/

def createdRoles (xs : List Issued) : List String := (xs.filterMap createRole?).map Prod.fst

def createdDomains (xs : List Issued) : List String := (xs.filterMap createDomain?).map Prod.fst

/-- What a command names was created before it. -/
def References (pre : List Issued) (x : Issued) : Prop :=
  match x.command with
  | .createAccount _ domainId => domainId ∈ createdDomains pre
  | .createDomain _ defaultRole => defaultRole ∈ createdRoles pre
  | .appendRole accountId roleName | .detachRole accountId roleName =>
    accountId ∈ createdIds pre ∧ roleName ∈ createdRoles pre
  | .setAccountQuorum accountId _ | .grantPermission accountId _ | .revokePermission accountId _ =>
    accountId ∈ createdIds pre
  | .addPeer .. | .createRole .. | .other _ => True

instance (pre : List Issued) (x : Issued) : Decidable (References pre x) := by
  unfold References
  split <;> infer_instance

/-- The creator of a transaction, if it has one, was created before it; in it,
if it is the first. -/
def CreatorExists (pre : List (Block × Transaction)) (x : Block × Transaction) : Prop :=
  ∀ id ∈ creatorIdOf x.2, id ∈ createdIds (pre.flatMap fun y => transactionCommands y.2) ∨
    pre = [] ∧ id ∈ createdIds (transactionCommands x.2)

instance (pre : List (Block × Transaction)) (x : Block × Transaction) : Decidable (CreatorExists pre x) := by
  unfold CreatorExists
  infer_instance

structure Referenced (blocks : List Block) : Prop where
  commands : ∀ pre x post, chainCommands blocks = pre ++ x :: post → References pre x
  creators : ∀ pre x post, chainTransactions blocks = pre ++ x :: post → CreatorExists pre x

instance (blocks : List Block) : Decidable (Referenced blocks) :=
  decidable_of_iff ((∀ pre x post, chainCommands blocks = pre ++ x :: post → References pre x) ∧
    ∀ pre x post, chainTransactions blocks = pre ++ x :: post → CreatorExists pre x)
    ⟨fun h => ⟨h.1, h.2⟩, fun h => ⟨h.commands, h.creators⟩⟩

theorem chainCommands_eq (blocks : List Block) :
    chainCommands blocks = (chainTransactions blocks).flatMap fun x => transactionCommands x.2 := by
  simp only [chainCommands, chainTransactions, List.flatMap_assoc, List.flatMap_map]
  rfl

theorem mem_chainTransactions {blocks : List Block} {x : Block × Transaction} :
    x ∈ chainTransactions blocks ↔ x.1 ∈ blocks ∧ x.2 ∈ x.1.transactions := by
  obtain ⟨block, transaction⟩ := x
  simp [chainTransactions]

/-! ## Roles -/

section
variable {e e' : Entities} {xs : List Issued}

theorem createdRoles_mono {xs ys : List Issued} {r : String} (h : r ∈ createdRoles xs) :
    r ∈ createdRoles (xs ++ ys) := by
  unfold createdRoles at h ⊢
  rw [List.filterMap_append, List.map_append, List.mem_append]
  exact .inl h

/-- The default role of a domain was created before it. -/
theorem mem_defaultRole (h : projectAll .empty xs = some e)
    (href : ∀ pre x post, xs = pre ++ x :: post → References pre x) {row : DomainRow} (hrow : row ∈ e.domain) :
    row.defaultRole ∈ createdRoles xs := by
  obtain ⟨hd, -, -, -⟩ := entities_eq_numbered h
  rw [hd] at hrow
  obtain ⟨i, ⟨domainId, defaultRole⟩, hmem, rfl⟩ := mem_numbered hrow
  obtain ⟨x, hx, hcmd⟩ := List.mem_map.1 (mem_createDomain hmem)
  obtain ⟨pre, post, rfl⟩ := List.append_of_mem hx
  have hrefs := href pre x post rfl
  simp only [References, hcmd] at hrefs
  exact createdRoles_mono hrefs

/-- An update adds its own element only. -/
theorem mem_evolve_roles {x : Issued} {a : AccountRow} {r : String} (h : r ∈ (evolve x a).roles) :
    r ∈ a.roles ∨ x.command = .appendRole a.id r := by
  have hrun : r ∈ ArrayOp.run a.roles (roleOp a.id x).toList := h
  cases hop : roleOp a.id x with
  | none =>
    rw [hop] at hrun
    exact .inl hrun
  | some op =>
    rw [hop] at hrun
    have happly : r ∈ ArrayOp.apply a.roles op := hrun
    obtain hold | rfl := ArrayOp.mem_apply happly
    · exact .inl hold
    · right
      unfold roleOp at hop
      split at hop <;> simp_all

theorem mem_roles (h : projectAll .empty xs = some e)
    (href : ∀ pre x post, xs = pre ++ x :: post → References pre x) {a : AccountRow} (ha : a ∈ e.account) :
    ∀ r ∈ a.roles, r ∈ createdRoles xs := by
  induction xs using List.reverseRecOn generalizing e a with
  | nil => cases h; cases ha
  | append_singleton xs x ih =>
    obtain ⟨e₁, h₁, hx⟩ := foldlM_concat_eq_some.1 h
    have href₁ : ∀ pre y post, xs = pre ++ y :: post → References pre y := by
      rintro pre y post rfl
      exact href pre y (post ++ [x]) (by simp)
    have hold : ∀ b ∈ e₁.account.map (evolve x), ∀ r ∈ b.roles, r ∈ createdRoles (xs ++ [x]) := by
      intro b hb r hr
      obtain ⟨a, ha, rfl⟩ := List.mem_map.1 hb
      obtain hr | hcmd := mem_evolve_roles hr
      · exact createdRoles_mono (ih h₁ href₁ ha r hr)
      · have hrefs := href xs x [] rfl
        simp only [References, hcmd] at hrefs
        exact createdRoles_mono hrefs.2
    intro r hr
    obtain ⟨-, -, -, ⟨-, hacc⟩ | ⟨account, row, -, hfind, hacc⟩⟩ := project_eq_some hx
    · rw [hacc] at ha
      exact hold a ha r hr
    · rw [hacc, List.mem_append, List.mem_singleton] at ha
      obtain ha | rfl := ha
      · exact hold a ha r hr
      · obtain rfl : r = row.defaultRole := by simpa [newAccount] using hr
        exact createdRoles_mono (mem_defaultRole h₁ href₁ (List.mem_of_find?_eq_some hfind))

/-! ## Granted permissions -/

/-- The texts on an account were written by grants. -/
theorem mem_texts (h : projectAll .empty xs = some e) {a : AccountRow} (ha : a ∈ e.account) {text : String}
    (htext : text ∈ a.permissionsGranted) :
    ∃ x ∈ xs, ∃ p, grantOp x = some (.append p) ∧ text = p.stringify := by
  obtain ⟨pre, x, post, account, index, defaultRole, rfl, -, rfl⟩ := exists_creation h ha
  rw [evolveAll_permissionsGranted] at htext
  obtain hnew | hop := ArrayOp.mem_run htext
  · cases hnew
  · obtain ⟨y, hy, hop⟩ := List.mem_filterMap.1 hop
    refine ⟨y, by simp [hy], ?_⟩
    obtain ⟨op, hgrant, hop⟩ := Option.bind_eq_some_iff.1 hop
    split at hop
    · cases op with
      | append p =>
        cases hop
        exact ⟨p, hgrant, rfl⟩
      | remove p => cases hop
    · cases hop

end

/-! ## The tables of a chain -/

section
variable {W : Wire Bytes} {blocks : List Block} {db : Db Bytes}

/-- A role row is that of the command that created it. -/
theorem exists_createRole (h : applyBlocks W .empty blocks = .ok db) {row : RoleRow} (hrow : row ∈ db.role.rows) :
    ∃ x ∈ chainCommands blocks, x.command = .createRole row.name row.permissions := by
  obtain ⟨-, hr, -, -⟩ := entities_eq_numbered (applyBlocks_refines h)
  rw [show db.role.rows = (entities db).role from rfl, hr] at hrow
  obtain ⟨i, ⟨roleName, permissions⟩, hmem, rfl⟩ := mem_numbered hrow
  obtain ⟨x, hx, hcreate⟩ := List.mem_filterMap.1 hmem
  refine ⟨x, hx, ?_⟩
  unfold createRole? at hcreate
  split at hcreate
  · rename_i hcmd
    cases hcreate
    exact hcmd
  · cases hcreate

theorem role_stored (h : applyBlocks W .empty blocks = .ok db) {r : String}
    (hr : r ∈ createdRoles (chainCommands blocks)) : ∃ row ∈ db.role.rows, row.name = r := by
  obtain ⟨-, hroles, -, -⟩ := entities_eq_numbered (applyBlocks_refines h)
  have hnames : db.role.rows.map RoleRow.name = createdRoles (chainCommands blocks) := by
    rw [show db.role.rows = (entities db).role from rfl, hroles]
    exact map_numbered mkRole RoleRow.name Prod.fst (fun _ _ => rfl) _
  rw [← hnames] at hr
  exact List.mem_map.1 hr

theorem roles_stored (h : applyBlocks W .empty blocks = .ok db) (href : Referenced blocks) {a : AccountRow}
    (ha : a ∈ db.account.rows) {r : String} (hr : r ∈ a.roles) : ∃ row ∈ db.role.rows, row.name = r :=
  role_stored h (mem_roles (applyBlocks_refines h) href.commands ha r hr)

theorem defaultRole_stored (h : applyBlocks W .empty blocks = .ok db) (href : Referenced blocks) {d : DomainRow}
    (hd : d ∈ db.domain.rows) : ∃ row ∈ db.role.rows, row.name = d.defaultRole :=
  role_stored h (mem_defaultRole (applyBlocks_refines h) href.commands hd)

/-- A permission of an account is one that a transaction granted. -/
theorem mem_permissionsGranted (h : applyBlocks W .empty blocks = .ok db) {a : AccountRow}
    (ha : a ∈ db.account.rows) {p : PermissionGranted} (hp : p ∈ permissionsGranted a) :
    ∃ x ∈ chainTransactions blocks, p.by = creatorIdOf x.2 ∧
      .grantPermission p.to p.permission ∈ x.2.payload.commands := by
  obtain ⟨text, htext, hparse⟩ := List.mem_filterMap.1 hp
  obtain ⟨issued, hissued, q, hgrant, rfl⟩ := mem_texts (applyBlocks_refines h) ha htext
  rw [PermissionGranted.parse_stringify, Option.some.injEq] at hparse
  subst hparse
  rw [chainCommands_eq] at hissued
  obtain ⟨x, hx, hissued⟩ := List.mem_flatMap.1 hissued
  obtain ⟨command, hcommand, rfl⟩ := List.mem_map.1 hissued
  refine ⟨x, hx, ?_⟩
  unfold grantOp at hgrant
  split at hgrant
  · rename_i accountId permission hcmd
    cases hgrant
    exact ⟨rfl, hcmd ▸ hcommand⟩
  · cases hgrant
  · cases hgrant

theorem creator_stored (h : applyBlocks W .empty blocks = .ok db) (href : Referenced blocks)
    {x : Block × Transaction} (hx : x ∈ chainTransactions blocks) {id : String} (hid : creatorIdOf x.2 = some id) :
    ∃ row ∈ db.account.rows, row.id = id := by
  obtain ⟨pre, post, hsplit⟩ := List.append_of_mem hx
  have hcreated : id ∈ createdIds (chainCommands blocks) := by
    rw [chainCommands_eq, hsplit, List.flatMap_append, List.flatMap_cons, createdIds_append, createdIds_append,
      List.mem_append, List.mem_append]
    obtain hpre | ⟨-, hself⟩ := href.creators pre x post hsplit id hid
    · exact .inl hpre
    · exact .inr (.inl hself)
  rw [createdIds_eq h] at hcreated
  exact List.mem_map.1 hcreated

end
end Explorer.Iroha
