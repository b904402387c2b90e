import Mathlib.Data.List.Count
import Explorer.Iroha.Graphql
import Explorer.Iroha.Projection

/-!
# Granted permissions on both accounts

A grant or revoke updates the row of the granter and the row of the grantee
in one statement. When both exist at each of them (`PartiesExist`), the
permissions of a row are the array updates of the whole chain that concern
its account, whenever the account was created (`permissionsGranted_eq`). So
the rows of the two parties agree on every permission between them.

* `granted_iff`: a permission is on a row iff the account is a party and the
  last update about it is a grant.
* `grants_mirrored`: that, the equal numbers of occurrences, and the GraphQL
  fields of the two accounts.
-/
namespace Explorer.Iroha

variable {Bytes : Type}

/-- The ids of the accounts a history creates. -/
def createdIds (xs : List Issued) : List String := (xs.filterMap createAccount?).map accountId

/-- At each grant or revoke both parties have been created. -/
def PartiesExist (xs : List Issued) : Prop :=
  ∀ pre x post op, xs = pre ++ x :: post → grantOp x = some op →
    ∃ granter, op.element.by = some granter ∧ granter ∈ createdIds pre ∧
      op.element.to ∈ createdIds pre

/-- The same at one position. -/
def partiesExistAt (xs : List Issued) (i : Fin xs.length) : Bool :=
  (grantOp xs[i]).all fun op => op.element.by.any fun granter =>
    granter ∈ createdIds (xs.take i) ∧ op.element.to ∈ createdIds (xs.take i)

theorem partiesExistAt_iff {xs : List Issued} {i : Fin xs.length} :
    partiesExistAt xs i = true ↔ ∀ op, grantOp xs[i] = some op →
      ∃ granter, op.element.by = some granter ∧ granter ∈ createdIds (xs.take i) ∧
        op.element.to ∈ createdIds (xs.take i) := by
  simp only [partiesExistAt, Option.all_eq_true, Option.any_eq_true, decide_eq_true_eq]

instance (xs : List Issued) : Decidable (PartiesExist xs) :=
  decidable_of_iff (∀ i, partiesExistAt xs i = true) <| by
    have hsplit : (∀ pre x post, xs = pre ++ x :: post → ∀ op, grantOp x = some op →
        ∃ granter, op.element.by = some granter ∧ granter ∈ createdIds pre ∧ op.element.to ∈ createdIds pre) ↔
        PartiesExist xs :=
      ⟨fun h pre x post op hxs hop => h pre x post hxs op hop, fun h pre x post hxs op hop => h pre x post op hxs hop⟩
    rw [← hsplit, forall_split_iff]
    exact forall_congr' fun i => partiesExistAt_iff

/-- The grants and revokes of a history. -/
def grants (xs : List Issued) : List (ArrayOp PermissionGranted) := xs.filterMap grantOp

theorem createdIds_append (xs ys : List Issued) :
    createdIds (xs ++ ys) = createdIds xs ++ createdIds ys := by
  simp [createdIds]

theorem createdIds_cons {x : Issued} {account : String × String}
    (hx : createAccount? x = some account) (xs : List Issued) :
    createdIds (x :: xs) = accountId account :: createdIds xs := by
  rw [createdIds, List.filterMap_cons_some hx, List.map_cons, ← createdIds]

theorem grants_append (xs ys : List Issued) : grants (xs ++ ys) = grants xs ++ grants ys :=
  List.filterMap_append

/-- The ids of the account rows. -/
theorem createdIds_eq {W : Wire Bytes} {blocks : List Block} {db : Db Bytes}
    (h : applyBlocks W .empty blocks = .ok db) :
    createdIds (chainCommands blocks) = db.account.rows.map AccountRow.id := by
  obtain ⟨-, -, -, hids⟩ := entities_eq_numbered (applyBlocks_refines h)
  have hsnd : (numbered mkAccountId ((chainCommands blocks).filterMap createAccount?)).map
      Prod.snd = ((chainCommands blocks).filterMap createAccount?).map accountId :=
    map_numbered mkAccountId Prod.snd accountId (fun _ _ => rfl) _
  rw [createdIds, ← hsnd, ← hids, List.map_map]
  rfl

/-- Account ids are UNIQUE. -/
theorem createdIds_nodup {W : Wire Bytes} {blocks : List Block} {db : Db Bytes}
    (h : applyBlocks W .empty blocks = .ok db) : (createdIds (chainCommands blocks)).Nodup := by
  rw [createdIds_eq h, List.Nodup, List.pairwise_map]
  refine db.account.unique.imp fun {a b} hab hid => ?_
  have hc := of_decide_eq_false hab
  exact hc (.inr hid)

/-! ## The permissions of a row -/

theorem filterMap_permissionOp (id : String) (xs : List Issued) :
    xs.filterMap (permissionOp id) =
      ((grants xs).filter (concerns id)).map (ArrayOp.map PermissionGranted.stringify) := by
  induction xs with
  | nil => rfl
  | cons x xs ih =>
    cases hg : grantOp x with
    | none => simpa [grants, permissionOp, hg] using ih
    | some op =>
      by_cases hc : concerns id op
      · simpa [grants, permissionOp, hg, hc] using ih
      · simpa [grants, permissionOp, hg, hc] using ih

/-- No grant before its creation concerns an account. -/
theorem grants_before_creation {pre post : List Issued} {x : Issued} {account : String × String}
    (hx : createAccount? x = some account)
    (hparties : PartiesExist (pre ++ x :: post)) (hnd : (createdIds (pre ++ x :: post)).Nodup) :
    (grants (pre ++ [x])).filter (concerns (accountId account)) = [] := by
  rw [List.filter_eq_nil_iff]
  intro op hop hc
  rw [grants_append, List.mem_append] at hop
  rcases hop with hop | hop
  · -- the party would have been created twice
    obtain ⟨y, hy, hgy⟩ := List.mem_filterMap.1 hop
    obtain ⟨p₁, p₂, rfl⟩ := List.append_of_mem hy
    obtain ⟨granter, hby, hcreated, hto⟩ :=
      hparties p₁ y (p₂ ++ x :: post) op (by simp) hgy
    have hid : accountId account ∈ createdIds p₁ := by
      rcases of_decide_eq_true hc with hc | hc
      · rw [hby, Option.some.injEq] at hc
        rw [hc]; exact hcreated
      · rw [hc]; exact hto
    rw [List.append_assoc, createdIds_append, createdIds_append, createdIds_cons hx] at hnd
    exact (List.nodup_append.1 hnd).2.2 _ hid _ (by simp) rfl
  · obtain ⟨y, hy, hgy⟩ := List.mem_filterMap.1 hop
    rw [List.mem_singleton.1 hy] at hgy
    unfold createAccount? at hx
    split at hx
    · rename_i hcmd
      simp [grantOp, hcmd] at hgy
    · cases hx

/-- **The permissions of a row** are the updates of the whole chain that
concern its account. -/
theorem permissionsGranted_eq {W : Wire Bytes} {blocks : List Block} {db : Db Bytes}
    (h : applyBlocks W .empty blocks = .ok db) (hparties : PartiesExist (chainCommands blocks))
    {a : AccountRow} (ha : a ∈ db.account.rows) :
    a.permissionsGranted =
      (ArrayOp.run [] ((grants (chainCommands blocks)).filter (concerns a.id))).map
        PermissionGranted.stringify := by
  have hnd := createdIds_nodup h
  obtain ⟨pre, x, post, account, index, defaultRole, hC, hx, rfl⟩ :=
    exists_creation (applyBlocks_refines h) ha
  rw [hC] at hparties hnd ⊢
  rw [evolveAll_permissionsGranted, evolveAll_id, filterMap_permissionOp]
  have hinit : (newAccount index account defaultRole).permissionsGranted =
      ([] : List PermissionGranted).map PermissionGranted.stringify := rfl
  rw [hinit, ArrayOp.run_map fun _ _ => PermissionGranted.stringify_injective]
  have hsplit : (grants (pre ++ x :: post)).filter (concerns (accountId account)) =
      (grants post).filter (concerns (accountId account)) := by
    rw [List.append_cons, grants_append, List.filter_append, grants_before_creation hx hparties hnd,
      List.nil_append]
  simp only [newAccount, hsplit]

theorem permissionsGranted_parsed {W : Wire Bytes} {blocks : List Block} {db : Db Bytes}
    (h : applyBlocks W .empty blocks = .ok db) (hparties : PartiesExist (chainCommands blocks))
    {a : AccountRow} (ha : a ∈ db.account.rows) :
    permissionsGranted a =
      ArrayOp.run [] ((grants (chainCommands blocks)).filter (concerns a.id)) := by
  rw [permissionsGranted, permissionsGranted_eq h hparties ha, List.filterMap_map]
  have hparse : PermissionGranted.parse ∘ PermissionGranted.stringify = some :=
    funext PermissionGranted.parse_stringify
  rw [hparse, List.filterMap_some]

/-! ## Mirrored -/

/-- The account `id` is the granter or the grantee of `t`. -/
def IsParty (id : String) (t : PermissionGranted) : Prop := some id = t.by ∨ id = t.to

theorem concerns_append {id : String} {t : PermissionGranted} :
    concerns id (.append t) = true ↔ IsParty id t := decide_eq_true_iff

theorem about_concerning (id : String) (t : PermissionGranted)
    (ops : List (ArrayOp PermissionGranted)) :
    ArrayOp.about t (ops.filter (concerns id)) =
      if concerns id (.append t) then ArrayOp.about t ops else [] := by
  refine ArrayOp.about_filter t _ ops fun op hop => ?_
  rw [concerns, hop]
  rfl

/-- **Last update wins.** A permission is on a row iff the account is a party
and the last grant or revoke of it was a grant. -/
theorem granted_iff {W : Wire Bytes} {blocks : List Block} {db : Db Bytes}
    (h : applyBlocks W .empty blocks = .ok db) (hparties : PartiesExist (chainCommands blocks))
    {a : AccountRow} (ha : a ∈ db.account.rows) (t : PermissionGranted) :
    t ∈ permissionsGranted a ↔ IsParty a.id t ∧
      (ArrayOp.about t (grants (chainCommands blocks))).getLast? = some (.append t) := by
  rw [permissionsGranted_parsed h hparties ha, ArrayOp.mem_run_nil, about_concerning,
    ← concerns_append]
  split
  · rename_i hc; simp [hc]
  · rename_i hc; simp [hc]

theorem count_granted {W : Wire Bytes} {blocks : List Block} {db : Db Bytes}
    (h : applyBlocks W .empty blocks = .ok db) (hparties : PartiesExist (chainCommands blocks))
    {a : AccountRow} (ha : a ∈ db.account.rows) {t : PermissionGranted} (ht : IsParty a.id t) :
    a.permissionsGranted.count t.stringify =
      ArrayOp.multiplicity 0 (ArrayOp.about t (grants (chainCommands blocks))) := by
  rw [permissionsGranted_eq h hparties ha,
    List.count_map_of_injective _ _ fun _ _ => PermissionGranted.stringify_injective,
    ArrayOp.count_run, about_concerning, if_pos (concerns_append.2 ht), List.count_nil]

theorem stringify_mem {W : Wire Bytes} {blocks : List Block} {db : Db Bytes}
    (h : applyBlocks W .empty blocks = .ok db) (hparties : PartiesExist (chainCommands blocks))
    {a : AccountRow} (ha : a ∈ db.account.rows) (t : PermissionGranted) :
    t.stringify ∈ a.permissionsGranted ↔ t ∈ permissionsGranted a := by
  rw [permissionsGranted_eq h hparties ha, permissionsGranted_parsed h hparties ha,
    List.mem_map_of_injective fun _ _ => PermissionGranted.stringify_injective]

/-- **Mirrored.** On every applied chain whose grants and revokes have
existing parties: each created account has its row; a permission is on the row
of an account iff the account is one of its parties and the last update about
it was a grant; it is there as often on the row of the granter as on the
grantee's; and the GraphQL fields `permissionsGrantedBy` of one account and
`permissionsGrantedTo` of another, or the same, show the same permissions
between the two. -/
theorem grants_mirrored (W : Wire Bytes) (blocks : List Block) (db : Db Bytes)
    (h : applyBlocks W .empty blocks = .ok db) (hparties : PartiesExist (chainCommands blocks)) :
    createdIds (chainCommands blocks) = db.account.rows.map AccountRow.id ∧
    (∀ a ∈ db.account.rows, ∀ granter grantee permission,
      let t : PermissionGranted := ⟨some granter, grantee, permission⟩
      t.stringify ∈ a.permissionsGranted ↔ (a.id = granter ∨ a.id = grantee) ∧
        (ArrayOp.about t (grants (chainCommands blocks))).getLast? = some (.append t)) ∧
    (∀ a ∈ db.account.rows, ∀ b ∈ db.account.rows, ∀ permission,
      let t : PermissionGranted := ⟨some a.id, b.id, permission⟩
      a.permissionsGranted.count t.stringify = b.permissionsGranted.count t.stringify) ∧
    ∀ a ∈ db.account.rows, ∀ b ∈ db.account.rows, ∀ t : PermissionGranted,
      t ∈ permissionsGrantedBy a ∧ t.to = b.id ↔
        t ∈ permissionsGrantedTo b ∧ t.by = some a.id := by
  refine ⟨createdIds_eq h, ?_, ?_, ?_⟩
  · intro a ha granter grantee permission t
    rw [stringify_mem h hparties ha t, granted_iff h hparties ha t]
    simp [IsParty, t]
  · intro a ha b hb permission t
    rw [count_granted h hparties ha (t := t) (.inl rfl),
      count_granted h hparties hb (t := t) (.inr rfl)]
  · intro a ha b hb t
    simp only [permissionsGrantedBy, permissionsGrantedTo, List.mem_filter, decide_eq_true_eq,
      granted_iff h hparties ha, granted_iff h hparties hb, IsParty]
    constructor
    · rintro ⟨⟨⟨-, hlast⟩, hby⟩, hto⟩
      exact ⟨⟨⟨.inr hto.symm, hlast⟩, hto⟩, hby⟩
    · rintro ⟨⟨⟨-, hlast⟩, hto⟩, hby⟩
      exact ⟨⟨⟨.inl hby.symm, hlast⟩, hby⟩, hto⟩

/-- Two grants of one permission, a revoke of another, and a permission
granted to oneself. -/
def grantsBlock : Block :=
  ⟨1, 0, "", [⟨⟨"alice@d", 0, 1,
    [.createDomain "d" "user", .createAccount "alice" "d", .createAccount "bob" "d",
      .grantPermission "bob@d" 0, .grantPermission "bob@d" 0, .grantPermission "bob@d" 1,
      .revokePermission "bob@d" 1, .grantPermission "alice@d" 2]⟩, []⟩]⟩

/-- Both accounts have their rows, with the permission that was granted twice
on each, and without the one that was revoked. -/
theorem grants_mirrored_grantsBlock :
    ∃ db, applyBlocks plainWire .empty [grantsBlock] = .ok db ∧
      db.account.rows.map AccountRow.id = ["alice@d", "bob@d"] ∧ ∀ a ∈ db.account.rows,
      (⟨some "alice@d", "bob@d", 0⟩ : PermissionGranted).stringify ∈ a.permissionsGranted ∧
      (⟨some "alice@d", "bob@d", 1⟩ : PermissionGranted).stringify ∉ a.permissionsGranted := by
  obtain ⟨db, h⟩ := exists_of_isOk (x := applyBlocks plainWire .empty [grantsBlock])
    (by decide +kernel)
  have hparties : PartiesExist (chainCommands [grantsBlock]) := by decide +kernel
  obtain ⟨hcreated, hiff, -, -⟩ := grants_mirrored plainWire [grantsBlock] db h hparties
  have hids : db.account.rows.map AccountRow.id = ["alice@d", "bob@d"] := by
    rw [← hcreated]
    decide
  refine ⟨db, h, hids, fun a ha => ⟨(hiff a ha "alice@d" "bob@d" 0).2 ⟨?_, by decide⟩, ?_⟩⟩
  · have hid : a.id ∈ ["alice@d", "bob@d"] := hids ▸ List.mem_map_of_mem ha
    simpa using hid
  · intro hmem
    have hlast := ((hiff a ha "alice@d" "bob@d" 1).1 hmem).2
    exact absurd hlast (by decide)

end Explorer.Iroha
