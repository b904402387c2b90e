import Explorer.Iroha.Growth
import Explorer.Iroha.ReplicaLive
import Explorer.Iroha.Requests

/-!
# Every run of a request

What holds of a request whatever its resolvers, its loaders and the sync
processes do, in whatever order.

A loader keeps a null that it has found. So a role that is looked up by name
before the block that creates it is applied stays null for the rest of the
request, and an object read later that names the role answers null for a field
that is declared without it.

* `Grows`: what a step does to the database and the loaders.
* `requests_fit_iff`: which answers fit the schema.
* `one_row_per_key`: all answers of a request read a key from one row.
-/
namespace Explorer.Iroha.Requests

open Explorer.Schema
open Graphql
open StreamServer (Chain)
open Replica (upTo)

variable {Bytes E : Type} {P : Packages} {S : Server Bytes} {C : Chain} {s s' : St P Bytes E}

/-- The keys of a batch find nothing where they are not stored. -/
def CleanBatch (S : Server Bytes) (s : St P Bytes E) : Lbl E → Prop
  | .resolve l i => ∀ keys ∈ (s.batches l)[i]?, CleanKeys S s.db l keys
  | _ => True

/-! ## What stays -/

/-- Roles are never dropped. -/
theorem roles_subset {W : Wire Bytes} {n m : Nat} {db db' : Db Bytes} (hnm : n ≤ m)
    (hn : applyBlocks W .empty (upTo C n) = .ok db) (hm : applyBlocks W .empty (upTo C m) = .ok db') :
    db.role.rows ⊆ db'.role.rows := by
  induction m, hnm using Nat.le_induction generalizing db' with
  | base =>
    rw [hn] at hm
    cases hm
    exact fun _ h => h
  | succ m _ ih =>
    rw [Replica.upTo_succ, Replica.applyBlocks_concat] at hm
    obtain ⟨db₁, h₁, hb⟩ := hm
    obtain ⟨-, -, -, hroles, -⟩ := applyBlock_grows hb
    exact List.Subset.trans (ih h₁) hroles.subset

/-- From `s` to `s'`. -/
structure Grows (s s' : St P Bytes E) : Prop where
  since : s'.request.since = s.request.since
  count : s.db.blockCount ≤ s'.db.blockCount
  value : ∀ l key v, s.value l key = some v → s'.value l key = some v

theorem Moment.grows {so : List Block → Db Bytes → Prop} (hg : Grows s s') (h : Moment S C s so) :
    Moment S C s' so := by
  obtain ⟨n, db, hn, hle, hdb, hso⟩ := h
  exact ⟨n, db, hg.since ▸ hn, Nat.le_trans hle hg.count, hdb, hso⟩

section
variable {value value' : (l : LoaderName) → Key l → Option (Option Js)} {db db' : Db Bytes} {now now' : Int} {v : Js}

theorem map_mono (hvalue : ∀ l key v, value l key = some v → value' l key = some v) {l : LoaderName} {key : Key l}
    (h : (value l key).map Value.ofOption = some v) : (value' l key).map Value.ofOption = some v := by
  obtain ⟨w, hw, rfl⟩ := Option.map_eq_some_iff.1 h
  rw [hvalue l key w hw]
  rfl

theorem mapM_mono (hvalue : ∀ l key v, value l key = some v → value' l key = some v) {names : List String}
    {vs : List (Option Js)} (hvs : (names.mapM fun name => value .role name) = some vs) :
    (names.mapM fun name => value' .role name) = some vs := by
  rw [mapM_eq_some_iff] at hvs ⊢
  rw [← hvs]
  refine List.map_congr_left fun name hname => ?_
  have hin : value .role name ∈ vs.map some := hvs ▸ List.mem_map_of_mem hname
  obtain ⟨w, -, hw⟩ := List.mem_map.1 hin
  rw [← hw, hvalue _ _ _ hw.symm]

theorem answerTransaction_mono (hvalue : ∀ l key v, value l key = some v → value' l key = some v)
    {transaction : TransactionObject} {f : TransactionField} (hkeys : transactionKeys transaction f ≠ [])
    (h : answerTransaction S db now value transaction f = some v) :
    answerTransaction S db' now' value' transaction f = some v := by
  cases f with
  | createdBy =>
    simp only [answerTransaction] at h ⊢
    split
    · rename_i hempty
      rwa [if_pos hempty] at h
    · rename_i hne
      rw [if_neg hne] at h
      exact map_mono hvalue h
  | _ => exact absurd rfl hkeys

theorem answerAccount_mono (hvalue : ∀ l key v, value l key = some v → value' l key = some v) {account : AccountRow}
    {f : AccountField} (hkeys : accountKeys account f ≠ []) (h : answerAccount S db now value account f = some v) :
    answerAccount S db' now' value' account f = some v := by
  cases f with
  | roles | permissions =>
    simp only [answerAccount, Option.map_eq_some_iff] at h ⊢
    obtain ⟨vs, hvs, rfl⟩ := h
    exact ⟨vs, mapM_mono hvalue hvs, rfl⟩
  | _ => exact absurd rfl hkeys

/-- An answer depends on the loaders only, and what they have found stays. -/
theorem answer_mono (hvalue : ∀ l key v, value l key = some v → value' l key = some v) {o : Object}
    {f : Field o.type} (hkeys : keysOf o f ≠ []) (h : answer S db now value o f = some v) :
    answer S db' now' value' o f = some v := by
  cases o with
  | query =>
    cases f with
    | blockByHeight | transactionByHash | accountById | peerByPublicKey | roleByName | domainById =>
      exact map_mono hvalue h
    | _ => exact absurd rfl hkeys
  | transaction transaction => exact answerTransaction_mono hvalue hkeys h
  | account account => exact answerAccount_mono hvalue hkeys h
  | domain domain =>
    cases f with
    | defaultRole => exact map_mono hvalue h
    | id => exact absurd rfl hkeys
  | _ => exact absurd rfl hkeys

/-- The roles that an answered object names are settled. -/
theorem settled_roles {o : Object} {f : Field o.type} (h : answer S db now value o f = some v) :
    ∀ name ∈ rolesOf o f, (value .role name).isSome = true := by
  have hmany : ∀ {names : List String} {vs : List (Option Js)}, (names.mapM fun name => value .role name) = some vs →
      ∀ name ∈ names, (value .role name).isSome = true := by
    intro names vs hvs name hname
    rw [mapM_eq_some_iff] at hvs
    have hin : value .role name ∈ vs.map some := hvs ▸ List.mem_map_of_mem hname
    obtain ⟨w, -, hw⟩ := List.mem_map.1 hin
    rw [← hw]
    rfl
  intro name hname
  cases o with
  | account account =>
    cases f with
    | roles | permissions =>
      obtain ⟨vs, hvs, -⟩ := Option.map_eq_some_iff.1 h
      exact hmany hvs name hname
    | _ => cases hname
  | domain domain =>
    cases f with
    | defaultRole =>
      obtain ⟨w, hw, -⟩ := Option.map_eq_some_iff.1 h
      rw [List.mem_singleton.1 hname, hw]
      rfl
    | id => cases hname
  | _ => cases hname

end

/-! ## The invariant -/

/-- What stays true of an answer. -/
structure Recorded (S : Server Bytes) (C : Chain) (s : St P Bytes E) (a : Answered) : Prop where
  object : Past S C s a.object
  conforms : Conforms S C s a.object a.field a.value
  settled : ∀ name ∈ rolesOf a.object a.field, (s.value .role name).isSome = true
  read : keysOf a.object a.field ≠ [] → ∀ db now, answer S db now s.value a.object a.field = some a.value

theorem Recorded.grows {a : Answered} (hg : Grows s s') (h : Recorded S C s a) : Recorded S C s' a := by
  have hsame : ∀ name ∈ rolesOf a.object a.field, s'.value .role name = s.value .role name := by
    intro name hname
    obtain ⟨v, hv⟩ := Option.isSome_iff_exists.1 (h.settled name hname)
    rw [hv, hg.value _ _ _ hv]
  refine ⟨h.object.grows hg, ⟨h.conforms.fits.trans ?_, fun o ho => (h.conforms.within o ho).grows hg⟩, ?_, ?_⟩
  · refine forall₂_congr fun name hname => ?_
    rw [hsame name hname]
  · intro name hname
    rw [hsame name hname]
    exact h.settled name hname
  · intro hkeys db now
    exact answer_mono hg.value hkeys (h.read hkeys db now)

/-- A name is looked up by `roleByName`, or a role has it. -/
def Known (s : St P Bytes E) (name : String) : Prop :=
  name ∈ s.request.lookups ∨ ∃ row ∈ s.db.role.rows, row.name = name

structure Inv (S : Server Bytes) (C : Chain) (s : St P Bytes E) : Prop where
  replica : Replica.Inv S.wire C s.replica
  since : s.request.since ≤ s.db.blockCount
  loaders : ∀ l, DataLoader.Inv (P l) (s.request.loaders l)
  found : Found S C s
  cached : ∀ name, (P .role).Cached (s.request.loaders .role) name → Known s name
  missed : ∀ name, s.value .role name = some none → name ∈ s.request.lookups
  pending : ∀ p ∈ s.request.pending, Past S C s p.object
  answers : ∀ a ∈ s.request.answers, Recorded S C s a

theorem Inv.present (h : Inv S C s) : Present S C s := ⟨h.since, h.replica.projected⟩

/-- So of the database now. -/
theorem Inv.now {so : List Block → Db Bytes → Prop} (h : Inv S C s) (hso : so (upTo C s.db.blockCount) s.db) :
    Moment S C s so := ⟨_, _, h.since, Nat.le_refl _, h.replica.projected, hso⟩

/-- What a resolver can be called with was genuine. -/
theorem Inv.met (h : Inv S C s) {o : Object} (ho : o ∈ s.request.met) : Past S C s o := by
  rcases List.mem_cons.1 ho with rfl | ho
  · exact h.now trivial
  · obtain ⟨a, ha, hin⟩ := List.mem_flatMap.1 ho
    exact (h.answers a ha).conforms.within o (within_of_mem_objects _ hin)

section
variable {name : String}

theorem eq_roleByName_of_queryKeys {f : QueryField} (h : ⟨.role, name⟩ ∈ queryKeys f) : f = .roleByName name := by
  cases f <;> simp_all [queryKeys]

theorem role_notMem_transactionKeys {transaction : TransactionObject} {f : TransactionField} :
    ⟨.role, name⟩ ∉ transactionKeys transaction f := by
  cases f with
  | createdBy =>
    simp only [transactionKeys]
    split <;> simp
  | _ => simp [transactionKeys]

theorem mem_accountRoles {account : AccountRow} {f : AccountField} (h : name ∈ accountRoles account f) :
    name ∈ account.roles := by
  cases f with
  | roles | permissions => exact h
  | _ => cases h

theorem eq_of_mem_domainRoles {domain : Domain} {f : DomainField} (h : name ∈ domainRoles domain f) :
    name = domain.defaultRole := by
  cases f with
  | defaultRole => exact List.mem_singleton.1 h
  | id => cases h

theorem mem_accountRoles_of_keys {account : AccountRow} {f : AccountField} (h : ⟨.role, name⟩ ∈ accountKeys account f) :
    name ∈ accountRoles account f := by
  cases f with
  | roles | permissions => simpa [accountKeys, accountRoles] using h
  | _ => simp [accountKeys] at h

theorem mem_domainRoles_of_keys {domain : Domain} {f : DomainField} (h : ⟨.role, name⟩ ∈ domainKeys domain f) :
    name ∈ domainRoles domain f := by
  cases f with
  | defaultRole => simpa [domainKeys, domainRoles] using h
  | id => simp [domainKeys] at h

end

/-- Roles that an object names are stored. -/
theorem known_role (hC : AcceptedChain S C) (h : Inv S C s) {o : Object} (ho : Past S C s o) {f : Field o.type}
    {name : String} (hname : name ∈ rolesOf o f) : ∃ row ∈ s.db.role.rows, row.name = name := by
  obtain ⟨n, db, -, hle, hdb, ho⟩ := ho
  have hroles : db.role.rows ⊆ s.db.role.rows := roles_subset hle hdb h.replica.projected
  cases o with
  | account account =>
    obtain ⟨row, hrow, rfl⟩ := roles_stored hdb (hC.referenced n) ho (mem_accountRoles hname)
    exact ⟨row, hroles hrow, rfl⟩
  | domain domain =>
    obtain ⟨row, hrow, hrowname⟩ := ho
    exact ⟨row, hroles hrow, hrowname.trans (eq_of_mem_domainRoles hname).symm⟩
  | _ => cases hname

/-- So are those that a resolver loads, but for the one of `roleByName`. -/
theorem known_keys (hC : AcceptedChain S C) (h : Inv S C s) {o : Object} (ho : Past S C s o) {f : Field o.type}
    {name : String} (hkey : ⟨.role, name⟩ ∈ keysOf o f) :
    name ∈ lookedUp o f ∨ ∃ row ∈ s.db.role.rows, row.name = name := by
  cases o with
  | query =>
    obtain rfl : f = QueryField.roleByName name := eq_roleByName_of_queryKeys hkey
    exact .inl (List.mem_singleton_self name)
  | transaction transaction => exact absurd hkey role_notMem_transactionKeys
  | account account => exact .inr (known_role hC h ho (mem_accountRoles_of_keys hkey))
  | domain domain => exact .inr (known_role hC h ho (mem_domainRoles_of_keys hkey))
  | _ => exact absurd hkey List.not_mem_nil

/-! ## Steps -/

theorem inv_withLoader {r : Request P} (h : ∀ l, DataLoader.Inv (P l) (r.loaders l)) {l : LoaderName}
    {loader : (P l).Loader} (hl : DataLoader.Inv (P l) loader) (l' : LoaderName) :
    DataLoader.Inv (P l') ((r.withLoader l loader).loaders l') := by
  unfold Request.withLoader
  by_cases h' : l' = l
  · subst h'
    simpa using hl
  · simpa [Function.update_of_ne h'] using h l'

/-- A value of a loader that was replaced. -/
theorem value_withLoader {r : Request P} {l l' : LoaderName} {loader : (P l).Loader} {key : Key l'}
    {v : Option Js} (h : (P l').value ((r.withLoader l loader).loaders l') key = some v) :
    (P l').value (r.loaders l') key = some v ∨ ∃ e : l' = l, (P l).value loader (e ▸ key) = some v := by
  unfold Request.withLoader at h
  by_cases h' : l' = l
  · subst h'
    exact .inr ⟨rfl, by simpa using h⟩
  · exact .inl (by simpa [Function.update_of_ne h'] using h)

/-- A loader that keeps what it has found is replaced. -/
theorem grows_withLoader {r : Request P} (hr : r.loaders = s.request.loaders)
    (hsince : r.since = s.request.since) {l : LoaderName} {loader : (P l).Loader}
    (hkeeps : ∀ key v, s.value l key = some v → (P l).value loader key = some v) :
    Grows s { s with request := r.withLoader l loader } := by
  refine ⟨hsince, Nat.le_refl _, fun l' key v hv => ?_⟩
  unfold St.value Request.withLoader
  by_cases h' : l' = l
  · subst h'
    simpa using hkeeps key v hv
  · simp only [Function.update_of_ne h', hr]
    exact hv

/-- A step of the request that leaves the queue and the answers of the
resolvers as they are, or drops some that wait. -/
theorem inv_withLoader_of_found (h : Inv S C s) {r : Request P} (hr : r.loaders = s.request.loaders)
    (hsince : r.since = s.request.since) (hlookups : r.lookups = s.request.lookups)
    (hpending : r.pending ⊆ s.request.pending) (hanswers : r.answers = s.request.answers) {l : LoaderName}
    {loader : (P l).Loader} (hl : DataLoader.Inv (P l) loader)
    (hkeeps : ∀ key v, s.value l key = some v → (P l).value loader key = some v)
    (hcached : ∀ key, (P l).Cached loader key → (P l).Cached (s.request.loaders l) key)
    (hnew : ∀ key v, (P l).value loader key = some v → s.value l key = some v ∨
      (P l).Cached (s.request.loaders l) key ∧ v = stored S s.db l key) :
    Inv S C { s with request := r.withLoader l loader } := by
  have hg := grows_withLoader hr hsince hkeeps
  have hknown : ∀ name, (P .role).Cached (s.request.loaders .role) name →
      Known ({ s with request := r.withLoader l loader } : St P Bytes E) name := by
    intro name hname
    rcases h.cached name hname with hin | hrow
    · exact .inl (hlookups ▸ hin)
    · exact .inr hrow
  have hvalue : ∀ l' key v, ({ s with request := r.withLoader l loader } : St P Bytes E).value l' key = some v →
      s.value l' key = some v ∨ (P l').Cached (s.request.loaders l') key ∧ v = stored S s.db l' key := by
    intro l' key v hv
    rcases value_withLoader hv with hv | ⟨rfl, hv⟩
    · exact .inl (by rwa [hr] at hv)
    · exact hnew key v hv
  refine ⟨h.replica, hg.since ▸ h.since, inv_withLoader (hr ▸ h.loaders) hl, fun l' key v hv => ?_,
    fun name hname => ?_, fun name hname => ?_, fun p hp => (h.pending p (hpending hp)).grows hg, fun a ha => ?_⟩
  · rcases hvalue l' key v hv with hv | ⟨-, rfl⟩
    · exact (h.found l' key v hv).grows hg
    · exact Moment.grows hg (h.now rfl)
  · refine hknown name ?_
    unfold Request.withLoader at hname
    by_cases h' : LoaderName.role = l
    · subst h'
      exact hcached name (by simpa using hname)
    · simpa [Function.update_of_ne h', hr] using hname
  · show name ∈ r.lookups
    rw [hlookups]
    rcases hvalue .role name none hname with hv | ⟨hin, hnone⟩
    · exact h.missed name hv
    · rcases h.cached name hin with hlookup | ⟨row, hrow, rfl⟩
      · exact hlookup
      · rw [stored_role hrow] at hnone
        cases hnone
  · exact (h.answers a (hanswers ▸ ha)).grows hg

theorem inv_replica (h : Inv S C s) {l : Replica.Lbl E} {replica : Replica.St Bytes E}
    (hs : Replica.step S.wire C s.replica l = some replica) : Inv S C { s with replica := replica } := by
  have hdb : s.db.blockCount ≤ replica.sync.db.blockCount ∧ s.db.role.rows ⊆ replica.sync.db.role.rows := by
    rcases Replica.db_step h.replica hs with hsame | ⟨block, hb⟩
    · rw [hsame]
      exact ⟨Nat.le_refl _, fun _ hrow => hrow⟩
    · obtain ⟨-, hrows, -, -⟩ := applyBlock_spec hb
      obtain ⟨-, -, -, hroles, -⟩ := applyBlock_grows hb
      exact ⟨by simp [St.db, Sync.blockCount_eq, hrows], hroles.subset⟩
  have hg : Grows s { s with replica := replica } := ⟨rfl, hdb.1, fun _ _ _ hv => hv⟩
  refine ⟨Replica.inv_step h.replica hs, Nat.le_trans h.since hdb.1, h.loaders,
    fun l key v hv => (h.found l key v hv).grows hg, fun name hname => ?_, h.missed,
    fun p hp => (h.pending p hp).grows hg, fun a ha => (h.answers a ha).grows hg⟩
  rcases h.cached name hname with hin | ⟨row, hrow, hname⟩
  · exact .inl hin
  · exact .inr ⟨row, hdb.2 hrow, hname⟩

theorem inv_call (hP : P.Documented) (hC : AcceptedChain S C) (h : Inv S C s) {o : Object} (ho : o ∈ s.request.met) (f : Field o.type) :
    Inv S C { s with request := s.request.call o f } := by
  have hvalue : ∀ l key, ({ s with request := s.request.call o f } : St P Bytes E).value l key = s.value l key := by
    intro l key
    exact value_loadMany hP l key
  have hg : Grows s { s with request := s.request.call o f } :=
    ⟨rfl, Nat.le_refl _, fun l key v hv => by rwa [hvalue]⟩
  refine ⟨h.replica, h.since, inv_loadMany hP h.loaders, fun l key v hv => ?_, fun name hname => ?_,
    fun name hname => ?_, fun p hp => ?_, fun a ha => (h.answers a ha).grows hg⟩
  · rw [hvalue] at hv
    exact (h.found l key v hv).grows hg
  · rcases (cached_loadMany hP).1 hname with hname | hkey
    · rcases h.cached name hname with hin | hrow
      · exact .inl (List.mem_append_left _ hin)
      · exact .inr hrow
    · rcases known_keys hC h (h.met ho) hkey with hin | hrow
      · exact .inl (List.mem_append_right _ hin)
      · exact .inr hrow
  · rw [hvalue] at hname
    exact List.mem_append_left _ (h.missed name hname)
  · rcases List.mem_append.1 hp with hp | hp
    · exact (h.pending p hp).grows hg
    · rw [List.mem_singleton.1 hp]
      exact (h.met ho).grows hg

theorem inv_answer (hC : AcceptedChain S C) (h : Inv S C s) {j : Nat} {now : Int} {p : Pending} {v : Js}
    (hp : s.request.pending[j]? = some p) (hv : answer S s.db now s.value p.object p.field = some v) :
    Inv S C { s with request := { s.request with
      pending := s.request.pending.eraseIdx j
      answers := s.request.answers ++ [⟨p.object, p.field, v⟩] } } := by
  have hobject := h.pending p (List.mem_of_getElem? hp)
  have hg : Grows s { s with request := { s.request with
      pending := s.request.pending.eraseIdx j
      answers := s.request.answers ++ [⟨p.object, p.field, v⟩] } } := ⟨rfl, Nat.le_refl _, fun _ _ _ hv => hv⟩
  refine ⟨h.replica, h.since, h.loaders, h.found, h.cached, h.missed,
    fun q hq => h.pending q (List.mem_of_mem_eraseIdx hq), fun a ha => ?_⟩
  rcases List.mem_append.1 ha with ha | ha
  · exact (h.answers a ha).grows hg
  · rw [List.mem_singleton.1 ha]
    obtain ⟨hfits, hwithin⟩ := answer_conforms hC h.present h.found hobject hv
    exact ⟨hobject, ⟨hfits, hwithin⟩, settled_roles hv, fun hkeys _ _ => answer_mono (fun _ _ _ hv => hv) hkeys hv⟩

/-- **One step.** -/
theorem inv_step (hP : P.Documented) (hC : AcceptedChain S C) (h : Inv S C s) {l : Lbl E}
    (hclean : CleanBatch S s l) (hs : step S C s l = some s') : Inv S C s' := by
  cases l with
  | replica l =>
    obtain ⟨replica, hstep, rfl⟩ := Option.map_eq_some_iff.1 hs
    exact inv_replica h hstep
  | call o f =>
    simp only [step] at hs
    split at hs
    · rename_i ho
      cases hs
      exact inv_call hP hC h ho f
    · cases hs
  | dispatch l =>
    simp only [step] at hs
    split at hs
    · cases hs
    · cases hs
      refine inv_withLoader_of_found h rfl rfl rfl (fun _ hp => hp) rfl ((h.loaders l).dispatch (hP l))
        (fun key v hv => ?_) (fun key hkey => ((hP l).cached_dispatch _ key).1 hkey) fun key v hv => .inl ?_
      · rw [(hP l).value_dispatch]
        exact hv
      · rwa [(hP l).value_dispatch] at hv
  | resolve l i =>
    obtain ⟨keys, hkeys, rfl⟩ := Option.map_eq_some_iff.1 hs
    have hrows : batch S s.db l keys = keys.map (stored S s.db l) :=
      batch_eq (hC.accepted h.replica.projected) (hclean keys hkeys)
    rw [hrows]
    have hlen : (keys.map (stored S s.db l)).length = keys.length := List.length_map _
    refine inv_withLoader_of_found h rfl rfl rfl (fun _ hp => hp) rfl ((h.loaders l).resolve (hP l) hkeys hlen)
      (fun key v hv => (h.loaders l).value_resolve_of_value (hP l) hkeys hlen hv)
      (fun key hkey => ((hP l).cached_resolve _ _ _ key).1 hkey) fun key v hv => ?_
    rcases (h.loaders l).value_resolve_map (hP l) hkeys hv with hv | ⟨hkey, rfl⟩
    · exact .inl hv
    · exact .inr ⟨((h.loaders l).mem_batch hkeys hkey).1, rfl⟩
  | reject l i =>
    obtain ⟨keys, hkeys, rfl⟩ := Option.map_eq_some_iff.1 hs
    refine inv_withLoader_of_found (r := s.request.fail l keys) h rfl rfl rfl (List.filter_subset_self _) rfl
      ((h.loaders l).reject (hP l) hkeys) (fun key v hv => ?_)
      (fun key hkey => (((hP l).cached_reject _ i keys hkeys key).1 hkey).1) fun key v hv => .inl ?_
    · rw [(hP l).value_reject]
      exact hv
    · rwa [(hP l).value_reject] at hv
  | answer j now =>
    simp only [step, Option.bind_eq_some_iff, Option.map_eq_some_iff] at hs
    obtain ⟨p, hp, v, hv, rfl⟩ := hs
    exact inv_answer hC h hp hv
  | throw j =>
    simp only [step, Option.bind_eq_some_iff, Option.ite_none_right_eq_some, Option.some.injEq] at hs
    obtain ⟨p, -, -, rfl⟩ := hs
    have hg : Grows s { s with request := { s.request with pending := s.request.pending.eraseIdx j } } :=
      ⟨rfl, Nat.le_refl _, fun _ _ _ hv => hv⟩
    exact ⟨h.replica, h.since, h.loaders, h.found, h.cached, h.missed,
      fun q hq => h.pending q (List.mem_of_mem_eraseIdx hq), fun a ha => (h.answers a ha).grows hg⟩

theorem inv_init (hP : P.Documented) (hs : Init P S C s) : Inv S C s := by
  obtain ⟨replica, hr, rfl⟩ := hs
  have hvalue : ∀ l key, (fork P replica).value l key = none := fun l => (hP l).fresh.value
  refine ⟨(Replica.inv_inductive S.wire C).reachable replica hr, Nat.le_refl _,
    fun l => DataLoader.inv_fresh (hP l), fun l key _ hv => ?_, fun name hname => ?_, fun name hname => ?_,
    fun _ hp => ?_, fun _ ha => ?_⟩
  · rw [hvalue l key] at hv
    cases hv
  · exact absurd hname ((hP .role).fresh.cached name)
  · rw [hvalue .role name] at hname
    cases hname
  · cases hp
  · cases ha

theorem inv_inductive (hP : P.Documented) (hC : AcceptedChain S C) :
    ((lts P S C E).restrict (CleanBatch S)).Inductive (Inv S C) where
  init _ hs := inv_init hP hs
  step _ _ _ h hs := inv_step hP hC h hs.1 hs.2

/-! ## Results -/

/-- **Which answers fit the schema**, in every run: an answer does not if and
only if its object names a role that the request was told is null. That is a
name it called `roleByName` with before the role was created, and there is no
such name if no block was applied since the request began. -/
theorem requests_fit_iff (P : Packages) (hP : P.Documented) (S : Server Bytes) (C : Chain) (hC : AcceptedChain S C)
    (s : St P Bytes E) (hr : ((lts P S C E).restrict (CleanBatch S)).Reachable s) :
    (∀ a ∈ s.request.answers, (Fits Object.type (fun _ => True) (fieldType a.object.type a.field) a.value ↔
        ∀ name ∈ rolesOf a.object a.field, s.value .role name ≠ some none)) ∧
      (∀ name, s.value .role name = some none → name ∈ s.request.lookups ∧
        Moment S C s fun _ db => ∀ row ∈ db.role.rows, row.name ≠ name) ∧
      (s.db.blockCount = s.request.since → ∀ a ∈ s.request.answers,
        Fits Object.type (fun _ => True) (fieldType a.object.type a.field) a.value) := by
  have h := (inv_inductive hP hC).reachable s hr
  have hmissed : ∀ name, s.value .role name = some none →
      Moment S C s fun _ db => ∀ row ∈ db.role.rows, row.name ≠ name := by
    intro name hname
    obtain ⟨n, db, hn, hle, hdb, hnone⟩ := h.found .role name none hname
    refine ⟨n, db, hn, hle, hdb, fun row hrow hrowname => ?_⟩
    subst hrowname
    rw [stored_role hrow] at hnone
    cases hnone
  refine ⟨fun a ha => (h.answers a ha).conforms.fits, fun name hname => ⟨h.missed name hname, hmissed name hname⟩,
    fun hsame a ha => ?_⟩
  rw [(h.answers a ha).conforms.fits]
  intro name hname hnull
  -- there is one database, and the role is stored in it
  obtain ⟨n, db, hn, hle, hdb, hnone⟩ := hmissed name hnull
  obtain ⟨row, hrow, hrowname⟩ := known_role hC h (h.answers a ha).object hname
  have hpresent := h.replica.projected
  have hcount : n = s.db.blockCount := by omega
  rw [hcount, show applyBlocks S.wire .empty (upTo C s.db.blockCount) = .ok s.db from hpresent] at hdb
  cases hdb
  exact hnone row hrow hrowname

/-- **One row for each key**, in every run: a key of a loader waits at most
once, and not when it is settled, and all answers of a request are what the
resolvers make of one assignment of rows to keys, each of which was stored at
some time since the request began. -/
theorem one_row_per_key (P : Packages) (hP : P.Documented) (S : Server Bytes) (C : Chain) (hC : AcceptedChain S C)
    (s : St P Bytes E) (hr : ((lts P S C E).restrict (CleanBatch S)).Reachable s) :
    (∀ l, (DataLoader.waiting (P l) (s.request.loaders l)).Nodup ∧
      ∀ key ∈ DataLoader.waiting (P l) (s.request.loaders l), s.value l key = none) ∧
      ∃ rows : (l : LoaderName) → Key l → Option (Option Js),
        (∀ a ∈ s.request.answers, keysOf a.object a.field ≠ [] →
          ∀ db now, answer S db now rows a.object a.field = some a.value) ∧
        ∀ l key v, rows l key = some v → Moment S C s fun _ db => v = stored S db l key := by
  have h := (inv_inductive hP hC).reachable s hr
  exact ⟨fun l => ⟨(h.loaders l).nodup, (h.loaders l).unsettled⟩, s.value, fun a ha => (h.answers a ha).read, h.found⟩

/-! ## A role that is created during a request -/

instance (S : Server Bytes) (db : Db Bytes) (l : LoaderName) (keys : List (Key l)) :
    Decidable (CleanKeys S db l keys) := by
  cases l <;> unfold CleanKeys
  · infer_instance
  all_goals
    unfold Loader.Clean
    infer_instance

/-- The loaders of a request remember what they were asked for. -/
def memo : Packages := fun l => DataLoader.memo (Key l) (Option Js)

theorem documented_memo : memo.Documented := fun _ => DataLoader.documented_memo

instance (S : Server Bytes) (s : St P Bytes E) (l : Lbl E) : Decidable (CleanBatch S s l) := by
  cases l <;> unfold CleanBatch <;> infer_instance

/-- Block 2 creates a role and appends it to `alice@d`. -/
def lateRole : Chain where
  block
    | 1 => ⟨1, 0, "", [⟨⟨"alice@d", 0, 1,
        [.createRole "user" [0], .createDomain "d" "user", .createAccount "alice" "d"]⟩, []⟩]⟩
    | 2 => ⟨2, 0, "", [⟨⟨"alice@d", 1, 1, [.createRole "late" [1], .appendRole "alice@d" "late"]⟩, []⟩]⟩
    | h => ⟨h, 0, "", []⟩
  height h := by split <;> rfl

/-- All transactions are in the first two blocks. -/
theorem transactions_lateRole (n : Nat) :
    chainTransactions (upTo lateRole (n + 2)) = chainTransactions (upTo lateRole 2) := by
  induction n with
  | zero => rfl
  | succ n ih =>
    have hblank : lateRole.block (n + 3) = ⟨n + 3, 0, "", []⟩ := rfl
    rw [Replica.upTo_succ, hblank, ← ih]
    simp [chainTransactions]

theorem acceptedChain_lateRole : AcceptedChain node lateRole := by
  have hfirst : ∀ n < 3, Referenced (upTo lateRole n) ∧
      (∀ x ∈ chainCommands (upTo lateRole n), PermissionsNamed node x.command) ∧
      ∀ x ∈ chainTransactions (upTo lateRole n), HasDomain x.2 := by
    decide +kernel
  have hall : ∀ n, Referenced (upTo lateRole n) ∧
      (∀ x ∈ chainCommands (upTo lateRole n), PermissionsNamed node x.command) ∧
      ∀ x ∈ chainTransactions (upTo lateRole n), HasDomain x.2 := by
    intro n
    by_cases hn : n < 3
    · exact hfirst n hn
    · obtain ⟨k, rfl⟩ : ∃ k, n = k + 2 := ⟨n - 2, by omega⟩
      have htx := transactions_lateRole k
      have hcommands : chainCommands (upTo lateRole (k + 2)) = chainCommands (upTo lateRole 2) := by
        rw [chainCommands_eq, chainCommands_eq, htx]
      obtain ⟨href, hnamed, hdomains⟩ := hfirst 2 (by decide)
      rw [hcommands, htx]
      exact ⟨⟨hcommands ▸ href.commands, htx ▸ href.creators⟩, hnamed, hdomains⟩
  exact ⟨fun n => (hall n).1, fun n => (hall n).2.1, fun n => (hall n).2.2⟩

/-- `roleByName` before block 2 is applied, and the account with its roles
after it. -/
def beforeAndAfter : List (Lbl String) :=
  [.call .query (QueryField.roleByName "late"), .dispatch .role, .resolve .role 0, .answer 0 0,
    .replica (.subscribe 0), .replica .commit, .replica (.deliver 0), .replica (.sync (.commit 0)),
    .call .query (QueryField.accountById "alice@d"), .dispatch .account, .resolve .account 0, .answer 0 0,
    .call (.account ⟨1, "alice@d", 1, ["user", "late"], []⟩) AccountField.roles,
    .dispatch .role, .resolve .role 0, .answer 0 0]

/-- Block 1 is applied when the request begins. -/
def appliedOne : Option (Replica.St (Block ⊕ Transaction) String) :=
  LTS.exec (Replica.step plainWire lateRole) (Replica.fresh 1) (Replica.syncAlone 0 1)

theorem exec_beforeAndAfter :
    ∃ replica s, appliedOne = some replica ∧
      LTS.exec (LTS.guarded (CleanBatch node) (step node lateRole)) (fork memo replica) beforeAndAfter = some s ∧
      ((lts memo node lateRole String).restrict (CleanBatch node)).Reachable s := by
  have hrun : (appliedOne.bind fun replica => LTS.exec (LTS.guarded (CleanBatch node) (step node lateRole))
      (fork memo replica) beforeAndAfter).isSome = true := by
    decide +kernel
  obtain ⟨s, hs⟩ := Option.isSome_iff_exists.1 hrun
  obtain ⟨replica, hreplica, hs⟩ := Option.bind_eq_some_iff.1 hs
  have hr : (Replica.lts plainWire lateRole String).Reachable replica := LTS.reachable_of_exec ⟨1, rfl⟩ hreplica
  exact ⟨replica, s, hreplica, hs, LTS.restrict_reachable_of_exec ⟨replica, hr, rfl⟩ hs⟩

/-- The name is looked up too early. -/
theorem null_beforeAndAfter {replica : Replica.St (Block ⊕ Transaction) String}
    {s : St memo (Block ⊕ Transaction) String} (hreplica : appliedOne = some replica)
    (hs : LTS.exec (LTS.guarded (CleanBatch node) (step node lateRole)) (fork memo replica) beforeAndAfter = some s) :
    s.value .role "late" = some none := by
  have hend : ∀ replica ∈ appliedOne, ∀ s ∈ LTS.exec (LTS.guarded (CleanBatch node) (step node lateRole))
      (fork memo replica) beforeAndAfter, (s.value .role "late").map Option.isNone = some true := by
    decide +kernel
  obtain ⟨v, hv, hnone⟩ := Option.map_eq_some_iff.1 (hend replica hreplica s hs)
  rw [Option.isNone_iff_eq_none] at hnone
  rw [hv, hnone]

/-- The roles of the account do not fit. -/
theorem requests_fit_iff_beforeAndAfter :
    ∃ replica s, appliedOne = some replica ∧
      LTS.exec (LTS.guarded (CleanBatch node) (step node lateRole)) (fork memo replica) beforeAndAfter = some s ∧
      (∀ a ∈ s.request.answers.take 2,
        Fits Object.type (fun _ => True) (fieldType a.object.type a.field) a.value) ∧
      s.request.answers.length = 3 ∧ ∀ a ∈ s.request.answers.drop 2,
        ¬ Fits Object.type (fun _ => True) (fieldType a.object.type a.field) a.value := by
  obtain ⟨replica, s, hreplica, hs, hr⟩ := exec_beforeAndAfter
  have hend : ∀ replica ∈ appliedOne, ∀ s ∈ LTS.exec (LTS.guarded (CleanBatch node) (step node lateRole))
      (fork memo replica) beforeAndAfter, (∀ a ∈ s.request.answers.take 2, rolesOf a.object a.field = []) ∧
        s.request.answers.length = 3 ∧ (∀ a ∈ s.request.answers.drop 2, "late" ∈ rolesOf a.object a.field) := by
    decide +kernel
  obtain ⟨hfirst, hlength, hlast⟩ := hend replica hreplica s hs
  obtain ⟨hfits, -⟩ := requests_fit_iff memo documented_memo node lateRole acceptedChain_lateRole s hr
  refine ⟨replica, s, hreplica, hs, fun a ha => ?_, hlength, fun a ha => ?_⟩
  · rw [hfits a (List.mem_of_mem_take ha), hfirst a ha]
    simp
  · rw [hfits a (List.mem_of_mem_drop ha)]
    exact fun hno => hno "late" (hlast a ha) (null_beforeAndAfter hreplica hs)

/-- The name that was not found is not asked for again. -/
theorem one_row_per_key_beforeAndAfter :
    ∃ replica s, appliedOne = some replica ∧
      LTS.exec (LTS.guarded (CleanBatch node) (step node lateRole)) (fork memo replica) beforeAndAfter = some s ∧
      s.value .role "late" = some none ∧ "late" ∉ DataLoader.waiting (memo .role) (s.request.loaders .role) := by
  obtain ⟨replica, s, hreplica, hs, hr⟩ := exec_beforeAndAfter
  have hnull := null_beforeAndAfter hreplica hs
  obtain ⟨hplaces, -⟩ := one_row_per_key memo documented_memo node lateRole acceptedChain_lateRole s hr
  refine ⟨replica, s, hreplica, hs, hnull, fun hin => ?_⟩
  rw [(hplaces .role).2 "late" hin] at hnull
  cases hnull

end Explorer.Iroha.Requests
