import Explorer.Fabric.UserService

/-!
# What registering a user promises

* `register_all_or_nothing_iff`: when a rejected request leaves everything as
  it was.
* `register_again`: a request that got as far as the CA cannot be repeated.
* `register_own_network_iff`: when a request keeps to the network of its token.
-/
namespace Explorer.Fabric.UserService

section
variable {o : Outcomes} {w : World} {c : FabricClient} {user : User}

/-! ## All or nothing -/

/-- A rejected request leaves every CA, wallet and connection as it was, and
after an accepted one the user is registered, in the wallet and connected. -/
structure AllOrNothing (user : User) (w : World) (r : Response × World) : Prop where
  rejected : r.1.status = 400 → r.2.networks = w.networks
  accepted : r.1.status = 200 → ∃ c, r.2.networks w.defaultNetwork = some c ∧
    (∃ request ∈ c.ca, request.enrollmentID = user.user) ∧ (c.lookup user.user).isSome ∧
      ∃ options, c.connection = some options ∧ options.identity = user.user

theorem registered_ne (c : FabricClient) (user : User) : (c.registered user).ca ≠ c.ca := by
  intro heq
  have hlen := congrArg List.length heq
  simp [FabricClient.registered] at hlen

theorem lookup_put (c : FabricClient) (label : String) (identity : Identity) :
    (c.put label identity).lookup label = some identity := by
  have hnone : (c.wallet.filter fun entry => entry.1 ≠ label).find? (fun entry => entry.1 = label) = none := by
    rw [List.find?_eq_none]
    intro entry hentry
    simpa using (List.mem_filter.1 hentry).2
  simp only [FabricClient.lookup, FabricClient.put, List.find?_append, hnone, Option.none_or]
  simp

/-- **A rejected request leaves everything as it was if and only if** nothing
fails once `ca.register` has succeeded. -/
theorem register_all_or_nothing_iff (o : Outcomes) (user : User) (w : World) :
    AllOrNothing user w (register o user w) ↔
      ∀ c, w.networks w.defaultNetwork = some c → Registers o c user →
        o.enrollFails = false ∧ o.putFails = false ∧ o.connectFails = false := by
  cases h : w.networks w.defaultNetwork with
  | none =>
    rw [register_without_client h]
    simp only [reduceCtorEq, false_imp_iff, implies_true, iff_true]
    exact ⟨fun _ => rfl, by simp⟩
  | some c =>
    obtain ⟨c', hleft, hl⟩ := register_spec o user h
    have hclient : (register o user w).2.networks w.defaultNetwork = some c' := hl.client
    have hchanged : c'.ca ≠ c.ca → (register o user w).1.status = 400 →
        ¬ AllOrNothing user w (register o user w) := by
      intro hca hstatus hall
      have heq := hclient
      rw [hall.rejected hstatus, h, Option.some.injEq] at heq
      exact hca (congrArg FabricClient.ca heq.symm)
    generalize hstatus : (register o user w).1.status = status at hleft hchanged
    cases hleft with
    | rejected hno =>
      refine ⟨fun _ c'' hc hr => absurd (Option.some.inj hc ▸ hr) hno, fun _ => ⟨fun _ => ?_, ?_⟩⟩
      · rw [hl.networks, ← h]
        exact Function.update_eq_self _ _
      · rw [hstatus]
        simp
    | unenrolled hr hf =>
      refine iff_of_false (hchanged (registered_ne c user) rfl) fun hnone => ?_
      obtain ⟨he, hp, -⟩ := hnone c rfl hr
      simp [he, hp] at hf
    | disconnected hr hf hc =>
      refine iff_of_false (hchanged (registered_ne c user) rfl) fun hnone => ?_
      obtain ⟨-, -, hc'⟩ := hnone c rfl hr
      simp [hc] at hc'
    | done hr hf hc =>
      have ⟨he, hp⟩ := Bool.or_eq_false_iff.1 hf
      refine iff_of_true ⟨?_, fun _ => ⟨_, hclient, ?_, ?_, ?_⟩⟩ fun _ _ _ => ⟨he, hp, hc⟩
      · rw [hstatus]
        simp
      · exact ⟨requestOf c user, List.mem_append_right _ (List.mem_singleton_self _), rfl⟩
      · have hput := lookup_put (c.registered user) user.user (identityOf o c)
        exact Option.isSome_iff_exists.2 ⟨_, hput⟩
      · exact ⟨_, rfl, rfl⟩

/-- Once `ca.register` has succeeded, the same request is rejected, whatever
came of the rest. -/
theorem register_again (o' : Outcomes) (h : w.networks w.defaultNetwork = some c) (hr : Registers o c user) :
    (register o' user (register o user w).2).1.status = 400 := by
  obtain ⟨c₁, hleft, hl⟩ := register_spec o user h
  have h₁ : (register o user w).2.networks (register o user w).2.defaultNetwork = some c₁ := by
    rw [hl.defaultNetwork]
    exact hl.client
  have hno : ¬ Registers o' c₁ user := by
    intro hr₁
    have hnew := hr₁.new
    have hput := lookup_put (c.registered user) user.user (identityOf o c)
    generalize (register o user w).1.status = status at hleft
    cases hleft with
    | rejected hno => exact hno hr
    | unenrolled =>
      have haccepted := hr₁.accepted
      simp [caAccepts, FabricClient.registered, requestOf] at haccepted
    | disconnected => exact absurd (hput.symm.trans hnew) (by simp)
    | done => exact absurd (hput.symm.trans hnew) (by simp)
  obtain ⟨c₂, hleft₂, -⟩ := register_spec o' user h₁
  generalize (register o' user (register o user w).2).1.status = status at hleft₂
  cases hleft₂ with
  | rejected => rfl
  | unenrolled hr₁ => exact absurd hr₁ hno
  | disconnected hr₁ => exact absurd hr₁ hno
  | done hr₁ => exact absurd hr₁ hno

end

/-- A client connected as its administrator. -/
def adminClient (organization mspId : String) : FabricClient where
  organization := organization
  fabricCaEnabled := true
  serverCert := some "tlsca"
  adminUser := "admin"
  mspId := mspId
  asLocalhost := true
  wallet := [("admin", ⟨"admin cert", mspId⟩)]
  ca := []
  connection := some ⟨"admin", none, true, none, none⟩

/-- Two networks, the first of which is the default. -/
def twoNetworks : World where
  networks name :=
    if name = "net1" then some (adminClient "Org1" "Org1MSP")
    else if name = "net2" then some (adminClient "Org2" "Org2MSP") else none
  defaultNetwork := "net1"
  accesses := []

def bob : User := ⟨"bob", some "bobpw", some "department1", some "client"⟩

def allSucceed : Outcomes := ⟨false, false, false, false, "", "bob cert"⟩

def connectFails : Outcomes := { allSucceed with connectFails := true, error := "Error: 14 UNAVAILABLE" }

/-- `gateway.connect` fails: the user is registered and in the wallet, the
gateway is disconnected, and the same request is rejected from then on. -/
theorem register_half_done :
    (register connectFails bob twoNetworks).1 =
        ⟨400, some "Error: Failed to reconnect: Error: 14 UNAVAILABLE"⟩ ∧
      ((register connectFails bob twoNetworks).2.networks "net1").map FabricClient.connection = some none ∧
      (register allSucceed bob (register connectFails bob twoNetworks).2).1 = ⟨400, some "Error: already exists"⟩ ∧
      ¬ AllOrNothing bob twoNetworks (register connectFails bob twoNetworks) := by
  refine ⟨by decide, by decide, by decide, fun h => ?_⟩
  have hsame := congrFun (h.rejected (by decide)) "net1"
  have hconnection := congrArg (Option.map FabricClient.connection) hsame
  revert hconnection
  decide

/-! ## The network of the token -/

structure Token where
  user : String
  network : Option String
  deriving DecidableEq, Repr

/-- A request behind the token check. -/
structure Request where
  userId : String
  network : Option String
  body : User
  deriving DecidableEq, Repr

/-- `authorization.split(' ')[1]` -/
def bearer (authorization : String) : Option String :=
  ((authorization.toList.splitOn ' ')[1]?).map String.ofList

/-- `verify` is `jwt.verify` with the secret of the configuration; `none` is
the answer 401.
mirrors app/middleware/auth-check.js:14-38 -/
def authCheck (verify : Option String → Option Token) (authorization : Option String) (body : User) :
    Option Request :=
  match authorization with
  | none => none
  | some authorization =>
    (verify (bearer authorization)).map fun decoded => ⟨decoded.user, decoded.network, body⟩

/-- The route and the proxy pass the body on, and nothing else of the request.
mirrors app/platform/fabric/rest/adminroutes.js:28-34, app/platform/fabric/Proxy.js:295-300 -/
def registerRoute (o : Outcomes) (req : Request) (w : World) : Response × World := register o req.body w

/-- `POST /api/register` -/
def postRegister (verify : Option String → Option Token) (o : Outcomes) (authorization : Option String)
    (body : User) (w : World) : Option (Response × World) :=
  (authCheck verify authorization body).map fun req => registerRoute o req w

/-- Nothing but the client of the network is read or changed. -/
structure KeepsTo (network : String) (w w' : World) : Prop where
  accesses : ∃ made, w'.accesses = w.accesses ++ made ∧ ∀ a ∈ made, a.1 = network
  others : ∀ other, other ≠ network → w'.networks other = w.networks other

theorem KeepsTo.refl (network : String) (w : World) : KeepsTo network w w :=
  ⟨⟨[], (List.append_nil _).symm, by simp⟩, fun _ _ => rfl⟩

theorem keepsTo_default (o : Outcomes) (user : User) (w : World) :
    KeepsTo w.defaultNetwork w (register o user w).2 := by
  cases h : w.networks w.defaultNetwork with
  | none =>
    rw [register_without_client h]
    exact .refl _ w
  | some c =>
    obtain ⟨c', -, hl⟩ := register_spec o user h
    obtain ⟨made, hmade, hall⟩ := hl.accesses
    refine ⟨⟨(w.defaultNetwork, .wallet) :: made, ?_, ?_⟩, ?_⟩
    · rw [hmade, World.log, List.append_assoc]
      rfl
    · intro a ha
      rcases List.mem_cons.1 ha with rfl | ha
      · rfl
      · exact hall a ha
    · intro other hother
      rw [hl.networks, Function.update_of_ne hother]
      rfl

/-- The wallet of the default network is read first. -/
theorem default_of_keepsTo {o : Outcomes} {user : User} {w : World} {c : FabricClient} {network : String}
    (h : w.networks w.defaultNetwork = some c) (hk : KeepsTo network w (register o user w).2) :
    network = w.defaultNetwork := by
  obtain ⟨c', -, hl⟩ := register_spec o user h
  obtain ⟨made, hmade, -⟩ := hl.accesses
  obtain ⟨made', hmade', hall'⟩ := hk.accesses
  rw [hmade, World.log, List.append_assoc] at hmade'
  have hmem : (w.defaultNetwork, Resource.wallet) ∈ made' := by
    rw [← List.append_cancel_left hmade']
    exact List.mem_append_left _ (List.mem_singleton_self _)
  exact (hall' _ hmem).symm

/-- **A request keeps to the network of its token if and only if** that is the
default network, or the default network has no client. -/
theorem register_own_network_iff (verify : Option String → Option Token) (o : Outcomes) (authorization : String)
    (body : User) (w : World) (token : Token) (htoken : verify (bearer authorization) = some token)
    (network : String) (hnetwork : token.network = some network) :
    ∃ r, postRegister verify o (some authorization) body w = some r ∧
      (KeepsTo network w r.2 ↔ network = w.defaultNetwork ∨ w.networks w.defaultNetwork = none) := by
  refine ⟨register o body w, ?_, ?_⟩
  · rw [postRegister, authCheck, htoken]
    rfl
  · constructor
    · intro hk
      cases h : w.networks w.defaultNetwork with
      | none => exact .inr rfl
      | some c => exact .inl (default_of_keepsTo h hk)
    · rintro (rfl | h)
      · exact keepsTo_default o body w
      · rw [register_without_client h]
        exact .refl network w

theorem register_own_network_iff_default :
    ∃ r, postRegister (fun token => if token = some "t1" then some ⟨"admin", some "net1"⟩ else none) allSucceed
        (some "bearer t1") bob twoNetworks = some r ∧ KeepsTo "net1" twoNetworks r.2 := by
  obtain ⟨r, hr, hkeeps⟩ := register_own_network_iff
    (fun token => if token = some "t1" then some ⟨"admin", some "net1"⟩ else none) allSucceed "bearer t1" bob
    twoNetworks ⟨"admin", some "net1"⟩ (by decide) "net1" rfl
  exact ⟨r, hr, hkeeps.2 (.inl rfl)⟩

/-- The token names the second network, the user is put into the wallet of the
first. -/
theorem register_other_network :
    ∃ r, postRegister (fun token => if token = some "t2" then some ⟨"admin", some "net2"⟩ else none) allSucceed
        (some "bearer t2") bob twoNetworks = some r ∧ r.1.status = 200 ∧
      (r.2.networks "net1").bind (fun c => c.lookup "bob") = some ⟨"bob cert", "Org1MSP"⟩ ∧
      (r.2.networks "net2").map FabricClient.wallet = (twoNetworks.networks "net2").map FabricClient.wallet ∧
      ¬ KeepsTo "net2" twoNetworks r.2 := by
  refine ⟨register allSucceed bob twoNetworks, by rfl, by decide, by decide, by decide, fun h => ?_⟩
  have hsame := congrArg (Option.map FabricClient.connection) (h.others "net1" (by decide))
  revert hsame
  decide

end Explorer.Fabric.UserService
