import Mathlib.Logic.Function.Basic
import Explorer.Core.Program

/-!
# Registering a user

`POST /register` goes through the token check, the route, the proxy and
`UserService.register`, which does four things to the outside one after the
other: `ca.register`, `ca.enroll`, `wallet.put` and `gateway.connect`. None is
taken back when a later one fails, the gateway is disconnected before it is
connected again, and every client is `platform.getClient()` without a network.

A program is a function of the state of all networks; `accesses` is the record
of what it reads and changes, by network. `Outcomes` is what the outside
answers. A file of a certificate that cannot be read is `none`.

* `register_spec`: what a request leaves.
-/
namespace Explorer.Fabric.UserService

open Program

structure Identity where
  certificate : String
  mspId : String
  deriving DecidableEq, Repr

structure ConnectionOptions where
  identity : String
  mspId : Option String
  asLocalhost : Bool
  clientTlsIdentity : Option String
  commitTimeout : Option Nat
  deriving DecidableEq, Repr

structure RegisterRequest where
  enrollmentID : String
  enrollmentSecret : Option String
  affiliation : String
  role : Option String
  deriving DecidableEq, Repr

/-- A `FabricClient` with its `FabricGateway`: its configuration, its wallet,
what is registered at its CA, and what its gateway is connected with. -/
structure FabricClient where
  organization : String
  fabricCaEnabled : Bool
  serverCert : Option String
  adminUser : String
  mspId : String
  asLocalhost : Bool
  wallet : List (String × Identity)
  ca : List RegisterRequest
  connection : Option ConnectionOptions
  deriving DecidableEq, Repr

inductive Resource where
  | wallet
  | ca
  | gateway
  deriving DecidableEq, Repr

structure World where
  networks : String → Option FabricClient
  defaultNetwork : String
  accesses : List (String × Resource)

/-- The body of the request, `new User(req.body).asJson()`. -/
structure User where
  user : String
  password : Option String
  affiliation : Option String
  roles : Option String
  deriving DecidableEq, Repr

/-- Which of the calls are rejected, with what text, and the certificate of an
enrollment. -/
structure Outcomes where
  registerFails : Bool
  enrollFails : Bool
  putFails : Bool
  connectFails : Bool
  error : String
  certificate : String

structure Response where
  status : Nat
  message : Option String
  deriving DecidableEq, Repr

abbrev Api := Program String World

/-! ## The network's client -/

/-- The network whose client this is.
mirrors app/platform/fabric/Platform.js:222-225 -/
def getClient (networkName : Option String) : Api String := do
  let w ← get
  let name := if networkName.getD "" = "" then w.defaultNetwork else networkName.getD ""
  match w.networks name with
  | some _ => pure name
  | none => throw "TypeError: Cannot read property 'instance' of undefined"

/-- Reads the client of a network. -/
def clientOf (network : String) : Api FabricClient := do
  match (← get).networks network with
  | some client => pure client
  | none => throw "TypeError: Cannot read property 'fabricGateway' of undefined"

def access (network : String) (resource : Resource) : Api Unit :=
  modify fun w => { w with accesses := w.accesses ++ [(network, resource)] }

/-- Changes the client of a network. -/
def change (network : String) (f : FabricClient → FabricClient) : Api Unit :=
  modify fun w => { w with networks := Function.update w.networks network ((w.networks network).map f) }

/-! ## Calls to the outside -/

variable (o : Outcomes)

def walletGet (network label : String) : Api (Option Identity) := do
  access network .wallet
  return ((← clientOf network).wallet.find? fun entry => entry.1 = label).map Prod.snd

def walletPut (network label : String) (identity : Identity) : Api Unit := do
  access network .wallet
  if o.putFails then throw o.error
  change network fun client =>
    { client with wallet := client.wallet.filter (fun entry => entry.1 ≠ label) ++ [(label, identity)] }

/-- A CA rejects an id that is registered, and a call without a registrar. -/
def caRegister (network : String) (request : RegisterRequest) (registrar : Option Identity) : Api Unit := do
  access network .ca
  let client ← clientOf network
  if o.registerFails || registrar.isNone || client.ca.any (fun r => r.enrollmentID = request.enrollmentID) then
    throw o.error
  change network fun client => { client with ca := client.ca ++ [request] }

/-- The certificate of the enrollment. -/
def caEnroll (network : String) : Api String := do
  access network .ca
  if o.enrollFails then throw o.error
  return o.certificate

def gatewayDisconnect (network : String) : Api Unit := do
  access network .gateway
  change network fun client => { client with connection := none }

def gatewayConnect (network : String) (options : ConnectionOptions) : Api Unit := do
  access network .gateway
  if o.connectFails then throw o.error
  change network fun client => { client with connection := some options }

/-! ## `FabricGateway` -/

def readServerCert (network : String) : Api String := do
  match (← clientOf network).serverCert with
  | some cert => return cert
  | none => throw o.error

/-- mirrors app/platform/fabric/gateway/FabricGateway.js:195-235 -/
def gatewayEnrollCaIdentity (network id : String) : Api (Option Identity) := do
  let client ← clientOf network
  if client.fabricCaEnabled then
    tryCatch
      (do
        let _ ← readServerCert o network
        let certificate ← caEnroll o network
        let identity : Identity := ⟨certificate, client.mspId⟩
        walletPut o network id identity
        return some identity)
      (fun _ => return none)
  else return none

/-- mirrors app/platform/fabric/gateway/FabricGateway.js:237-246 -/
def getUserContext (network user : String) : Api (Option Identity) := walletGet network user

/-! ## `UserService` -/

/-- mirrors app/platform/fabric/service/UserService.js:193-217 -/
def enrollCaIdentity (user : User) : Api (Option Identity) := do
  let network ← getClient none
  match ← walletGet network user.user with
  | some identity => return some identity
  | none =>
    tryCatch (gatewayEnrollCaIdentity o network user.user)
      fun err => throw ("Error: Failed to enroll user: " ++ user.user ++ " with error: " ++ err)

/-- mirrors app/platform/fabric/service/UserService.js:226-256 -/
def reconnectGw (user : User) (identity : Option Identity) : Api Unit :=
  tryCatch
    (do
      let network ← getClient none
      let client ← clientOf network
      match identity with
      | none => throw "TypeError: Cannot read property 'mspId' of null"
      | some identity =>
        gatewayDisconnect network
        gatewayConnect o network
          ⟨user.user, some identity.mspId, client.asLocalhost, some user.user, some 100⟩)
    fun err => throw ("Error: Failed to reconnect: " ++ err)

/-- The body of the `try`.
mirrors app/platform/fabric/service/UserService.js:111-147 -/
def registerUser (user : User) : Api Unit := do
  let network ← getClient none
  let client ← clientOf network
  match ← walletGet network user.user with
  | some _ => throw "Error: already exists"
  | none =>
    if client.fabricCaEnabled then
      let _ ← readServerCert o network
      let adminUserObj ← getUserContext network client.adminUser
      let affiliation := client.organization.toLower ++ "." ++ user.affiliation.getD ""
      caRegister o network ⟨user.user, user.password, affiliation, user.roles⟩ adminUserObj
    else throw "Error: did not register with CA"
    let identity ← enrollCaIdentity o user
    reconnectGw o user identity

/-- mirrors app/platform/fabric/service/UserService.js:105-157 -/
def register (user : User) (w : World) : Response × World :=
  match (registerUser o user).run w with
  | (.ok (), w) => (⟨200, none⟩, w)
  | (.error message, w) => (⟨400, some message⟩, w)

/-! ## What a program leaves -/

def World.log (w : World) (network : String) (resource : Resource) : World :=
  { w with accesses := w.accesses ++ [(network, resource)] }

def World.set (w : World) (network : String) (c : FabricClient) : World :=
  { w with networks := Function.update w.networks network (some c) }

/-- The client of the network is `c` now, and nothing else is changed or
looked at. -/
structure Leaves (network : String) (c : FabricClient) (w w' : World) : Prop where
  networks : w'.networks = Function.update w.networks network (some c)
  defaultNetwork : w'.defaultNetwork = w.defaultNetwork
  accesses : ∃ made, w'.accesses = w.accesses ++ made ∧ ∀ a ∈ made, a.1 = network

section
variable {network : String} {c c' : FabricClient} {w w' : World}

theorem Leaves.refl (h : w.networks network = some c) : Leaves network c w w :=
  ⟨by rw [← h, Function.update_eq_self], rfl, [], (List.append_nil _).symm, by simp⟩

theorem Leaves.log (h : Leaves network c w w') (resource : Resource) :
    Leaves network c w (w'.log network resource) := by
  obtain ⟨made, hmade, hall⟩ := h.accesses
  refine ⟨h.networks, h.defaultNetwork, made ++ [(network, resource)], ?_, ?_⟩
  · rw [World.log, hmade, List.append_assoc]
  · intro a ha
    rcases List.mem_append.1 ha with ha | ha
    · exact hall a ha
    · rw [List.mem_singleton.1 ha]

theorem Leaves.set (h : Leaves network c w w') (c' : FabricClient) : Leaves network c' w (w'.set network c') :=
  ⟨by rw [World.set, h.networks, Function.update_idem], h.defaultNetwork, h.accesses⟩

theorem Leaves.client (h : Leaves network c w w') : w'.networks network = some c := by
  rw [h.networks, Function.update_self]

end

/-! ## The calls -/

section
variable {o : Outcomes} {w : World} {network : String} {c : FabricClient}

def FabricClient.lookup (c : FabricClient) (label : String) : Option Identity :=
  (c.wallet.find? fun entry => entry.1 = label).map Prod.snd

def FabricClient.put (c : FabricClient) (label : String) (identity : Identity) : FabricClient :=
  { c with wallet := c.wallet.filter (fun entry => entry.1 ≠ label) ++ [(label, identity)] }

theorem run_getClient (h : w.networks w.defaultNetwork = some c) :
    (getClient none).run w = (.ok w.defaultNetwork, w) := by
  simp only [getClient, run_bind, run_get, next_ok, Option.getD_none, if_true, h, run_pure]

theorem run_clientOf (h : w.networks network = some c) : (clientOf network).run w = (.ok c, w) := by
  simp only [clientOf, run_bind, run_get, next_ok, h, run_pure]

theorem run_access (resource : Resource) : (access network resource).run w = (.ok (), w.log network resource) := rfl

theorem run_change (h : w.networks network = some c) (f : FabricClient → FabricClient) :
    (change network f).run w = (.ok (), w.set network (f c)) := by
  rw [change, run_modify, h]
  rfl

theorem run_walletGet (h : w.networks network = some c) (label : String) :
    (walletGet network label).run w = (.ok (c.lookup label), w.log network .wallet) := by
  have h' : (w.log network .wallet).networks network = some c := h
  simp only [walletGet, run_bind, run_access, next_ok, run_clientOf h', run_pure, FabricClient.lookup]

theorem run_walletPut_ok (h : w.networks network = some c) (hp : o.putFails = false) (label : String)
    (identity : Identity) : (walletPut o network label identity).run w =
      (.ok (), (w.log network .wallet).set network (c.put label identity)) := by
  have h' : (w.log network .wallet).networks network = some c := h
  simp only [walletPut, hp, run_bind, run_access, next_ok, Bool.false_eq_true, if_false, run_change h']
  rfl

theorem run_walletPut_fails (hp : o.putFails = true) (label : String) (identity : Identity) :
    (walletPut o network label identity).run w = (.error o.error, w.log network .wallet) := by
  simp only [walletPut, hp, run_bind, run_access, next_ok, if_true, run_throw, next_error]

/-- What the CA accepts. -/
def caAccepts (o : Outcomes) (c : FabricClient) (id : String) (registrar : Option Identity) : Bool :=
  !(o.registerFails || registrar.isNone || c.ca.any fun r => r.enrollmentID = id)

theorem run_caRegister_ok (h : w.networks network = some c) {request : RegisterRequest}
    {registrar : Option Identity} (ha : caAccepts o c request.enrollmentID registrar = true) :
    (caRegister o network request registrar).run w =
      (.ok (), (w.log network .ca).set network { c with ca := c.ca ++ [request] }) := by
  have h' : (w.log network .ca).networks network = some c := h
  rw [caAccepts, Bool.not_eq_true'] at ha
  simp only [caRegister, run_bind, run_access, next_ok, run_clientOf h', ha, Bool.false_eq_true, if_false,
    run_change h']

theorem run_caRegister_fails (h : w.networks network = some c) {request : RegisterRequest}
    {registrar : Option Identity} (ha : caAccepts o c request.enrollmentID registrar = false) :
    (caRegister o network request registrar).run w = (.error o.error, w.log network .ca) := by
  have h' : (w.log network .ca).networks network = some c := h
  rw [caAccepts, Bool.not_eq_false'] at ha
  simp only [caRegister, run_bind, run_access, next_ok, run_clientOf h', ha, if_true, run_throw, next_error]

theorem run_readServerCert_ok (h : w.networks network = some c) {cert : String} (hcert : c.serverCert = some cert) :
    (readServerCert o network).run w = (.ok cert, w) := by
  simp only [readServerCert, run_bind, run_clientOf h, next_ok, hcert, run_pure]

theorem run_readServerCert_fails (h : w.networks network = some c) (hcert : c.serverCert = none) :
    (readServerCert o network).run w = (.error o.error, w) := by
  simp only [readServerCert, run_bind, run_clientOf h, next_ok, hcert, run_throw]

/-! ## Enrolling and reconnecting -/

variable {w₀ : World}

def identityOf (o : Outcomes) (c : FabricClient) : Identity := ⟨o.certificate, c.mspId⟩

theorem enroll_ok (hl : Leaves network c w₀ w) (hca : c.fabricCaEnabled = true) {cert : String}
    (hcert : c.serverCert = some cert) (he : o.enrollFails = false) (hp : o.putFails = false) (id : String) :
    ∃ w', (gatewayEnrollCaIdentity o network id).run w = (.ok (some (identityOf o c)), w') ∧
      Leaves network (c.put id (identityOf o c)) w₀ w' := by
  have h := hl.client
  have hlogged : (w.log network .ca).networks network = some c := h
  refine ⟨((w.log network .ca).log network .wallet).set network (c.put id (identityOf o c)), ?_,
    ((hl.log .ca).log .wallet).set _⟩
  simp only [gatewayEnrollCaIdentity, run_bind, run_clientOf h, next_ok, hca, if_true, run_tryCatch,
    run_readServerCert_ok h hcert, caEnroll, run_access, he, Bool.false_eq_true, if_false, run_pure,
    run_walletPut_ok hlogged hp, identityOf, rescue_ok]

/-- `null`: the identity is neither thrown nor stored. -/
theorem enroll_null (hl : Leaves network c w₀ w) (hca : c.fabricCaEnabled = true) {cert : String}
    (hcert : c.serverCert = some cert) (hf : (o.enrollFails || o.putFails) = true) (id : String) :
    ∃ w', (gatewayEnrollCaIdentity o network id).run w = (.ok none, w') ∧ Leaves network c w₀ w' := by
  have h := hl.client
  cases he : o.enrollFails with
  | true =>
    refine ⟨w.log network .ca, ?_, hl.log .ca⟩
    simp only [gatewayEnrollCaIdentity, run_bind, run_clientOf h, next_ok, hca, if_true, run_tryCatch,
      run_readServerCert_ok h hcert, caEnroll, run_access, he, run_throw, next_error, rescue_error, run_pure]
  | false =>
    rw [he, Bool.false_or] at hf
    refine ⟨(w.log network .ca).log network .wallet, ?_, (hl.log .ca).log .wallet⟩
    simp only [gatewayEnrollCaIdentity, run_bind, run_clientOf h, next_ok, hca, if_true, run_tryCatch,
      run_readServerCert_ok h hcert, caEnroll, run_access, he, Bool.false_eq_true, if_false, run_pure,
      run_walletPut_fails hf, next_error, rescue_error]

/-- `UserService.enrollCaIdentity` of a user who is not in the wallet. -/
theorem run_enrollCaIdentity {user : User} (hl : Leaves w₀.defaultNetwork c w₀ w) (hnew : c.lookup user.user = none)
    {r : Option Identity} {c' : FabricClient}
    (hgw : ∀ w, Leaves w₀.defaultNetwork c w₀ w → ∃ w',
      (gatewayEnrollCaIdentity o w₀.defaultNetwork user.user).run w = (.ok r, w') ∧ Leaves w₀.defaultNetwork c' w₀ w') :
    ∃ w', (enrollCaIdentity o user).run w = (.ok r, w') ∧ Leaves w₀.defaultNetwork c' w₀ w' := by
  have hdefault := hl.defaultNetwork
  have hclient : w.networks w.defaultNetwork = some c := hdefault ▸ hl.client
  obtain ⟨w', hrun, hl'⟩ := hgw (w.log w₀.defaultNetwork .wallet) (hl.log .wallet)
  refine ⟨w', ?_, hl'⟩
  simp only [enrollCaIdentity, run_bind, run_getClient hclient, next_ok, hdefault, run_walletGet hl.client, hnew,
    run_tryCatch, hrun, rescue_ok]

def connectionOf (c : FabricClient) (user : User) (identity : Identity) : ConnectionOptions :=
  ⟨user.user, some identity.mspId, c.asLocalhost, some user.user, some 100⟩

theorem reconnect_null (hl : Leaves w₀.defaultNetwork c w₀ w) (user : User) :
    (reconnectGw o user none).run w =
      (.error ("Error: Failed to reconnect: " ++ "TypeError: Cannot read property 'mspId' of null"), w) := by
  have hdefault := hl.defaultNetwork
  have hclient : w.networks w.defaultNetwork = some c := hdefault ▸ hl.client
  simp only [reconnectGw, run_tryCatch, run_bind, run_getClient hclient, next_ok, hdefault, run_clientOf hl.client,
    run_throw, rescue_error]

theorem reconnect_ok (hl : Leaves w₀.defaultNetwork c w₀ w) (hc : o.connectFails = false) (user : User)
    (identity : Identity) : ∃ w', (reconnectGw o user (some identity)).run w = (.ok (), w') ∧
      Leaves w₀.defaultNetwork { c with connection := some (connectionOf c user identity) } w₀ w' := by
  have hdefault := hl.defaultNetwork
  have hclient : w.networks w.defaultNetwork = some c := hdefault ▸ hl.client
  have hoff := (hl.log .gateway).set { c with connection := none }
  have hon := hoff.log .gateway
  refine ⟨_, ?_, hon.set _⟩
  simp only [reconnectGw, run_tryCatch, run_bind, run_getClient hclient, next_ok, hdefault, run_clientOf hl.client,
    gatewayDisconnect, run_access, run_change (hl.log .gateway).client, gatewayConnect, hc, Bool.false_eq_true,
    if_false, run_change hon.client, rescue_ok]
  rfl

/-- The old connection is gone by then. -/
theorem reconnect_fails (hl : Leaves w₀.defaultNetwork c w₀ w) (hc : o.connectFails = true) (user : User)
    (identity : Identity) : ∃ w', (reconnectGw o user (some identity)).run w =
      (.error ("Error: Failed to reconnect: " ++ o.error), w') ∧
      Leaves w₀.defaultNetwork { c with connection := none } w₀ w' := by
  have hdefault := hl.defaultNetwork
  have hclient : w.networks w.defaultNetwork = some c := hdefault ▸ hl.client
  have hoff := (hl.log .gateway).set { c with connection := none }
  refine ⟨_, ?_, hoff.log .gateway⟩
  simp only [reconnectGw, run_tryCatch, run_bind, run_getClient hclient, next_ok, hdefault, run_clientOf hl.client,
    gatewayDisconnect, run_access, run_change (hl.log .gateway).client, gatewayConnect, hc, if_true, run_throw,
    next_error, rescue_error]

/-! ## The request -/

def requestOf (c : FabricClient) (user : User) : RegisterRequest :=
  ⟨user.user, user.password, c.organization.toLower ++ "." ++ user.affiliation.getD "", user.roles⟩

def FabricClient.registered (c : FabricClient) (user : User) : FabricClient :=
  { c with ca := c.ca ++ [requestOf c user] }

/-- `ca.register` succeeds. -/
structure Registers (o : Outcomes) (c : FabricClient) (user : User) : Prop where
  new : c.lookup user.user = none
  enabled : c.fabricCaEnabled = true
  cert : c.serverCert.isSome
  accepted : caAccepts o c user.user (c.lookup c.adminUser) = true

instance (o : Outcomes) (c : FabricClient) (user : User) : Decidable (Registers o c user) :=
  decidable_of_iff (c.lookup user.user = none ∧ c.fabricCaEnabled = true ∧ c.serverCert.isSome ∧
    caAccepts o c user.user (c.lookup c.adminUser) = true)
    ⟨fun ⟨hn, he, hc, ha⟩ => ⟨hn, he, hc, ha⟩, fun h => ⟨h.new, h.enabled, h.cert, h.accepted⟩⟩

variable {user : User}

theorem run_rejected (h : w.networks w.defaultNetwork = some c) (hno : ¬ Registers o c user) :
    ∃ message w', (registerUser o user).run w = (.error message, w') ∧
      Leaves w.defaultNetwork c (w.log w.defaultNetwork .wallet) w' := by
  have hl : Leaves w.defaultNetwork c (w.log w.defaultNetwork .wallet) (w.log w.defaultNetwork .wallet) := .refl h
  cases hnew : c.lookup user.user with
  | some identity =>
    refine ⟨"Error: already exists", _, ?_, hl⟩
    simp only [registerUser, run_bind, run_getClient h, next_ok, run_clientOf h, run_walletGet h, hnew, run_throw]
  | none =>
    cases hca : c.fabricCaEnabled with
    | false =>
      refine ⟨"Error: did not register with CA", _, ?_, hl⟩
      simp only [registerUser, run_bind, run_getClient h, next_ok, run_clientOf h, run_walletGet h, hnew, hca,
        Bool.false_eq_true, if_false, run_throw, next_error]
    | true =>
      cases hcert : c.serverCert with
      | none =>
        refine ⟨o.error, _, ?_, hl⟩
        simp only [registerUser, run_bind, run_getClient h, next_ok, run_clientOf h, run_walletGet h, hnew, hca,
          if_true, run_readServerCert_fails hl.client hcert, next_error]
      | some cert =>
        have ha : caAccepts o c user.user (c.lookup c.adminUser) = false := by
          cases ha : caAccepts o c user.user (c.lookup c.adminUser) with
          | false => rfl
          | true => exact absurd ⟨hnew, hca, by rw [hcert]; rfl, ha⟩ hno
        have hadmin := hl.log .wallet
        refine ⟨o.error, _, ?_, hadmin.log .ca⟩
        simp only [registerUser, run_bind, run_getClient h, next_ok, run_clientOf h, run_walletGet h, hnew, hca,
          if_true, run_readServerCert_ok hl.client hcert, getUserContext, run_walletGet hl.client]
        rw [run_caRegister_fails hadmin.client ha, next_error]

/-- The request goes on to the enrollment. -/
theorem run_registered (h : w.networks w.defaultNetwork = some c) (hr : Registers o c user) :
    ∃ w', Leaves w.defaultNetwork (c.registered user) (w.log w.defaultNetwork .wallet) w' ∧
      (registerUser o user).run w = next ((enrollCaIdentity o user).run w') (reconnectGw o user) := by
  have hl : Leaves w.defaultNetwork c (w.log w.defaultNetwork .wallet) (w.log w.defaultNetwork .wallet) := .refl h
  obtain ⟨cert, hcert⟩ := Option.isSome_iff_exists.1 hr.cert
  have hadmin := hl.log .wallet
  refine ⟨_, (hadmin.log .ca).set (c.registered user), ?_⟩
  simp only [registerUser, run_bind, run_getClient h, next_ok, run_clientOf h, run_walletGet h, hr.new, hr.enabled,
    if_true, run_readServerCert_ok hl.client hcert, getUserContext, run_walletGet hl.client]
  rw [run_caRegister_ok hadmin.client hr.accepted, next_ok, run_bind]
  rfl

theorem register_of_error {message : String} {w' : World}
    (hrun : (registerUser o user).run w = (.error message, w')) : register o user w = (⟨400, some message⟩, w') := by
  rw [register, hrun]

theorem register_of_ok {w' : World} (hrun : (registerUser o user).run w = (.ok (), w')) :
    register o user w = (⟨200, none⟩, w') := by
  rw [register, hrun]

/-- What is left of the client of the default network, with the answer. -/
inductive Left (o : Outcomes) (c : FabricClient) (user : User) : Nat → FabricClient → Prop where
  | rejected (hno : ¬ Registers o c user) : Left o c user 400 c
  | unenrolled (hr : Registers o c user) (hf : (o.enrollFails || o.putFails) = true) :
      Left o c user 400 (c.registered user)
  | disconnected (hr : Registers o c user) (hf : (o.enrollFails || o.putFails) = false) (hc : o.connectFails = true) :
      Left o c user 400 { (c.registered user).put user.user (identityOf o c) with connection := none }
  | done (hr : Registers o c user) (hf : (o.enrollFails || o.putFails) = false) (hc : o.connectFails = false) :
      Left o c user 200 { (c.registered user).put user.user (identityOf o c) with
        connection := some (connectionOf c user (identityOf o c)) }

/-- **What a request leaves**: four cases, and only the client of the default
network is read and changed. -/
theorem register_spec (o : Outcomes) (user : User) (h : w.networks w.defaultNetwork = some c) :
    ∃ c', Left o c user (register o user w).1.status c' ∧
      Leaves w.defaultNetwork c' (w.log w.defaultNetwork .wallet) (register o user w).2 := by
  by_cases hr : Registers o c user
  · obtain ⟨w₁, hl, hrun⟩ := run_registered h hr
    have hl₁ : Leaves (w.log w.defaultNetwork .wallet).defaultNetwork (c.registered user)
      (w.log w.defaultNetwork .wallet) w₁ := hl
    obtain ⟨cert, hcert⟩ := Option.isSome_iff_exists.1 hr.cert
    have hnew : (c.registered user).lookup user.user = none := hr.new
    cases hf : o.enrollFails || o.putFails with
    | true =>
      obtain ⟨w₂, henroll, hl₂⟩ := run_enrollCaIdentity hl₁ hnew fun w hw =>
        enroll_null (o := o) hw hr.enabled hcert hf user.user
      rw [henroll, next_ok, reconnect_null hl₂] at hrun
      rw [register_of_error hrun]
      exact ⟨_, .unenrolled hr hf, hl₂⟩
    | false =>
      have ⟨he, hp⟩ := Bool.or_eq_false_iff.1 hf
      obtain ⟨w₂, henroll, hl₂⟩ := run_enrollCaIdentity hl₁ hnew fun w hw =>
        enroll_ok (o := o) hw hr.enabled hcert he hp user.user
      rw [henroll, next_ok] at hrun
      cases hc : o.connectFails with
      | true =>
        obtain ⟨w₃, hreconnect, hl₃⟩ := reconnect_fails hl₂ hc user (identityOf o (c.registered user))
        rw [hreconnect] at hrun
        rw [register_of_error hrun]
        exact ⟨_, .disconnected hr hf hc, hl₃⟩
      | false =>
        obtain ⟨w₃, hreconnect, hl₃⟩ := reconnect_ok hl₂ hc user (identityOf o (c.registered user))
        rw [hreconnect] at hrun
        rw [register_of_ok hrun]
        exact ⟨_, .done hr hf hc, hl₃⟩
  · obtain ⟨message, w', hrun, hl⟩ := run_rejected h hr
    rw [register_of_error hrun]
    exact ⟨c, .rejected hr, hl⟩

/-- Without a client nothing is done. -/
theorem register_without_client (h : w.networks w.defaultNetwork = none) :
    register o user w = (⟨400, some "TypeError: Cannot read property 'instance' of undefined"⟩, w) := by
  apply register_of_error
  simp only [registerUser, getClient, run_bind, run_get, next_ok, Option.getD_none, if_true, h, run_throw, next_error]

end

end Explorer.Fabric.UserService
