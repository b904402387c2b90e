/-!
# Iroha messages: blocks, transactions, commands

The parts of the generated protobuf classes (`iroha-helpers/lib/proto`) that
the explorer reads. A `Block` here is the payload of its `Block_v1`; block
and transaction signatures that no function reads are left out, transaction
signatures are kept as their public keys.

The classes themselves are generated code outside the repository, so the
binary format and SHA3-256 are a parameter (`Wire`); that decoding undoes
encoding is a field of it.
-/
namespace Explorer.Iroha

/-- The command `oneof`; `other` is every command `applyBlock` has no branch
for, with its JSON text. -/
inductive Command where
  | createAccount (accountName domainId : String)
  | setAccountQuorum (accountId : String) (quorum : Nat)
  | addPeer (address peerKey : String)
  | createRole (roleName : String) (permissions : List Nat)
  | createDomain (domainId defaultRole : String)
  | appendRole (accountId roleName : String)
  | detachRole (accountId roleName : String)
  | grantPermission (accountId : String) (permission : Nat)
  | revokePermission (accountId : String) (permission : Nat)
  | other (json : String)
  deriving DecidableEq, Repr

/-- `Transaction.Payload` with its `ReducedPayload`. -/
structure Payload where
  creatorAccountId : String
  createdTime : Nat
  quorum : Nat
  commands : List Command
  deriving DecidableEq, Repr

structure Transaction where
  payload : Payload
  signatures : List String
  deriving DecidableEq, Repr

/-- `Block_v1.Payload`. -/
structure Block where
  height : Nat
  createdTime : Nat
  prevBlockHash : String
  transactions : List Transaction
  deriving DecidableEq, Repr

/-- Encoding and decoding of one message type. -/
structure Codec (M Bytes : Type) where
  serializeBinary : M → Bytes
  deserializeBinary : Bytes → M
  roundTrip : ∀ m, deserializeBinary (serializeBinary m) = m

/-- The generated protobuf code and `js-sha3`. -/
structure Wire (Bytes : Type) where
  block : Codec Block Bytes
  transaction : Codec Transaction Bytes
  blockPayload : Block → Bytes
  payload : Payload → Bytes
  sha3_256 : Bytes → String

variable {Bytes : Type}

/-- mirrors iroha/src/iroha-api.ts:160 -/
def blockHash (W : Wire Bytes) (block : Block) : String := W.sha3_256 (W.blockPayload block)

/-- mirrors iroha/src/iroha-api.ts:162 -/
def blockHeight (block : Block) : Nat := block.height

/-- mirrors iroha/src/iroha-api.ts:164 -/
def transactionHash (W : Wire Bytes) (transaction : Transaction) : String :=
  W.sha3_256 (W.payload transaction.payload)

/-- `accountId.match(ACCOUNT_REGEX)`, the regular expression
`^[^@]+@([^@]+)$`: exactly one `@`, text on both sides.
mirrors iroha/src/iroha-api.ts:166-171 -/
def accountDomain (accountId : String) : Option String :=
  match accountId.toList.splitOn '@' with
  | [name, domain] => if name ≠ [] ∧ domain ≠ [] then some (String.ofList domain) else none
  | _ => none

example : accountDomain "alice@explorer" = some "explorer" := by decide
example : accountDomain "@explorer" = none := by decide

/-- Messages encoded as themselves, to evaluate closed runs with. -/
def plainWire : Wire (Block ⊕ Transaction) where
  block := ⟨.inl, fun | .inl block => block | .inr _ => ⟨0, 0, "", []⟩, fun _ => rfl⟩
  transaction := ⟨.inr, fun | .inr transaction => transaction | .inl _ => ⟨⟨"", 0, 0, []⟩, []⟩,
    fun _ => rfl⟩
  blockPayload := .inl
  payload payload := .inr ⟨payload, []⟩
  sha3_256
    | .inl block => toString block.height
    | .inr transaction =>
      transaction.payload.creatorAccountId ++ "/" ++ toString transaction.payload.createdTime

end Explorer.Iroha
