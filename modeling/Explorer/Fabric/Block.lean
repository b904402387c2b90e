import Explorer.Core.Fold

/-!
# Fabric blocks and the rows made of them

A decoded block as `processBlockEvent` reads it, and the two rows it builds:
one for the block and one for each envelope. The decoder leaves a message out
that an envelope does not carry, and the code reads most of them without a
check. So `transactionRow` is `none` where the code throws a `TypeError`, which
is on the envelopes that are not `Envelope.Readable`.

An `Option` message is `none` for `null` and `undefined`. The messages around
them, such as `payload.header`, are objects that the decoder always makes, and
the fields of a message that is there are there unless they are an `Option`;
one of bytes, the arguments and the actions are `none` for `undefined`.

Instants are numbers of milliseconds, byte strings lists of `UInt8`, and the
read and write sets of a namespace their JSON texts. An `Option` column is
`none` for `undefined`, which is stored as NULL. `chaincode_id` is made from
`new Uint8Array(extension)`, which is empty for an object that is no array.

* `transactionRow_isSome`: which envelopes get a row.
* `jsonObjSize_near`: the size of a block, in rounded kibibytes.
-/
namespace Explorer.Fabric

structure Header where
  number : Nat
  previousHash : String
  dataHash : String
  deriving DecidableEq, Repr

/-- A creator or an endorser. -/
structure Identity where
  mspid : String
  idBytes : String
  deriving DecidableEq, Repr

structure Endorsement where
  endorser : Option Identity
  signature : Option (List UInt8)
  deriving DecidableEq, Repr

structure KvRwset where
  reads : String
  writes : String
  deriving DecidableEq, Repr

structure NsRwset where
  ns : String
  rwset : Option KvRwset
  deriving DecidableEq, Repr

structure ChaincodeId where
  name : String
  deriving DecidableEq, Repr

structure Response where
  status : Nat
  deriving DecidableEq, Repr

structure Results where
  nsRwset : List NsRwset
  deriving DecidableEq, Repr

/-- `chaincode_spec.input`, which is missing without a `chaincode_spec` too. -/
structure ChaincodeInput where
  args : Option (List (List UInt8))
  deriving DecidableEq, Repr

/-- `payload.data.actions[0].payload`. The first three fields are those of the
`extension`. -/
structure TransactionAction where
  chaincodeId : Option ChaincodeId
  response : Option Response
  results : Option Results
  proposalHash : String
  endorsements : List Endorsement
  input : Option ChaincodeInput
  deriving DecidableEq, Repr

/-- `payload.data`. -/
structure TransactionData where
  actions : Option (List TransactionAction)
  deriving DecidableEq, Repr

/-- The header fields are those of `channel_header` and `signature_header`. -/
structure Envelope where
  channelId : String
  txId : String
  typeString : String
  timestamp : Nat
  extension : Option (List UInt8)
  nonce : Option (List UInt8)
  creator : Option Identity
  signature : Option (List UInt8)
  data : Option TransactionData
  deriving DecidableEq, Repr

/-- `metadata` ends with the validation codes of the envelopes. -/
structure Block where
  header : Header
  data : List Envelope
  metadata : List (List Nat)
  deriving DecidableEq, Repr

/-! ## The size of a block -/

/-- What a decoded block is built of. `object` is one that `toString` calls an
Object or an Array, with its values, and `bytes` one of another class. -/
inductive JsValue where
  | null
  | undefined
  | number
  | boolean
  | string (s : String)
  | function
  | object (values : List JsValue)
  | bytes (b : List UInt8)

/-- The `length` of a string: its UTF-16 code units. -/
def utf16Length (s : String) : Nat :=
  s.toList.foldl (fun n c => n + if c.toNat < 0x10000 then 1 else 2) 0

mutual

/-- mirrors app/platform/fabric/sync/SyncService.js:735-767 -/
def JsValue.sizeOf : JsValue → Nat
  | .null | .undefined | .function => 0
  | .number => 8
  | .string s => utf16Length s
  | .boolean => 4
  | .object values => JsValue.sizeOfAll values
  | .bytes b => b.length

/-- The loop over the keys of an object. -/
def JsValue.sizeOfAll : List JsValue → Nat
  | [] => 0
  | value :: values => value.sizeOf + JsValue.sizeOfAll values

end

/-- `(rawByte / 1024).toFixed(0)`, which rounds half up.
mirrors app/platform/fabric/sync/SyncService.js:769-771 -/
def formatByteSize (rawByte : Nat) : Nat := (rawByte + 512) / 1024

/-- mirrors app/platform/fabric/sync/SyncService.js:732-774 -/
def jsonObjSize (json : JsValue) : Nat := formatByteSize json.sizeOf

/-- The nearest number of kibibytes. -/
theorem jsonObjSize_near (json : JsValue) :
    jsonObjSize json * 1024 ≤ json.sizeOf + 512 ∧ json.sizeOf < jsonObjSize json * 1024 + 512 := by
  unfold jsonObjSize formatByteSize
  omega

/-! ## The client -/

/-- The third-party code: `object` is the decoded block itself. -/
structure Sdk where
  txValidationCode : Nat → Option String
  bytesToHex : List UInt8 → String
  generateBlockHash : Header → String
  object : Block → JsValue

/-- `FabricClient`, once it knows its channels. Two channels differ in their
genesis blocks. -/
structure Client where
  sdk : Sdk
  networkName : String
  clientName : String
  getChannelGenHash : String → Option String
  distinct : ∀ a b hash, getChannelGenHash a = some hash → getChannelGenHash b = some hash → a = b

/-! ## Rows -/

/-- `networkName` is set by `saveBlock`. -/
structure BlockRow where
  blocknum : Nat
  datahash : String
  prehash : String
  txcount : Nat
  createdt : Nat
  prevBlockhash : String
  blockhash : String
  channelGenesisHash : String
  blksize : Nat
  networkName : Option String
  deriving DecidableEq, Repr

structure TransactionRow where
  blockid : Nat
  txhash : String
  createdt : Nat
  chaincodename : String
  chaincodeId : String
  status : Option Nat
  creatorMspId : String
  endorserMspId : List String
  type : String
  readSet : Option (List (String × String))
  writeSet : Option (List (String × String))
  channelGenesisHash : String
  validationCode : Option String
  envelopeSignature : Option String
  payloadExtension : Option String
  creatorNonce : Option String
  chaincodeProposalInput : Option String
  endorserSignature : Option String
  creatorIdBytes : String
  payloadProposalHash : String
  endorserIdBytes : String
  networkName : String
  deriving DecidableEq, Repr

variable (C : Client)

/-- mirrors app/platform/fabric/utils/FabricUtils.js:104-111 -/
def getBlockTimeStamp (timestamp : Nat) : Nat := timestamp

/-- The timestamp is the first envelope's.
mirrors app/platform/fabric/sync/SyncService.js:491-506 -/
def blockRow (channelGenesisHash : String) (block : Block) (first : Envelope) : BlockRow where
  blocknum := block.header.number
  datahash := block.header.dataHash
  prehash := block.header.previousHash
  txcount := block.data.length
  createdt := getBlockTimeStamp first.timestamp
  prevBlockhash := ""
  blockhash := C.sdk.generateBlockHash block.header
  channelGenesisHash := channelGenesisHash
  blksize := jsonObjSize (C.sdk.object block)
  networkName := none

/-- `validation_codes[i]`, for an envelope with a tx id.
mirrors app/platform/fabric/sync/SyncService.js:523-528 -/
def validationCode (block : Block) (i : Nat) (txid : String) : Option (Option String) :=
  if txid = "" then some (some "")
  else block.metadata.getLast?.map fun codes => codes[i]?.bind C.sdk.txValidationCode

/-- mirrors app/platform/fabric/sync/SyncService.js:571-578 -/
def joinInputs (args : List (List UInt8)) : String :=
  args.foldl (fun inputs input =>
    (if inputs = "" then inputs else inputs ++ ",") ++ C.sdk.bytesToHex input) ""

/-- The columns taken from the first action of an envelope. -/
structure ActionColumns where
  chaincode : String
  status : Option Nat
  mspId : List String
  readSet : Option (List (String × String))
  writeSet : Option (List (String × String))
  chaincodeProposalInput : Option String
  endorserSignature : Option String
  payloadProposalHash : String
  endorserIdBytes : String

/-- mirrors app/platform/fabric/sync/SyncService.js:511-522,544-593 -/
def actionColumns : Option (List TransactionAction) → Option ActionColumns
  | none => some ⟨"", none, [], none, none, some "", some "", "", ""⟩
  | some actions => do
    let action ← actions.head?
    let chaincodeId ← action.chaincodeId
    let response ← action.response
    let endorsers ← action.endorsements.mapM Endorsement.endorser
    let results ← action.results
    let readSet ← results.nsRwset.mapM fun i => i.rwset.map fun rwset => (i.ns, rwset.reads)
    let writeSet ← results.nsRwset.mapM fun i => i.rwset.map fun rwset => (i.ns, rwset.writes)
    let input ← action.input
    let endorsement ← action.endorsements.head?
    let endorser ← endorsement.endorser
    some
      { chaincode := chaincodeId.name
        status := some response.status
        mspId := endorsers.map Identity.mspid
        readSet := some readSet
        writeSet := some writeSet
        chaincodeProposalInput := input.args.map (joinInputs C)
        endorserSignature := endorsement.signature.map C.sdk.bytesToHex
        payloadProposalHash := action.proposalHash
        endorserIdBytes := endorser.idBytes }

/-- The row of the envelope `block.data.data[i]`.
mirrors app/platform/fabric/sync/SyncService.js:508-650 -/
def transactionRow (channelGenesisHash : String) (createdt : Nat) (block : Block) (i : Nat)
    (txObj : Envelope) : Option TransactionRow := do
  let code ← validationCode C block i txObj.txId
  let creator ← txObj.creator
  let data ← txObj.data
  let action ← actionColumns C data.actions
  some
    { blockid := block.header.number
      txhash := txObj.txId
      createdt := createdt
      chaincodename := action.chaincode
      chaincodeId := ""
      status := action.status
      creatorMspId := creator.mspid
      endorserMspId := action.mspId
      type := txObj.typeString
      readSet := action.readSet
      writeSet := action.writeSet
      channelGenesisHash := channelGenesisHash
      validationCode := code
      envelopeSignature := txObj.signature.map C.sdk.bytesToHex
      payloadExtension := txObj.extension.map C.sdk.bytesToHex
      creatorNonce := txObj.nonce.map C.sdk.bytesToHex
      chaincodeProposalInput := action.chaincodeProposalInput
      endorserSignature := action.endorserSignature
      creatorIdBytes := creator.idBytes
      payloadProposalHash := action.payloadProposalHash
      endorserIdBytes := action.endorserIdBytes
      networkName := C.networkName }

/-- The columns that tell the rows of a network apart. -/
theorem transactionRow_key {C : Client} {channelGenesisHash : String} {createdt : Nat} {block : Block}
    {i : Nat} {txObj : Envelope} {row : TransactionRow}
    (h : transactionRow C channelGenesisHash createdt block i txObj = some row) :
    row.networkName = C.networkName ∧ row.channelGenesisHash = channelGenesisHash ∧
      row.blockid = block.header.number ∧ row.txhash = txObj.txId := by
  simp only [transactionRow, Option.bind_eq_bind, Option.bind_eq_some_iff, Option.some.injEq] at h
  obtain ⟨code, -, creator, -, data, -, action, -, rfl⟩ := h
  exact ⟨rfl, rfl, rfl, rfl⟩

/-- What is read of an action without a check is there. -/
structure TransactionAction.Readable (action : TransactionAction) : Prop where
  chaincodeId : action.chaincodeId.isSome
  response : action.response.isSome
  results : ∃ results ∈ action.results, ∀ i ∈ results.nsRwset, i.rwset.isSome
  endorsed : action.endorsements ≠ []
  endorsers : ∀ endorsement ∈ action.endorsements, endorsement.endorser.isSome
  input : action.input.isSome

/-- The same of an envelope. -/
structure Envelope.Readable (block : Block) (txObj : Envelope) : Prop where
  metadata : txObj.txId ≠ "" → block.metadata ≠ []
  creator : txObj.creator.isSome
  data : ∃ data ∈ txObj.data, ∀ actions ∈ data.actions, ∃ action ∈ actions.head?, action.Readable

def Block.Readable (block : Block) : Prop := ∀ txObj ∈ block.data, txObj.Readable block

theorem validationCode_isSome (C : Client) (block : Block) (i : Nat) (txid : String) :
    (validationCode C block i txid).isSome ↔ (txid ≠ "" → block.metadata ≠ []) := by
  unfold validationCode
  split
  · rename_i hempty
    simp [hempty]
  · rename_i hne
    rw [Option.isSome_map, List.getLast?_isSome]
    exact ⟨fun h _ => h, fun h => h hne⟩

/-- The columns of an action are there if and only if all that is read is. -/
theorem actionColumns_isSome (C : Client) (actions : Option (List TransactionAction)) :
    (actionColumns C actions).isSome ↔ ∀ as ∈ actions, ∃ action ∈ as.head?, action.Readable := by
  cases actions with
  | none => simp [actionColumns]
  | some as =>
    simp only [actionColumns, Option.bind_eq_bind, isSome_bind_iff, Option.mem_def, Option.some.injEq, forall_eq',
      Option.isSome_some, and_true]
    constructor
    · intro h
      obtain ⟨action, haction, chaincodeId, hid, response, hresponse, endorsers, hendorsers, results, hresults,
        readSet, hreads, -, -, input, hinput, endorsement, hendorsement, -⟩ := h
      have hrwset := isSome_mapM_iff.1 (Option.isSome_of_eq_some hreads)
      refine ⟨action, haction, Option.isSome_of_eq_some hid, Option.isSome_of_eq_some hresponse,
        ⟨results, hresults, fun i hi => by simpa using hrwset i hi⟩, List.ne_nil_of_mem (List.mem_of_head? hendorsement),
        isSome_mapM_iff.1 (Option.isSome_of_eq_some hendorsers), Option.isSome_of_eq_some hinput⟩
    · intro h
      obtain ⟨action, haction, hread⟩ := h
      obtain ⟨chaincodeId, hid⟩ := Option.isSome_iff_exists.1 hread.chaincodeId
      obtain ⟨response, hresponse⟩ := Option.isSome_iff_exists.1 hread.response
      obtain ⟨endorsers, hendorsers⟩ := Option.isSome_iff_exists.1 (isSome_mapM_iff.2 hread.endorsers)
      obtain ⟨results, hresults, hrwset⟩ := hread.results
      have hsets : ∀ f : NsRwset → KvRwset → String × String,
          ∃ sets, results.nsRwset.mapM (fun i => i.rwset.map (f i)) = some sets := fun f =>
        Option.isSome_iff_exists.1 (isSome_mapM_iff.2 fun i hi => by simpa using hrwset i hi)
      obtain ⟨readSet, hreads⟩ := hsets fun i rwset => (i.ns, rwset.reads)
      obtain ⟨writeSet, hwrites⟩ := hsets fun i rwset => (i.ns, rwset.writes)
      obtain ⟨input, hinput⟩ := Option.isSome_iff_exists.1 hread.input
      obtain ⟨endorsement, hendorsement⟩ := Option.isSome_iff_exists.1 (List.isSome_head?.2 hread.endorsed)
      obtain ⟨endorser, hendorser⟩ :=
        Option.isSome_iff_exists.1 (hread.endorsers _ (List.mem_of_head? hendorsement))
      exact ⟨action, haction, chaincodeId, hid, response, hresponse, endorsers, hendorsers, results, hresults,
        readSet, hreads, writeSet, hwrites, input, hinput, endorsement, hendorsement, endorser, hendorser⟩

/-- A row is built of the readable envelopes, and of no other. -/
theorem transactionRow_isSome {C : Client} {channelGenesisHash : String} {createdt : Nat} {block : Block}
    {i : Nat} {txObj : Envelope} :
    (transactionRow C channelGenesisHash createdt block i txObj).isSome ↔ txObj.Readable block := by
  have hall : (transactionRow C channelGenesisHash createdt block i txObj).isSome ↔
      (validationCode C block i txObj.txId).isSome ∧ txObj.creator.isSome ∧
        ∃ data ∈ txObj.data, (actionColumns C data.actions).isSome := by
    simp only [transactionRow, Option.bind_eq_bind, isSome_bind_iff, Option.isSome_some]
    simp only [Option.isSome_iff_exists, Option.mem_def, and_true, exists_and_right]
  rw [hall, validationCode_isSome]
  simp only [actionColumns_isSome]
  exact ⟨fun h => ⟨h.1, h.2.1, h.2.2⟩, fun h => ⟨h.metadata, h.creator, h.data⟩⟩

end Explorer.Fabric
