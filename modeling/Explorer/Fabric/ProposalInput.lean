import Explorer.Core.Hex
import Explorer.Fabric.SyncService

/-!
# The proposal input of a chaincode call

`processBlockEvent` stores the arguments of a call as one text: their
hexadecimal texts with a comma in front of each one that is not first. What
tells the first is the text collected so far being empty, so the arguments in
front of the first non-empty one leave no comma.

* `decodeInputs_joinInputs`: what a reader of the column gets back.
* `proposalInput_decodes_iff`: when that is what was called with.
-/
namespace Explorer.Fabric

/-- `text.split(',')`, each part decoded. -/
def decodeInputs (text : String) : Option (List (List UInt8)) := (text.toList.splitOn ',').mapM Hex.decode

/-- What is read back: the arguments without the empty ones in front, and one
empty argument when nothing is left. -/
def readBack (args : List (List UInt8)) : List (List UInt8) :=
  match args.dropWhile List.isEmpty with
  | [] => [[]]
  | arg :: rest => arg :: rest

/-! ## The loop -/

variable {C : Client}

/-- One turn of the loop. -/
def appendInput (C : Client) (inputs : String) (input : List UInt8) : String :=
  (if inputs = "" then inputs else inputs ++ ",") ++ C.sdk.bytesToHex input

theorem joinInputs_eq (C : Client) (args : List (List UInt8)) :
    joinInputs C args = args.foldl (appendInput C) "" := rfl

/-- The column of an envelope is its first action's. -/
theorem transactionRow_proposalInput {channelGenesisHash : String} {createdt : Nat} {block : Block} {i : Nat}
    {txObj : Envelope} {row : TransactionRow} {data : TransactionData} {action : TransactionAction}
    {actions : List TransactionAction} {input : ChaincodeInput}
    (hrow : transactionRow C channelGenesisHash createdt block i txObj = some row)
    (hdata : txObj.data = some data) (hactions : data.actions = some (action :: actions))
    (hinput : action.input = some input) : row.chaincodeProposalInput = input.args.map (joinInputs C) := by
  simp only [transactionRow, hdata, hactions, actionColumns, hinput, List.head?_cons, Option.bind_eq_bind,
    Option.bind_some, Option.bind_eq_some_iff, Option.some.injEq] at hrow
  obtain ⟨code, -, creator, -, columns, hcolumns, rfl⟩ := hrow
  obtain ⟨chaincodeId, -, response, -, endorsers, -, results, -, readSet, -, writeSet, -, endorsement, -,
    endorser, -, rfl⟩ := hcolumns
  rfl

/-- Behind a text, every argument has its comma. -/
theorem toList_append_inputs (hhex : ∀ bytes, C.sdk.bytesToHex bytes = Hex.encode bytes)
    (args : List (List UInt8)) : ∀ inputs : String, inputs ≠ "" →
      (args.foldl (appendInput C) inputs).toList = inputs.toList ++ args.flatMap fun arg => ',' :: Hex.digits arg := by
  induction args with
  | nil => intro inputs _; simp
  | cons arg args ih =>
    intro inputs hne
    have hturn : appendInput C inputs arg = inputs ++ "," ++ Hex.encode arg := by
      rw [appendInput, if_neg hne, hhex]
    have hnext : inputs ++ "," ++ Hex.encode arg ≠ "" := by
      rw [← String.toList_inj.ne]
      simp
    have hlist : (inputs ++ "," ++ Hex.encode arg).toList = inputs.toList ++ ',' :: Hex.digits arg := by
      simp [Hex.encode]
    rw [List.foldl_cons, hturn, ih _ hnext, hlist, List.flatMap_cons, List.append_assoc]

theorem intercalate_eq_flatMap (first : List Char) (rest : List (List Char)) :
    [','].intercalate (first :: rest) = first ++ rest.flatMap fun part => ',' :: part := by
  induction rest generalizing first with
  | nil => simp
  | cons part rest ih => rw [List.intercalate_cons_cons, ih, List.flatMap_cons]; simp

/-- The empty arguments in front leave nothing. -/
theorem joinInputs_dropWhile (hhex : ∀ bytes, C.sdk.bytesToHex bytes = Hex.encode bytes)
    (args : List (List UInt8)) : joinInputs C args = joinInputs C (args.dropWhile List.isEmpty) := by
  induction args with
  | nil => rfl
  | cons arg args ih =>
    cases arg with
    | nil =>
      have hturn : appendInput C "" [] = "" := by
        rw [appendInput, if_pos rfl, hhex]
        rfl
      rw [joinInputs_eq, List.foldl_cons, hturn, ← joinInputs_eq, ih]
      rfl
    | cons byte bytes => rfl

/-- From the first argument that is not empty on, the text splits into the
texts of the arguments. -/
theorem split_joinInputs (hhex : ∀ bytes, C.sdk.bytesToHex bytes = Hex.encode bytes)
    {arg : List UInt8} (harg : arg ≠ []) (rest : List (List UInt8)) :
    (joinInputs C (arg :: rest)).toList.splitOn ',' = (arg :: rest).map Hex.digits := by
  have hturn : appendInput C "" arg = Hex.encode arg := by
    rw [appendInput, if_pos rfl, hhex, String.empty_append]
  have htext : (joinInputs C (arg :: rest)).toList = [','].intercalate ((arg :: rest).map Hex.digits) := by
    rw [joinInputs_eq, List.foldl_cons, hturn, toList_append_inputs hhex rest _ (mt Hex.encode_eq_empty.1 harg),
      List.map_cons, intercalate_eq_flatMap, List.flatMap_map, Hex.encode, String.toList_ofList]
  rw [htext]
  apply List.splitOn_intercalate
  · intro part hpart
    obtain ⟨bytes, -, rfl⟩ := List.mem_map.1 hpart
    exact Hex.not_mem_digits (by decide) bytes
  · simp

/-- **What a reader gets back.** -/
theorem decodeInputs_joinInputs (hhex : ∀ bytes, C.sdk.bytesToHex bytes = Hex.encode bytes)
    (args : List (List UInt8)) : decodeInputs (joinInputs C args) = some (readBack args) := by
  rw [joinInputs_dropWhile hhex, decodeInputs, readBack]
  cases hrest : args.dropWhile List.isEmpty with
  | nil => rfl
  | cons arg rest =>
    have harg : arg ≠ [] := by
      have hhead := List.head?_dropWhile_not List.isEmpty args
      rw [hrest] at hhead
      simpa using hhead
    rw [split_joinInputs hhex harg, List.mapM_map]
    have hparts : (arg :: rest).mapM (Hex.decode ∘ Hex.digits) = some ((arg :: rest).map id) :=
      mapM_eq_some fun bytes _ => Hex.decode_digits bytes
    rw [hparts, List.map_id]

theorem readBack_eq_iff {args : List (List UInt8)} (hne : args ≠ []) :
    readBack args = args ↔ args.head? ≠ some [] ∨ args.length = 1 := by
  cases args with
  | nil => exact absurd rfl hne
  | cons arg rest =>
    cases arg with
    | cons byte bytes => simp [readBack]
    | nil =>
      have hdrop : ([] :: rest : List (List UInt8)).dropWhile List.isEmpty = rest.dropWhile List.isEmpty := rfl
      have hshort : (rest.dropWhile List.isEmpty).length ≤ rest.length :=
        (List.dropWhile_sublist _).length_le
      simp only [readBack, hdrop, List.head?_cons, ne_eq, not_true, false_or, List.length_cons]
      cases hrest : rest.dropWhile List.isEmpty with
      | nil =>
        cases rest with
        | nil => simp
        | cons _ _ => simp
      | cons arg' rest' =>
        rw [hrest, List.length_cons] at hshort
        constructor
        · intro heq
          have := congrArg List.length heq
          simp only [List.length_cons] at this
          omega
        · intro hlen
          omega

/-- **The arguments are read back if and only if the first is not empty or
there is no other.** -/
theorem proposalInput_decodes_iff (hhex : ∀ bytes, C.sdk.bytesToHex bytes = Hex.encode bytes)
    (channelGenesisHash : String) (createdt : Nat) (block : Block) (i : Nat) (txObj : Envelope)
    (row : TransactionRow) (hrow : transactionRow C channelGenesisHash createdt block i txObj = some row)
    (data : TransactionData) (hdata : txObj.data = some data) (action : TransactionAction)
    (actions : List TransactionAction) (hactions : data.actions = some (action :: actions)) (input : ChaincodeInput)
    (hinput : action.input = some input) (args : List (List UInt8)) (hargs : input.args = some args)
    (hne : args ≠ []) :
    row.chaincodeProposalInput.bind decodeInputs = some args ↔ args.head? ≠ some [] ∨ args.length = 1 := by
  have hcolumn := transactionRow_proposalInput hrow hdata hactions hinput
  rw [hcolumn, hargs, Option.map_some, Option.bind_some, decodeInputs_joinInputs hhex, Option.some.injEq]
  exact readBack_eq_iff hne

open SyncService (mychannel transfer)

def hexClient : Client := { mychannel with sdk := { mychannel.sdk with bytesToHex := Hex.encode } }

def callAction (args : List (List UInt8)) : TransactionAction :=
  ⟨some ⟨"fabcar"⟩, some ⟨200⟩, some ⟨[]⟩, "", [⟨some ⟨"Org1MSP", "id"⟩, none⟩], some ⟨some args⟩⟩

/-- An envelope with the call of these arguments. -/
def callWith (args : List (List UInt8)) : Envelope := 
  { transfer "t1" with data := some ⟨some [callAction args]⟩ }

def blockOf (envelope : Envelope) : Block := ⟨⟨1, "p0", "d1"⟩, [envelope], [[0]]⟩

/-- The row of the call with these arguments. -/
def callRow (args : List (List UInt8)) : Option TransactionRow :=
  transactionRow hexClient "g0" 1000 (blockOf (callWith args)) 0 (callWith args)

theorem proposalInput_decodes_iff_inner :
    ∃ row, callRow [[0x61], [], [0x62, 0x0a]] = some row ∧ row.chaincodeProposalInput = some "61,,620a" ∧
      row.chaincodeProposalInput.bind decodeInputs = some [[0x61], [], [0x62, 0x0a]] :=
  ⟨_, rfl, by decide, (proposalInput_decodes_iff (C := hexClient) (fun _ => rfl) "g0" 1000
    (blockOf (callWith [[0x61], [], [0x62, 0x0a]])) 0 (callWith [[0x61], [], [0x62, 0x0a]]) _ rfl _ rfl
    (callAction [[0x61], [], [0x62, 0x0a]]) [] rfl _ rfl _ rfl (by decide)).2 (by decide)⟩

/-- The empty argument in front leaves no comma. -/
theorem proposalInput_drops_first :
    (∀ bytes, hexClient.sdk.bytesToHex bytes = Hex.encode bytes) ∧
    ∃ row, callRow [[], [0x61]] = some row ∧ row.chaincodeProposalInput = some "61" ∧
      row.chaincodeProposalInput.bind decodeInputs = some [[0x61]] ∧
      row.chaincodeProposalInput.bind decodeInputs ≠ some [[], [0x61]] :=
  ⟨fun _ => rfl, _, rfl, by decide, by decide, by decide⟩

end Explorer.Fabric
