import Explorer.Core.Hex
import Explorer.Fabric.Complete
import Explorer.Fabric.Statements

/-!
# Statements that are assembled from blocks

`saveBlock` and `saveTransaction` count and update with statements whose texts
hold values of the block between quotes; rows are inserted with parameters,
and `findMissingBlockNumber` puts nothing of a block into its text. In `Crud`
the values between quotes are the literals that they stand for.

The decoder writes the hashes of a header as hexadecimal texts. A tx id and the
name of a chaincode are what the envelope says.

* `awaited_text_iff`: which statement of an execution is the one that is meant.
* `saved_text_iff`: the same in every run, and that a process which sends texts
  does what `step` does where the texts of the blocks are plain.
-/
namespace Explorer.Fabric.Statements

open SqlText SyncService

/-! ## The statements -/

/-- What a template literal makes of a number. -/
def printed (n : Nat) : List Char := Nat.toDigits 10 n

section
variable (networkName : String)

/-- `counter` is `blocks` or `trans`. -/
def countUp (counter : List Char) (channelGenesisHash : String) : List Piece :=
  [.sql ("update channel set ".toList ++ counter ++ " =".toList ++ counter ++
      "+1 where channel_genesis_hash=".toList),
    .given channelGenesisHash.toList, .sql " and network_name = ".toList, .given networkName.toList,
    .sql " ".toList]

/-- The statements of `saveBlock` that are assembled, by their awaits. The hashes
are plain; that of the block before the genesis block is empty.
mirrors app/persistence/fabric/CRUDService.js:207-230 -/
def saveBlock (block : BlockRow) : SaveBlock → Option (List Piece)
  | .count => some
    [.sql "select count(1) as c from blocks where blocknum=".toList, .given (printed block.blocknum),
      .sql " and txcount=".toList, .given (printed block.txcount),
      .sql "\n        and channel_genesis_hash=".toList, .given block.channelGenesisHash.toList,
      .sql " and network_name = ".toList, .given networkName.toList, .sql " and prehash=".toList,
      .listed block.prehash.toList, .sql " and datahash=".toList, .listed block.datahash.toList, .sql " ".toList]
  | .insert => none
  | .channel => some (countUp networkName "blocks".toList block.channelGenesisHash)

/-- The same of `saveTransaction`.
mirrors app/persistence/fabric/CRUDService.js:241-268 -/
def saveTransaction (transaction : TransactionRow) : SaveTransaction → Option (List Piece)
  | .count => some
    [.sql "select count(1) as c from transactions where blockid=".toList, .given (printed transaction.blockid),
      .sql " and txhash=".toList, .sent transaction.txhash.toList, .sql " and channel_genesis_hash=".toList,
      .given transaction.channelGenesisHash.toList, .sql " and network_name = ".toList,
      .given networkName.toList, .sql " ".toList]
  | .insert => none
  | .chaincodes => some
    [.sql "update chaincodes set txcount =txcount+1 where channel_genesis_hash=".toList,
      .given transaction.channelGenesisHash.toList, .sql " and network_name = ".toList,
      .given networkName.toList, .sql " and name=".toList, .sent transaction.chaincodename.toList]
  | .channel => some (countUp networkName "trans".toList transaction.channelGenesisHash)

end

/-- What PostgreSQL is handed at the await of an execution. -/
def awaited (C : Client) (e : Exec) : Option (List Piece) :=
  match e.pc with
  | .timeStamp | .blockHash => none
  | .saveTransaction _ _ row stmt => saveTransaction C.networkName row stmt
  | .saveBlock block stmt => saveBlock C.networkName block stmt

/-! ## Texts of a block -/

/-- The chaincode that an envelope names, which is none without an action. -/
def chaincodeName (txObj : Envelope) : String :=
  let action := (txObj.data.bind TransactionData.actions).bind List.head?
  (action.bind TransactionAction.chaincodeId).elim "" ChaincodeId.name

/-- The texts of its block that an execution puts into the statement. -/
def spliced (e : Exec) : List String :=
  match e.pc with
  | .saveTransaction _ i _ .count => (e.block.data[i]?.map Envelope.txId).toList
  | .saveTransaction _ i _ .chaincodes => (e.block.data[i]?.map chaincodeName).toList
  | _ => []

/-- The hashes of a header are hexadecimal texts. -/
structure Hexadecimal (header : Header) : Prop where
  previousHash : ∃ bytes, header.previousHash = Hex.encode bytes
  dataHash : ∃ bytes, header.dataHash = Hex.encode bytes

structure PlainTexts (block : Block) : Prop where
  txId : ∀ txObj ∈ block.data, Plain txObj.txId.toList
  chaincode : ∀ txObj ∈ block.data, Plain (chaincodeName txObj).toList

theorem plain_spliced {e : Exec} (h : PlainTexts e.block) : ∀ text ∈ spliced e, Plain text.toList := by
  intro text hmem
  unfold spliced at hmem
  split at hmem
  · obtain ⟨txObj, hget, rfl⟩ := Option.map_eq_some_iff.1 (Option.mem_toList.1 hmem)
    exact h.txId txObj (List.mem_of_getElem? hget)
  · obtain ⟨txObj, hget, rfl⟩ := Option.map_eq_some_iff.1 (Option.mem_toList.1 hmem)
    exact h.chaincode txObj (List.mem_of_getElem? hget)
  · cases hmem

theorem actionColumns_chaincode {C : Client} {actions : Option (List TransactionAction)} {columns : ActionColumns}
    (h : actionColumns C actions = some columns) :
    columns.chaincode =
      ((actions.bind List.head?).bind TransactionAction.chaincodeId).elim "" ChaincodeId.name := by
  cases actions with
  | none =>
    cases h
    rfl
  | some actions =>
    simp only [actionColumns, Option.bind_eq_bind, Option.bind_eq_some_iff, Option.some.injEq] at h
    obtain ⟨action, haction, chaincodeId, hid, h⟩ := h
    obtain ⟨-, -, -, -, -, -, -, -, -, -, -, -, -, -, -, -, rfl⟩ := h
    simp [haction, hid]

theorem transactionRow_chaincodename {C : Client} {channelGenesisHash : String} {createdt : Nat} {block : Block}
    {i : Nat} {txObj : Envelope} {row : TransactionRow}
    (h : transactionRow C channelGenesisHash createdt block i txObj = some row) :
    row.chaincodename = chaincodeName txObj := by
  simp only [transactionRow, Option.bind_eq_bind, Option.bind_eq_some_iff, Option.some.injEq] at h
  obtain ⟨code, -, creator, -, data, hdata, columns, hcolumns, rfl⟩ := h
  rw [chaincodeName, hdata]
  exact actionColumns_chaincode hcolumns

/-! ## The statements are assembled well -/

theorem line_printed (n : Nat) : Line (printed n) := by
  have hdigit : ∀ c ∈ printed n, c.isDigit = true := fun c hc =>
    Nat.isDigit_of_mem_toDigits (by decide) (by decide) hc
  have hother : ∀ c, c.isDigit = false → c ∉ printed n := by
    intro c hc hmem
    rw [hdigit c hmem] at hc
    cases hc
  refine ⟨⟨hother quote (by decide), hother nul (by decide)⟩, Nat.toDigits_ne_nil, fun c hc => ?_⟩
  cases hnewline : isNewline c with
  | false => rfl
  | true =>
    simp only [isNewline, Bool.or_eq_true, decide_eq_true_eq] at hnewline
    obtain rfl | rfl := hnewline
    · exact absurd hc (hother _ (by decide))
    · exact absurd hc (hother _ (by decide))

theorem plain_encode (bytes : List UInt8) : Plain (Hex.encode bytes).toList := by
  rw [Hex.encode, String.toList_ofList]
  exact ⟨Hex.not_mem_digits (by decide) bytes, Hex.not_mem_digits (by decide) bytes⟩

/-- The statement `ps` puts the texts `values` of a block in, and no other. -/
structure Splices (values : List (List Char)) (ps : List Piece) : Prop where
  assembled : Assembled ps = true
  trusted : ∀ p ∈ ps, p.Trusted
  sent : ∀ v, .sent v ∈ ps ↔ v ∈ values

theorem Splices.keeps_iff {values : List (List Char)} {ps : List Piece} (h : Splices values ps)
    {beyond : List Char → Option (List Token)} :
    lex beyond (render ps) = some (tokens ps) ↔ ∀ value ∈ values, Plain value := by
  rw [lex_render_iff h.assembled h.trusted]
  simp only [h.sent]

section
set_option maxRecDepth 4000
variable {networkName : String} (hnetwork : Line networkName.toList)
include hnetwork

theorem splices_countUp {counter : List Char} {hash : String} (hhash : Line hash.toList)
    (h : Assembled (countUp networkName counter hash) = true) : Splices [] (countUp networkName counter hash) := by
  refine ⟨h, ?_, fun v => ?_⟩
  · simp only [countUp, List.forall_mem_cons, Piece.Trusted, hnetwork, hhash, List.not_mem_nil, IsEmpty.forall_iff,
      implies_true, true_and]
  · simp only [countUp, List.mem_cons, reduceCtorEq, List.not_mem_nil, or_self]

theorem splices_saveBlock {block : BlockRow} (hhash : Line block.channelGenesisHash.toList)
    (hprehash : Plain block.prehash.toList) (hdatahash : Plain block.datahash.toList) {stmt : SaveBlock}
    {ps : List Piece} (h : saveBlock networkName block stmt = some ps) : Splices [] ps := by
  cases stmt with
  | count =>
    cases h
    have hblocknum := line_printed block.blocknum
    have htxcount := line_printed block.txcount
    refine ⟨?_, ?_, fun v => ?_⟩
    · repeat rw [String.toList_ofList]
      rfl
    · simp only [List.forall_mem_cons, Piece.Trusted, hnetwork, hhash, hblocknum, htxcount, hprehash, hdatahash,
        List.not_mem_nil, IsEmpty.forall_iff, implies_true, true_and]
    · simp only [List.mem_cons, reduceCtorEq, List.not_mem_nil, or_self]
  | insert => cases h
  | channel =>
    cases h
    refine splices_countUp hnetwork hhash ?_
    unfold countUp
    repeat rw [String.toList_ofList]
    rfl

theorem splices_saveTransaction {row : TransactionRow} (hhash : Line row.channelGenesisHash.toList)
    {stmt : SaveTransaction} {ps : List Piece} (h : saveTransaction networkName row stmt = some ps) :
    Splices (if stmt = .count then [row.txhash.toList]
      else if stmt = .chaincodes then [row.chaincodename.toList] else []) ps := by
  cases stmt with
  | count =>
    cases h
    have hblockid := line_printed row.blockid
    refine ⟨?_, ?_, fun v => ?_⟩
    · repeat rw [String.toList_ofList]
      rfl
    · simp only [List.forall_mem_cons, Piece.Trusted, hnetwork, hhash, hblockid, List.not_mem_nil,
        IsEmpty.forall_iff, implies_true, true_and]
    · simp only [if_true, List.mem_cons, Piece.sent.injEq, reduceCtorEq, List.not_mem_nil, false_or, or_false]
  | insert => cases h
  | chaincodes =>
    cases h
    refine ⟨?_, ?_, fun v => ?_⟩
    · repeat rw [String.toList_ofList]
      rfl
    · simp only [List.forall_mem_cons, Piece.Trusted, hnetwork, hhash, List.not_mem_nil, IsEmpty.forall_iff,
        implies_true, true_and]
    · simp only [reduceCtorEq, if_false, if_true, List.mem_cons, Piece.sent.injEq, List.not_mem_nil, false_or,
        or_false]
  | channel =>
    cases h
    refine splices_countUp hnetwork hhash ?_
    unfold countUp
    repeat rw [String.toList_ofList]
    rfl

end

/-! ## Runs -/

section
variable {C : Client} {L : Ledger} (hnetwork : Line C.networkName.toList)
  (hgenesis : ∀ channelName hash, C.getChannelGenHash channelName = some hash → Line hash.toList)
  (hheader : ∀ channelName n block, L.block channelName n = some block → Hexadecimal block.header)
include hnetwork hgenesis hheader

theorem splices_awaited {s : St} (h : Inv C L s) {e : Exec} (he : e ∈ s.execs) {ps : List Piece}
    (hps : awaited C e = some ps) : Splices ((spliced e).map String.toList) ps := by
  obtain ⟨hfrom, hat⟩ := h.execs e he
  have hline : ∀ {hash : String}, e.channelGenesisHash = some hash → Line hash.toList := fun hhash =>
    hgenesis e.channelName _ (hfrom.hash.symm.trans hhash)
  unfold awaited at hps
  unfold Exec.At at hat
  unfold spliced
  split at hps
  · cases hps
  · cases hps
  · rename_i block i row stmt hpc
    rw [hpc] at hat
    obtain ⟨hrow, ⟨txObj, hget, htx⟩, -⟩ := hat
    obtain ⟨-, hhash, -, htxhash⟩ := transactionRow_key htx
    have hsplices := splices_saveTransaction hnetwork (hhash ▸ hline hrow.1) hps
    rw [htxhash, transactionRow_chaincodename htx] at hsplices
    rw [hpc]
    cases stmt with
    | insert => cases hps
    | count => simpa [hget] using hsplices
    | chaincodes => simpa [hget] using hsplices
    | channel => simpa using hsplices
  · rename_i block stmt hpc
    rw [hpc] at hat
    obtain ⟨hrow, -⟩ := hat
    obtain ⟨⟨previous, hprevious⟩, ⟨data, hdata⟩⟩ := hheader _ _ _ hfrom.ledger
    have hprehash : Plain block.prehash.toList := by
      rw [hrow.2, blockRow, hprevious]
      exact plain_encode previous
    have hdatahash : Plain block.datahash.toList := by
      rw [hrow.2, blockRow, hdata]
      exact plain_encode data
    rw [hpc]
    exact splices_saveBlock hnetwork (hline hrow.1) hprehash hdatahash hps

/-- **Which statements of the executions keep their meaning**: those in which
the texts of the block are plain. -/
theorem awaited_text_iff {s : St} (h : Inv C L s) {e : Exec} (he : e ∈ s.execs) {ps : List Piece}
    (hps : awaited C e = some ps) (beyond : List Char → Option (List Token)) :
    lex beyond (render ps) = some (tokens ps) ↔ ∀ text ∈ spliced e, Plain text.toList := by
  rw [(splices_awaited hnetwork hgenesis hheader h he hps).keeps_iff, List.forall_mem_map]

end

section
variable (C : Client) (L : Ledger) (beyond : List Char → Option (List Token)) (elsewhere : St → Ev → Option St)

/-- The assembled statement that a task awaits. -/
def sentBy (s : St) (i : Nat) : Option (List Piece) :=
  match s.tasks[i]? with
  | some (.block _ e) => awaited C e
  | _ => none

def sentAt (s : St) : Ev → Option (List Piece)
  | .run i | .fail i _ => sentBy C s i
  | _ => none

/-- The process that sends texts; `elsewhere` is what comes of one that is not
the statement that is meant. -/
def textStep (s : St) (ev : Ev) : Option St :=
  match sentAt C s ev with
  | some ps => if lex beyond (render ps) = some (tokens ps) then SyncService.step C L s ev else elsewhere s ev
  | none => SyncService.step C L s ev

def textLts (I : Db → Prop) : LTS St Ev :=
  LTS.ofFn (fun s => ∃ db, I db ∧ s = init db) (textStep C L beyond elsewhere)

end

theorem sentBy_execs {C : Client} {s : St} {i : Nat} {ps : List Piece} (h : sentBy C s i = some ps) :
    ∃ e ∈ s.execs, awaited C e = some ps := by
  unfold sentBy at h
  split at h
  · rename_i owner e hi
    exact ⟨e, mem_execs hi, h⟩
  · cases h

theorem sentAt_execs {C : Client} {s : St} {ev : Ev} {ps : List Piece} (h : sentAt C s ev = some ps) :
    ∃ e ∈ s.execs, awaited C e = some ps := by
  cases ev with
  | run i => exact sentBy_execs h
  | fail i took => exact sentBy_execs h
  | _ => cases h

/-- **The process that sends texts.** In every state, after any failures and
restarts, the statement that an execution awaits is the one that is meant if
and only if the tx id or the name of the chaincode in it is plain. Where all
of them are, PostgreSQL executes in every run what is meant. -/
theorem saved_text_iff {C : Client} {L : Ledger} (hnetwork : Line C.networkName.toList)
    (hgenesis : ∀ channelName hash, C.getChannelGenHash channelName = some hash → Line hash.toList)
    (hheader : ∀ channelName n block, L.block channelName n = some block → Hexadecimal block.header)
    (beyond : List Char → Option (List Token)) (elsewhere : St → Ev → Option St) :
    (∀ s, (lts C L (Fresh C)).Reachable s → ∀ e ∈ s.execs, ∀ ps, awaited C e = some ps →
      (lex beyond (render ps) = some (tokens ps) ↔ ∀ text ∈ spliced e, Plain text.toList)) ∧
    ((∀ channelName n block, L.block channelName n = some block → PlainTexts block) →
      ∀ s, (textLts C L beyond elsewhere (Fresh C)).Reachable s ↔ (lts C L (Fresh C)).Reachable s) := by
  have hinv : (lts C L (Fresh C)).Inductive (Inv C L) := inv_inductive fun _ hdb => hdb
  constructor
  · intro s hr e he ps hps
    exact awaited_text_iff hnetwork hgenesis hheader (hinv.reachable s hr) he hps beyond
  · intro hplain
    refine hinv.reachable_iff fun s ev h => ?_
    unfold textStep
    cases hsent : sentAt C s ev with
    | none => rfl
    | some ps =>
      obtain ⟨e, he, hps⟩ := sentAt_execs hsent
      have hkeeps : lex beyond (render ps) = some (tokens ps) :=
        (awaited_text_iff hnetwork hgenesis hheader h he hps beyond).2
          (plain_spliced (hplain _ _ _ (h.execs e he).1.ledger))
      exact if_pos hkeeps

/-! ## Two tx ids -/

/-- The ledger of one block with one transaction. -/
def ledgerOf (txid : String) : Ledger :=
  oneBlock ⟨⟨1, "0a", "0b"⟩, [transfer txid], [[0]]⟩ rfl (by simp [transfer])

theorem hexadecimal_ledgerOf (txid : String) (channelName : String) (n : Nat) (block : Block)
    (h : (ledgerOf txid).block channelName n = some block) : Hexadecimal block.header := by
  have hprevious : "0a" = Hex.encode [10] := by decide +kernel
  have hdata : "0b" = Hex.encode [11] := by decide +kernel
  simp only [ledgerOf, oneBlock] at h
  split at h
  · cases h
    exact ⟨⟨_, hprevious⟩, ⟨_, hdata⟩⟩
  · cases h

theorem plainTexts_ledgerOf {txid : String} (htxid : Plain txid.toList) (channelName : String) (n : Nat)
    (block : Block) (h : (ledgerOf txid).block channelName n = some block) : PlainTexts block := by
  simp only [ledgerOf, oneBlock] at h
  split at h
  · cases h
    refine ⟨List.forall_mem_singleton.2 htxid, List.forall_mem_singleton.2 ?_⟩
    have hline : Line "fabcar".toList := line_of_isLine (by decide)
    exact hline.plain
  · cases h

/-- The block is delivered, and its envelope is read. -/
def readOne : List Ev := [.blockEvent "mychannel" 1, .run 0, .run 0]

/-- The count of the rows of a transaction: with the tx id `t1` it is what is
meant; with the other one it counts all rows of the channel. -/
theorem saved_text_iff_twoTxIds :
    (∀ beyond elsewhere s, (textLts mychannel (ledgerOf "t1") beyond elsewhere (Fresh mychannel)).Reachable s ↔
      (lts mychannel (ledgerOf "t1") (Fresh mychannel)).Reachable s) ∧
    ∃ s e ps, LTS.exec (SyncService.step mychannel (ledgerOf "x' or '1'='1")) (init ⟨[], [], [], []⟩) readOne =
        some s ∧ e ∈ s.execs ∧ awaited mychannel e = some ps ∧ ∀ beyond, lex beyond (render ps) ≠ some (tokens ps) := by
  have hnetwork : Line mychannel.networkName.toList := by
    have hline : Line "first-network".toList := line_of_isLine (by decide)
    exact hline
  have hgenesis : ∀ channelName hash, mychannel.getChannelGenHash channelName = some hash → Line hash.toList := by
    have hline : Line "genesis".toList := line_of_isLine (by decide)
    intro channelName hash h
    simp only [mychannel] at h
    split at h
    · cases h
      exact hline
    · cases h
  constructor
  · intro beyond elsewhere
    have hplain : Plain "t1".toList := (line_of_isLine (by decide)).plain
    exact (saved_text_iff hnetwork hgenesis (hexadecimal_ledgerOf "t1") beyond elsewhere).2
      (plainTexts_ledgerOf hplain)
  · have hrun : (LTS.exec (SyncService.step mychannel (ledgerOf "x' or '1'='1")) (init ⟨[], [], [], []⟩)
        readOne).map (fun s => s.execs.map fun e => (spliced e, (awaited mychannel e).isSome)) =
          some [(["x' or '1'='1"], true)] := by decide +kernel
    obtain ⟨s, hs, hexecs⟩ := Option.map_eq_some_iff.1 hrun
    obtain ⟨e, rest, hcons, he, -⟩ := List.map_eq_cons_iff.1 hexecs
    rw [Prod.mk.injEq] at he
    obtain ⟨ps, hps⟩ := Option.isSome_iff_exists.1 he.2
    have hmem : e ∈ s.execs := hcons ▸ List.mem_cons_self
    refine ⟨s, e, ps, hs, hmem, hps, fun beyond hlex => ?_⟩
    have hfresh : Fresh mychannel ⟨[], [], [], []⟩ := ⟨by simp, by simp⟩
    have hiff := (saved_text_iff hnetwork hgenesis (hexadecimal_ledgerOf "x' or '1'='1") beyond
      fun _ _ => none).1 s
      (LTS.reachable_of_exec ⟨_, hfresh, rfl⟩ hs) e hmem ps hps
    have hplain := hiff.1 hlex "x' or '1'='1" (he.1 ▸ List.mem_singleton_self _)
    exact hplain.1 (by decide)

end Explorer.Fabric.Statements
