import Explorer.Core.SqlText
import Explorer.Fabric.Isolation

/-!
# Statements that are assembled from requests

Six routes of `dbroutes` hand a text of their path to `CRUDService` or
`MetricService`, which put it between quotes into the text of a statement.

`Script` is what the routes use of JavaScript's numbers and dates. `Server` is
PostgreSQL: the tokens that `SqlText` leaves open, how it reads a number, and
what it answers to a statement that is not the one that is meant.

* `request_text_iff`: whose statements keep their meaning.
-/
namespace Explorer.Fabric.Statements

open SqlText Query

/-- `print` is what a template literal makes of a number. -/
structure Script where
  Number : Type
  parseInt : String → Number
  isNaN : Number → Bool
  zero : Number
  print : Number → List Char
  numeral : ∀ n, Numeral (print n)
  parseDate : Option String → Option Int
  now : Int
  toISOString : Int → List Char
  line : ∀ t, Line (toISOString t)

/-- `number` is undefined where the text is the name of a column, such as
`NaN`. -/
structure Server where
  beyond : List Char → Option (List Token)
  number : List Char → Option Int
  elsewhere : Option (List Token) → Tables → Answer

/-! ## `CRUDService` -/

section
variable (networkName : String)

/-- mirrors app/persistence/fabric/CRUDService.js:42-47 -/
def getTransactionByID (txhash : String) : List Piece :=
  [.sql " select t.txhash,t.validation_code,t.payload_proposal_hash,t.creator_msp_id,".toList,
    .sql "t.endorser_msp_id,t.chaincodename,t.type,t.createdt,t.read_set,\n\t\t\t\tt.write_set,".toList,
    .sql "channel.name as channelName from TRANSACTIONS as t inner join channel on ".toList,
    .sql "t.channel_genesis_hash=channel.channel_genesis_hash and ".toList,
    .sql "t.network_name=channel.network_name\n\t\t\t\twhere t.txhash = ".toList, .sent txhash.toList,
    .sql " and t.network_name = ".toList, .given networkName.toList, .sql " ".toList]

variable (channelGenesisHash : String)

/-- mirrors app/persistence/fabric/CRUDService.js:57-65 -/
def getBlockActivityList : List Piece :=
  [.sql "select blocks.blocknum,blocks.txcount ,blocks.datahash ,blocks.blockhash ,blocks.prehash,".toList,
    .sql "blocks.createdt, (\n      SELECT  array_agg(txhash) as txhash FROM transactions where ".toList,
    .sql "blockid = blocks.blocknum and\n       channel_genesis_hash = ".toList,
    .sent channelGenesisHash.toList, .sql " and network_name = ".toList, .given networkName.toList,
    .sql " group by transactions.blockid ),\n      channel.name as channelname  from blocks inner ".toList,
    .sql "join channel on blocks.channel_genesis_hash = channel.channel_genesis_hash  where\n       ".toList,
    .sql "blocks.channel_genesis_hash =".toList, .sent channelGenesisHash.toList,
    .sql " and blocknum >= 0 and blocks.network_name = ".toList, .given networkName.toList,
    .sql "\n       order by blocks.blocknum desc limit 3".toList]

section
variable (blockNum txid «from» «to» : List Char) (orgs : List Piece)

def sqlTxListByOrgs : List Piece :=
  [.sql " select t.creator_msp_id,t.txhash,t.type,t.chaincodename,t.createdt,channel.name as ".toList,
    .sql "channelName from transactions as t\n       inner join channel on ".toList,
    .sql "t.channel_genesis_hash=channel.channel_genesis_hash and t.network_name = ".toList,
    .sql "channel.network_name where  t.blockid >= ".toList, .numeral blockNum, .sql " and t.id >= ".toList,
    .numeral txid, .sql " and t.creator_msp_id in (".toList] ++ orgs ++
    [.sql ") and\n\t\t\t\t\t\t\tt.channel_genesis_hash = ".toList, .sent channelGenesisHash.toList,
    .sql " and t.network_name = ".toList, .given networkName.toList, .sql " and t.createdt between ".toList,
    .given «from», .sql " and ".toList, .given «to», .sql "  order by  t.id desc".toList]

def sqlTxList : List Piece :=
  [.sql " select t.creator_msp_id,t.txhash,t.type,t.chaincodename,t.createdt,channel.name as ".toList,
    .sql "channelName from transactions as t\n       inner join channel on ".toList,
    .sql "t.channel_genesis_hash=channel.channel_genesis_hash and t.network_name = ".toList,
    .sql "channel.network_name where  t.blockid >= ".toList, .numeral blockNum, .sql " and t.id >= ".toList,
    .numeral txid, .sql " and\n\t\t\t\t\t\t\tt.channel_genesis_hash = ".toList,
    .sent channelGenesisHash.toList, .sql " and t.network_name = ".toList, .given networkName.toList,
    .sql " and t.createdt between ".toList, .given «from», .sql " and ".toList, .given «to»,
    .sql "  order by  t.id desc".toList]

/-- mirrors app/persistence/fabric/CRUDService.js:79-99 -/
def getTxList : List Piece :=
  if orgs = [] then sqlTxList networkName channelGenesisHash blockNum txid «from» «to»
  else sqlTxListByOrgs networkName channelGenesisHash blockNum txid «from» «to» orgs

def sqlBlockTxList : List Piece :=
  [.sql "select a.* from  (\n      select (select c.name from channel c where c.channel_genesis_hash ".toList,
    .sql "=\n         ".toList, .sent channelGenesisHash.toList, .sql " and c.network_name = ".toList,
    .given networkName.toList,
    .sql ") as channelname, blocks.blocknum,blocks.txcount ,blocks.datahash ,blocks.blockhash ,".toList,
    .sql "blocks.prehash,blocks.createdt, blocks.blksize, (\n        SELECT  array_agg(txhash) as ".toList,
    .sql "txhash FROM transactions where blockid = blocks.blocknum and\n         channel_genesis_hash ".toList,
    .sql "= ".toList, .sent channelGenesisHash.toList, .sql " and network_name = ".toList,
    .given networkName.toList, .sql " and createdt between ".toList, .given «from», .sql " and ".toList,
    .given «to», .sql ") from blocks where\n         blocks.channel_genesis_hash =".toList,
    .sent channelGenesisHash.toList, .sql " and blocks.network_name = ".toList, .given networkName.toList,
    .sql " and blocknum >= 0 and blocks.createdt between ".toList, .given «from», .sql " and ".toList,
    .given «to»,
    .sql "\n\t\t\t\t\t\t\t\t\torder by blocks.blocknum desc)  a where  a.txhash IS NOT NULL".toList]

def sqlBlockTxListByOrgs : List Piece :=
  [.sql "select a.* from  (\n\t\t\t\t\t\t\t\t\t\tselect (select c.name from channel c where ".toList,
    .sql "c.channel_genesis_hash =\n\t\t\t\t\t\t\t\t\t\t\t\t\t".toList, .sent channelGenesisHash.toList,
    .sql " and c.network_name = ".toList, .given networkName.toList,
    .sql " ) as channelname, blocks.blocknum,blocks.txcount ,blocks.datahash ,blocks.blockhash ,".toList,
    .sql "blocks.prehash,blocks.createdt, blocks.blksize, (\n\t\t\t\t\t\t\t\t\t\t\t\tSELECT  ".toList,
    .sql "array_agg(txhash) as txhash FROM transactions where blockid = blocks.blocknum  and ".toList,
    .sql "creator_msp_id in (".toList] ++ orgs ++
    [.sql ") and\n\t\t\t\t\t\t\t\t\t\t\t\t\tchannel_genesis_hash = ".toList, .sent channelGenesisHash.toList,
    .sql " and network_name = ".toList, .given networkName.toList, .sql " and createdt between ".toList,
    .given «from», .sql " and ".toList, .given «to»,
    .sql ") from blocks where\n\t\t\t\t\t\t\t\t\t\t\t\t\tblocks.channel_genesis_hash =".toList,
    .sent channelGenesisHash.toList, .sql " and blocks.network_name = ".toList, .given networkName.toList,
    .sql " and blocknum >= 0 and blocks.createdt between ".toList, .given «from», .sql " and ".toList,
    .given «to»,
    .sql "\n\t\t\t\t\t\t\t\t\t\t\t\t\torder by blocks.blocknum desc)  a where  a.txhash IS NOT NULL".toList]

/-- The number of the block is not used.
mirrors app/persistence/fabric/CRUDService.js:113-153 -/
def getBlockAndTxList : List Piece :=
  if orgs = [] then sqlBlockTxList networkName channelGenesisHash «from» «to»
  else sqlBlockTxListByOrgs networkName channelGenesisHash «from» «to» orgs

end

/-! ## `MetricService` -/

/-- mirrors app/persistence/fabric/MetricService.js:78-96 -/
def getPeerData : List Piece :=
  [.sql "select channel.name as channelName,c.requests as requests,c.channel_genesis_hash as ".toList,
    .sql "channel_genesis_hash ,\n    c.server_hostname as server_hostname, c.mspid as mspid, ".toList,
    .sql "c.peer_type as peer_type  from peer as c inner join  channel on\n    ".toList,
    .sql "c.channel_genesis_hash=channel.channel_genesis_hash where c.channel_genesis_hash=".toList,
    .sent channelGenesisHash.toList, .sql " and c.network_name=".toList, .given networkName.toList,
    .sql " ".toList]

/-- mirrors app/persistence/fabric/MetricService.js:127-146 -/
def getTxPerChaincodeGenerate : List Piece :=
  [.sql "select  c.name as chaincodename,channel.name as channelname ,c.version as version,".toList,
    .sql "c.channel_genesis_hash\n       as channel_genesis_hash,c.path as path ,txcount  as c from ".toList,
    .sql "chaincodes as c inner join channel on c.channel_genesis_hash=channel.channel_genesis_hash ".toList,
    .sql "where  c.channel_genesis_hash=".toList, .sent channelGenesisHash.toList,
    .sql " and  c.network_name=".toList, .given networkName.toList, .sql " ".toList]

end

/-! ## Requests -/

/-- `orgs` is the text of that parameter, empty where it is missing. -/
structure ReqQuery where
  «from» : Option String
  «to» : Option String
  orgs : String
  deriving DecidableEq, Repr

inductive Request where
  | transaction (channelGenesisHash txid : String)
  | blockActivity (channelGenesisHash : String)
  | txList (channelGenesisHash blocknum txid : String) (query : ReqQuery)
  | chaincode (channel : String)
  | peers (channelGenesisHash : String)
  | blockAndTxList (channelGenesisHash blocknum : String) (query : ReqQuery)
  deriving DecidableEq, Repr

def orgsArray (query : ReqQuery) : List (List Char) :=
  if query.orgs = "" then [] else query.orgs.toList.splitOn ','

/-- mirrors app/rest/requestutils.js:92-117 -/
def orgsArrayToString (query : ReqQuery) : List Piece :=
  ((orgsArray query).map Piece.listed).intersperse (.sql ",".toList)

section
variable (J : Script)

/-- mirrors app/rest/requestutils.js:119-128 -/
def queryDatevalidator (query : ReqQuery) : Int × Int :=
  match J.parseDate query.«from», J.parseDate query.«to» with
  | some «from», some «to» => («from», «to»)
  | _, _ => (J.now - 86400000, J.now)

/-- The `txid` of `/txList`. -/
def txidOrZero (txid : String) : J.Number :=
  if J.isNaN (J.parseInt txid) then J.zero else J.parseInt txid

/-- The others are answered with `invalidRequest`. -/
def Request.accepted : Request → Bool
  | .transaction hash txid => txid ≠ "" && txid ≠ "0" && hash ≠ ""
  | .blockAndTxList hash blocknum _ => hash ≠ "" && !J.isNaN (J.parseInt blocknum)
  | .blockActivity hash | .txList hash _ _ _ | .chaincode hash | .peers hash => hash ≠ ""

/-- mirrors app/rest/dbroutes.js:81-251 -/
def statement (networkName : String) : Request → List Piece
  | .transaction _ txid => getTransactionByID networkName txid
  | .blockActivity hash => getBlockActivityList networkName hash
  | .txList hash blocknum txid query =>
    getTxList networkName hash (J.print (J.parseInt blocknum)) (J.print (txidOrZero J txid))
      (J.toISOString (queryDatevalidator J query).1) (J.toISOString (queryDatevalidator J query).2)
      (orgsArrayToString query)
  | .chaincode channel => getTxPerChaincodeGenerate networkName channel
  | .peers hash => getPeerData networkName hash
  | .blockAndTxList hash _ query =>
    getBlockAndTxList networkName hash (J.toISOString (queryDatevalidator J query).1)
      (J.toISOString (queryDatevalidator J query).2) (orgsArrayToString query)

/-- The statement that is handed to PostgreSQL. -/
def handed (networkName : String) (r : Request) : Option (List Piece) :=
  if r.accepted J then some (statement J networkName r) else none

end

/-- The text of a request that its statement has. -/
def Request.inserted : Request → String
  | .transaction _ txid => txid
  | .blockActivity hash | .txList hash _ _ _ | .chaincode hash | .peers hash | .blockAndTxList hash _ _ => hash

def Request.orgs : Request → String
  | .txList _ _ _ query | .blockAndTxList _ _ query => query.orgs
  | _ => ""

/-! ## Answers -/

section
variable (J : Script) (V : Server) (networkName : String)

/-- A condition `createdt between …`; there is no row from before 1970. -/
def during (dates : Int × Int) (read : Nat → Nat → Answer) : Answer :=
  if dates.2 < 0 then .rows [] else read dates.1.toNat dates.2.toNat

def orgNames (query : ReqQuery) : List String := (orgsArray query).map String.ofList

/-- What the statement that is meant answers. -/
def meant (db : Tables) : Request → Answer
  | .transaction _ txid => Reads.getTransactionByID networkName db txid
  | .blockActivity hash => Reads.getBlockActivityList networkName db hash
  | .txList hash blocknum txid query =>
    match V.number (J.print (J.parseInt blocknum)), V.number (J.print (txidOrZero J txid)) with
    | some blockNum, some txid =>
      during (queryDatevalidator J query) fun «from» «to» =>
        Reads.getTxList networkName db hash blockNum.toNat txid.toNat «from» «to» (orgNames query)
    | _, _ => .rejected "column does not exist"
  | .chaincode channel => Reads.getTxPerChaincodeGenerate networkName db channel
  | .peers hash => Reads.getPeerData networkName db hash
  | .blockAndTxList hash _ query =>
    during (queryDatevalidator J query) fun «from» «to» =>
      Reads.getBlockAndTxList networkName db hash «from» «to» (orgNames query)

def answer (db : Tables) (r : Request) : Option Answer :=
  (handed J networkName r).map fun ps =>
    if lex V.beyond (render ps) = some (tokens ps) then meant J V networkName db r
    else V.elsewhere (lex V.beyond (render ps)) db

/-- The tables that the conditions on `network_name` are about, with the rows
that meet them; `channel` is joined as it is. -/
def conditioned (db : Tables) : Tables := { db.ofNetwork networkName with channel := db.channel }

/-- The statement is the one that is meant, and the rows of its answer are
from the network. -/
structure KeepsMeaning (r : Request) : Prop where
  parses : ∀ ps, handed J networkName r = some ps → lex V.beyond (render ps) = some (tokens ps)
  inNetwork : ∀ db, answer J V networkName db r = answer J V networkName (conditioned networkName db) r

theorem meant_conditioned (db : Tables) (r : Request) :
    meant J V networkName (conditioned networkName db) r = meant J V networkName db r := by
  have hblocks : ∀ hash, Reads.blocksIn networkName (conditioned networkName db) hash =
      Reads.blocksIn networkName db hash := Reads.blocksIn_ofNetwork networkName db
  have htransactions : ∀ hash, Reads.transactionsIn networkName (conditioned networkName db) hash =
      Reads.transactionsIn networkName db hash := Reads.transactionsIn_ofNetwork networkName db
  have hchannel : (conditioned networkName db).channel = db.channel := rfl
  cases r with
  | transaction hash txid =>
    have hrows : (conditioned networkName db).transactions.filter
        (fun t => t.txhash = txid ∧ t.networkName = networkName) =
          db.transactions.filter fun t => t.txhash = txid ∧ t.networkName = networkName :=
      filter_restrict (by simp)
    simp only [meant, Reads.getTransactionByID, Reads.withChannel, hrows, hchannel]
  | blockActivity hash => simp only [meant, Reads.getBlockActivityList, hblocks, htransactions, hchannel]
  | txList hash blocknum txid query =>
    simp only [meant, Reads.getTxList, Reads.withChannel, htransactions, hchannel]
  | chaincode channel =>
    have hchaincodes : Reads.chaincodesIn networkName (conditioned networkName db) channel =
        Reads.chaincodesIn networkName db channel := Reads.chaincodesIn_ofNetwork networkName db channel
    simp only [meant, Reads.getTxPerChaincodeGenerate, hchaincodes, hchannel]
  | peers hash =>
    have hpeers : Reads.peersIn networkName (conditioned networkName db) hash =
        Reads.peersIn networkName db hash := Reads.peersIn_ofNetwork networkName db hash
    simp only [meant, Reads.getPeerData, hpeers, hchannel]
  | blockAndTxList hash blocknum query =>
    have hin : ∀ hash, Reads.channelIn networkName (conditioned networkName db) hash =
        Reads.channelIn networkName db hash := fun _ => rfl
    simp only [meant, Reads.getBlockAndTxList, hblocks, htransactions, hin]

end

/-! ## The statements are assembled well -/

theorem mem_of_mem_splitOn {c d : Char} {cs xs : List Char} (hxs : xs ∈ cs.splitOn d) (hc : c ∈ xs) :
    c ∈ cs := by
  induction cs generalizing xs with
  | nil =>
    rw [List.splitOn_nil, List.mem_singleton] at hxs
    rwa [hxs] at hc
  | cons b cs ih =>
    obtain ⟨ys, yss, hsplit⟩ := List.exists_cons_of_ne_nil (List.splitOn_ne_nil d cs)
    rw [List.splitOn_cons_eq_if_modifyHead] at hxs
    split at hxs
    · obtain rfl | hxs := List.mem_cons.1 hxs
      · cases hc
      · exact List.mem_cons_of_mem b (ih hxs hc)
    · rw [hsplit, List.modifyHead_cons] at hxs
      obtain rfl | hxs := List.mem_cons.1 hxs
      · obtain rfl | hc := List.mem_cons.1 hc
        · exact List.mem_cons_self
        · exact List.mem_cons_of_mem b (ih (hsplit ▸ List.mem_cons_self) hc)
      · exact List.mem_cons_of_mem b (ih (hsplit ▸ List.mem_cons_of_mem ys hxs) hc)

/-- The names between the commas of a plain text are plain. -/
theorem plain_orgsArray {query : ReqQuery} (h : Plain query.orgs.toList) :
    ∀ name ∈ orgsArray query, Plain name := by
  intro name hname
  unfold orgsArray at hname
  split at hname
  · cases hname
  · exact ⟨fun hmem => h.1 (mem_of_mem_splitOn hname hmem), fun hmem => h.2 (mem_of_mem_splitOn hname hmem)⟩

theorem mem_intersperse {sep p : Piece} {ps : List Piece} (h : p ∈ ps.intersperse sep) : p = sep ∨ p ∈ ps := by
  induction ps with
  | nil => cases h
  | cons q ps ih =>
    cases ps with
    | nil => exact .inr h
    | cons next ps =>
      rw [List.intersperse_cons_cons, List.mem_cons, List.mem_cons] at h
      rcases h with rfl | rfl | h
      · exact .inr List.mem_cons_self
      · exact .inl rfl
      · exact (ih h).imp_right (List.mem_cons_of_mem q)

theorem mem_orgsArrayToString {query : ReqQuery} {p : Piece} (h : p ∈ orgsArrayToString query) :
    p = .sql ",".toList ∨ ∃ name ∈ orgsArray query, p = .listed name := by
  obtain hsql | hmem := mem_intersperse h
  · exact .inl hsql
  · obtain ⟨name, hname, rfl⟩ := List.mem_map.1 hmem
    exact .inr ⟨name, hname, rfl⟩

theorem trusted_orgsArrayToString {query : ReqQuery} (h : Plain query.orgs.toList) :
    ∀ p ∈ orgsArrayToString query, p.Trusted := by
  intro p hp
  obtain rfl | ⟨name, hname, rfl⟩ := mem_orgsArrayToString hp
  · trivial
  · exact plain_orgsArray h name hname

theorem sent_orgsArrayToString {query : ReqQuery} {value : List Char} :
    (.sent value ∈ orgsArrayToString query) ↔ False := by
  refine ⟨fun hmem => ?_, False.elim⟩
  obtain hsql | ⟨name, -, hlisted⟩ := mem_orgsArrayToString hmem
  · cases hsql
  · cases hlisted

theorem assembled_listed (names : List (List Char)) {ps : List Piece} (hafter : afterValue ps = true)
    (h : Assembled ps = true) :
    Assembled ((names.map Piece.listed).intersperse (.sql [',']) ++ ps) = true := by
  induction names with
  | nil => exact h
  | cons name names ih =>
    cases names with
    | nil =>
      show (afterValue ps && Assembled ps) = true
      rw [hafter, h]
      rfl
    | cons next names => exact ih

/-- The statement `ps` puts the text `value` of a request in, and no other. -/
structure Sends (value : List Char) (ps : List Piece) : Prop where
  assembled : Assembled ps = true
  trusted : ∀ p ∈ ps, p.Trusted
  sent : ∀ v, .sent v ∈ ps ↔ v = value

section
set_option maxRecDepth 4000
variable {networkName : String} (hnetwork : Line networkName.toList) (channelGenesisHash : String)
include hnetwork

-- The literals are turned into lists of characters before anything is computed.
theorem sends_getTransactionByID (txhash : String) :
    Sends txhash.toList (getTransactionByID networkName txhash) := by
  unfold getTransactionByID
  refine ⟨?_, ?_, fun v => ?_⟩
  · repeat rw [String.toList_ofList]
    rfl
  · simp only [List.forall_mem_cons, Piece.Trusted, hnetwork, List.not_mem_nil, IsEmpty.forall_iff,
      implies_true, true_and]
  · simp only [List.mem_cons, Piece.sent.injEq, reduceCtorEq, List.not_mem_nil, false_or, or_false]

theorem sends_getBlockActivityList :
    Sends channelGenesisHash.toList (getBlockActivityList networkName channelGenesisHash) := by
  unfold getBlockActivityList
  refine ⟨?_, ?_, fun v => ?_⟩
  · repeat rw [String.toList_ofList]
    rfl
  · simp only [List.forall_mem_cons, Piece.Trusted, hnetwork, List.not_mem_nil, IsEmpty.forall_iff,
      implies_true, true_and]
  · simp only [List.mem_cons, Piece.sent.injEq, reduceCtorEq, List.not_mem_nil, false_or, or_false, or_self]

theorem sends_getPeerData : Sends channelGenesisHash.toList (getPeerData networkName channelGenesisHash) := by
  unfold getPeerData
  refine ⟨?_, ?_, fun v => ?_⟩
  · repeat rw [String.toList_ofList]
    rfl
  · simp only [List.forall_mem_cons, Piece.Trusted, hnetwork, List.not_mem_nil, IsEmpty.forall_iff,
      implies_true, true_and]
  · simp only [List.mem_cons, Piece.sent.injEq, reduceCtorEq, List.not_mem_nil, false_or, or_false, or_self]

theorem sends_getTxPerChaincodeGenerate :
    Sends channelGenesisHash.toList (getTxPerChaincodeGenerate networkName channelGenesisHash) := by
  unfold getTxPerChaincodeGenerate
  refine ⟨?_, ?_, fun v => ?_⟩
  · repeat rw [String.toList_ofList]
    rfl
  · simp only [List.forall_mem_cons, Piece.Trusted, hnetwork, List.not_mem_nil, IsEmpty.forall_iff,
      implies_true, true_and]
  · simp only [List.mem_cons, Piece.sent.injEq, reduceCtorEq, List.not_mem_nil, false_or, or_false, or_self]

variable {query : ReqQuery} (horgs : ∀ p ∈ orgsArrayToString query, p.Trusted) {«from» «to» : List Char}
  (hfrom : Line «from») (hto : Line «to»)
include horgs hfrom hto

theorem sends_getTxList {blockNum txid : List Char} (hblockNum : Numeral blockNum) (htxid : Numeral txid) :
    Sends channelGenesisHash.toList
      (getTxList networkName channelGenesisHash blockNum txid «from» «to» (orgsArrayToString query)) := by
  unfold getTxList
  split
  · unfold sqlTxList
    refine ⟨?_, ?_, fun v => ?_⟩
    · repeat rw [String.toList_ofList]
      rfl
    · simp only [List.forall_mem_cons, Piece.Trusted, hnetwork, hfrom, hto, hblockNum, htxid, List.not_mem_nil,
        IsEmpty.forall_iff, implies_true, true_and]
    · simp only [List.mem_cons, Piece.sent.injEq, reduceCtorEq, List.not_mem_nil, false_or, or_false, or_self]
  · unfold sqlTxListByOrgs
    refine ⟨?_, ?_, fun v => ?_⟩
    · repeat rw [String.toList_ofList]
      rw [List.append_assoc]
      exact assembled_listed _ rfl rfl
    · rw [List.forall_mem_append, List.forall_mem_append]
      refine ⟨⟨?_, horgs⟩, ?_⟩ <;>
        simp only [List.forall_mem_cons, Piece.Trusted, hnetwork, hfrom, hto, hblockNum, htxid, List.not_mem_nil,
          IsEmpty.forall_iff, implies_true, true_and]
    · simp only [List.mem_append, List.mem_cons, sent_orgsArrayToString, Piece.sent.injEq, reduceCtorEq,
        List.not_mem_nil, false_or, or_false, or_self]

theorem sends_getBlockAndTxList :
    Sends channelGenesisHash.toList
      (getBlockAndTxList networkName channelGenesisHash «from» «to» (orgsArrayToString query)) := by
  unfold getBlockAndTxList
  split
  · unfold sqlBlockTxList
    refine ⟨?_, ?_, fun v => ?_⟩
    · repeat rw [String.toList_ofList]
      rfl
    · simp only [List.forall_mem_cons, Piece.Trusted, hnetwork, hfrom, hto, List.not_mem_nil, IsEmpty.forall_iff,
        implies_true, true_and]
    · simp only [List.mem_cons, Piece.sent.injEq, reduceCtorEq, List.not_mem_nil, false_or, or_false, or_self]
  · unfold sqlBlockTxListByOrgs
    refine ⟨?_, ?_, fun v => ?_⟩
    · repeat rw [String.toList_ofList]
      rw [List.append_assoc]
      exact assembled_listed _ rfl rfl
    · rw [List.forall_mem_append, List.forall_mem_append]
      refine ⟨⟨?_, horgs⟩, ?_⟩ <;>
        simp only [List.forall_mem_cons, Piece.Trusted, hnetwork, hfrom, hto, List.not_mem_nil,
          IsEmpty.forall_iff, implies_true, true_and]
    · simp only [List.mem_append, List.mem_cons, sent_orgsArrayToString, Piece.sent.injEq, reduceCtorEq,
        List.not_mem_nil, false_or, or_false, or_self]

end

section
variable {networkName : String} (hnetwork : Line networkName.toList) {r : Request} (horgs : Plain r.orgs.toList)
include hnetwork horgs

theorem sends_statement (J : Script) : Sends r.inserted.toList (statement J networkName r) := by
  cases r with
  | transaction hash txid => exact sends_getTransactionByID hnetwork txid
  | blockActivity hash => exact sends_getBlockActivityList hnetwork hash
  | txList hash blocknum txid query =>
    exact sends_getTxList hnetwork hash (trusted_orgsArrayToString horgs) (J.line _) (J.line _) (J.numeral _)
      (J.numeral _)
  | chaincode channel => exact sends_getTxPerChaincodeGenerate hnetwork channel
  | peers hash => exact sends_getPeerData hnetwork hash
  | blockAndTxList hash blocknum query =>
    exact sends_getBlockAndTxList hnetwork hash (trusted_orgsArrayToString horgs) (J.line _) (J.line _)

/-- **Whose statements keep their meaning.** For every request, whatever the
server makes of other statements: if and only if the text that it puts into
the statement is plain, where there is a statement. -/
theorem request_text_iff (J : Script) (V : Server) :
    KeepsMeaning J V networkName r ↔ (r.accepted J = true → Plain r.inserted.toList) := by
  obtain ⟨hassembled, htrusted, hsent⟩ := sends_statement hnetwork horgs J
  have hmeant : lex V.beyond (render (statement J networkName r)) = some (tokens (statement J networkName r)) ↔
      Plain r.inserted.toList := by
    rw [lex_render_iff hassembled htrusted]
    simp only [hsent, forall_eq]
  have hhanded : r.accepted J = true → handed J networkName r = some (statement J networkName r) :=
    fun h => if_pos h
  constructor
  · intro h haccepted
    exact hmeant.1 (h.parses _ (hhanded haccepted))
  · intro hplain
    cases haccepted : r.accepted J with
    | false =>
      have hnone : handed J networkName r = none := if_neg (by simp [haccepted])
      refine ⟨fun ps hps => ?_, fun db => ?_⟩
      · rw [hnone] at hps
        cases hps
      · rw [answer, answer, hnone]
        rfl
    | true =>
      have hlex := hmeant.2 (hplain haccepted)
      refine ⟨fun ps hps => ?_, fun db => ?_⟩
      · rw [hhanded haccepted, Option.some.injEq] at hps
        rw [← hps, hlex]
      · rw [answer, answer, hhanded haccepted, Option.map_some, Option.map_some, if_pos hlex, if_pos hlex,
          meant_conditioned]

end

/-! ## A request -/

/-- Numbers up to where a template prints all digits; no dates in requests. -/
def naturals : Script where
  Number := Option Nat
  parseInt := String.toNat?
  isNaN := Option.isNone
  zero := some 0
  print
    | none => "NaN".toList
    | some n => Nat.toDigits 10 n
  numeral := by
    rintro (_ | n)
    · exact .inl (.word 'N' ['a', 'N'] (List.all_eq_true.1 rfl))
    · refine .inl ?_
      obtain ⟨c, cs, hdigits⟩ := List.exists_cons_of_ne_nil (Nat.toDigits_ne_nil (n := n) (b := 10))
      simp only [hdigits]
      refine .word c cs fun d hd => ?_
      have hdigit : d.isDigit = true := Nat.isDigit_of_mem_toDigits (by decide) (by decide) (hdigits ▸ hd)
      simp [isWord, Char.isAlphanum, hdigit]
  parseDate _ := none
  now := 1577836800000
  toISOString t := if t = 1577836800000 then "2020-01-01T00:00:00.000Z".toList else "2019-12-31T00:00:00.000Z".toList
  line t := by
    split
    · exact line_of_isLine (by decide)
    · exact line_of_isLine (by decide)

def postgres : Server where
  beyond _ := none
  number text := (String.ofList text).toInt?
  elsewhere _ _ := .rejected "syntax error"

theorem line_net1 : Line "net1".toList := line_of_isLine (by decide)

/-- The transactions of two organisations, from block 5 on. -/
theorem request_text_iff_genesis :
    Line "net1".toList ∧ Plain "Org1MSP,Org2MSP".toList ∧ KeepsMeaning naturals postgres "net1"
      (.txList "genesis" "5" "0" ⟨none, none, "Org1MSP,Org2MSP"⟩) := by
  have horgs : Plain "Org1MSP,Org2MSP".toList := (line_of_isLine (by decide)).plain
  have hhash : Plain "genesis".toList := (line_of_isLine (by decide)).plain
  refine ⟨line_net1, horgs, ?_⟩
  have hiff := request_text_iff (r := .txList "genesis" "5" "0" ⟨none, none, "Org1MSP,Org2MSP"⟩) line_net1 horgs
    naturals postgres
  exact hiff.2 fun _ => hhash

/-- `/transaction/genesis/<txid>` -/
def foreignTransaction : Request := .transaction "genesis" "x' or t.network_name = 'net2' --"

set_option maxRecDepth 4000 in
/-- The statement asks for the transactions of another network: its literals
are `x` and `net2`, and its own condition has become a comment. -/
theorem request_text_net2 :
    (∀ V : Server, (lex V.beyond (render (statement naturals "net1" foreignTransaction))).map literals =
      some ["x".toList, "net2".toList]) ∧
    ¬ ∀ J V networkName r, Line networkName.toList → Plain r.orgs.toList → KeepsMeaning J V networkName r := by
  have hliterals : ∀ V : Server,
      (lex V.beyond (render (statement naturals "net1" foreignTransaction))).map literals =
        some ["x".toList, "net2".toList] := by
    intro V
    unfold foreignTransaction statement getTransactionByID
    repeat rw [String.toList_ofList]
    rfl
  have hmeant : literals (tokens (statement naturals "net1" foreignTransaction)) =
      ["x' or t.network_name = 'net2' --".toList, "net1".toList] := by
    unfold foreignTransaction statement getTransactionByID
    repeat rw [String.toList_ofList]
    rfl
  refine ⟨hliterals, fun h => ?_⟩
  have hkeeps := h naturals postgres "net1" foreignTransaction line_net1 ⟨by decide, by decide⟩
  have hlex := hkeeps.parses _ (if_pos (by decide))
  have hsame := hliterals postgres
  rw [hlex, Option.map_some, hmeant, Option.some.injEq] at hsame
  exact absurd hsame (by decide)

end Explorer.Fabric.Statements
