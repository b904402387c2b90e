import Mathlib.Algebra.Ring.Nat
import Mathlib.Data.List.Basic
import Std.Data.String.ToNat
import Explorer.Core.LTS
import Explorer.Core.InProcess
import Explorer.Fabric.Crud

/-!
# `SyncServices.processBlockEvent` and `synchBlocks`

One sync process: executions of `processBlockEvent`, started by the block
listeners or by catch-up runs of `synchBlocks`, interleave at every `await`.
`Exec` is one execution with the await it stands at (`Pc`), `Exec.resume`
runs it to the next one. `St` is the database with the memory of the
process; an event (`Ev`) is a delivery, a call, the execution of the
statement some task awaits, or a failure.

The blocks come from the ledger: the same number is always the same block,
in its header and in the channel of its first envelope. A statement fails
with or without having taken effect; a task that throws leaves its keys in
`blocksInProcess` and `synchInProcess`; a crash loses the memory.

The timers that start discovery ten seconds later are operations of their
own; what they do to these tables is to register chaincodes (`discovered`).
`tasks` is a bag: the resumed task moves to its end. `sent` and `delivered`
are ghosts: the notifications sent, and the blocks passed to
`processBlockEvent`.
-/
namespace Explorer.Fabric.SyncService

/-! ## `processBlockEvent` -/

/-- The awaits of `processBlockEvent`, with the rows built so far. -/
inductive Pc where
  | timeStamp
  | blockHash
  | saveTransaction (block : BlockRow) (i : Nat) (row : TransactionRow) (stmt : SaveTransaction)
  | saveBlock (block : BlockRow) (stmt : SaveBlock)
  deriving DecidableEq, Repr

structure Exec where
  channelName : String
  channelGenesisHash : Option String
  block : Block
  firstTx : Envelope
  pc : Pc
  deriving DecidableEq, Repr

structure Notify where
  notifyType : String
  networkName : String
  clientName : String
  channelName : String
  title : String
  type : String
  message : String
  time : Nat
  txcount : Nat
  datahash : String
  blksize : Nat
  deriving DecidableEq, Repr

/-- mirrors app/platform/fabric/sync/SyncService.js:424 -/
def blockProKey (channelName : String) (number : Nat) : String := channelName ++ "_" ++ toString number

def Exec.key (e : Exec) : String := blockProKey e.channelName e.block.header.number

variable (C : Client)

/-- `NOTITY_TYPE_BLOCK`.
mirrors app/platform/fabric/sync/SyncService.js:669-681 -/
def blockNotify (e : Exec) (row : BlockRow) : Notify where
  notifyType := "4"
  networkName := C.networkName
  clientName := C.clientName
  channelName := e.channelName
  title := s!"Block {e.block.header.number} added to Channel: {e.channelName}"
  type := "block"
  message := s!"Block {e.block.header.number} established with {e.block.data.length} tx"
  time := row.createdt
  txcount := e.block.data.length
  datahash := e.block.header.dataHash
  blksize := row.blksize

/-- The head of the loop over the envelopes, and the block after it.
mirrors app/platform/fabric/sync/SyncService.js:507-508,652-664 -/
def Exec.nextTransaction (e : Exec) (block : BlockRow) (i : Nat) : Outcome Exec (List Notify) :=
  match e.block.data[i]? with
  | some txObj =>
    match transactionRow C block.channelGenesisHash block.createdt e.block i txObj with
    | some row => .await { e with pc := .saveTransaction block i row .count }
    | none => .thrown
  | none => .await { e with pc := .saveBlock block .count }

/-- The statement awaited is executed and the function runs to its next
await; it returns the notifications it has sent.
mirrors app/platform/fabric/sync/SyncService.js:491-691 -/
def Exec.resume (db : Db) (e : Exec) : Db × Outcome Exec (List Notify) :=
  match e.pc with
  | .timeStamp => (db, .await { e with pc := .blockHash })
  | .blockHash =>
    (db, match e.channelGenesisHash with
      | some hash => e.nextTransaction C (blockRow C hash e.block e.firstTx) 0
      | none => .done [])
  | .saveTransaction block i row stmt =>
    match stmt.run C.networkName row db with
    | (db, .inl stmt) => (db, .await { e with pc := .saveTransaction block i row stmt })
    | (db, .inr _) => (db, e.nextTransaction C block (i + 1))
  | .saveBlock block stmt =>
    match stmt.run C.networkName block db with
    | (db, .inl stmt) => (db, .await { e with pc := .saveBlock block stmt })
    | (db, .inr status) => (db, .done (if status then [blockNotify C e block] else []))

/-! ## The process -/

/-- Who awaits a `processBlockEvent`: the listener, or `synchBlocks` with the
missing numbers that are still to do. -/
inductive Owner where
  | listener
  | synchBlocks (channelName : String) (rest : List Nat)
  deriving DecidableEq, Repr

/-- The other awaits of `synchBlocks`. -/
inductive SynchPc where
  | chainInfo
  | missing (blockHeight : Int)
  | queryBlock (id : Nat) (rest : List Nat)
  deriving DecidableEq, Repr

inductive Task where
  | block (owner : Owner) (e : Exec)
  | synch (channelName : String) (pc : SynchPc)
  deriving DecidableEq, Repr

structure St where
  db : Db
  blocksInProcess : List String
  synchInProcess : List String
  tasks : List Task
  sent : List Notify
  delivered : List (String × Nat)
  deriving DecidableEq, Repr

/-- The ledger of each channel. -/
structure Ledger where
  block : String → Nat → Option Block
  number : ∀ channelName n b, block channelName n = some b → b.header.number = n
  channel : ∀ channelName n b first, block channelName n = some b → b.data.head? = some first →
    first.channelId = channelName

/-- `run i`: the statement that task `i` awaits is executed. `fail i took`: it
is rejected, having taken effect or not. `queryChainInfo` and `queryBlock`
answer null when they fail. -/
inductive Ev where
  | blockEvent (channelName : String) (n : Nat)
  | synchBlocks (channelName : String)
  | chainInfo (i : Nat) (height : Option Nat)
  | queryBlock (i : Nat) (found : Bool)
  | run (i : Nat)
  | fail (i : Nat) (took : Bool)
  | discovered (row : ChaincodeRow)
  | crash
  deriving DecidableEq, Repr

def synchKey (channelName : String) : String := C.clientName ++ "_" ++ channelName

def St.push (s : St) (t : Task) : St := { s with tasks := s.tasks ++ [t] }

/-- The loop of `synchBlocks` over the missing numbers, and its end.
mirrors app/platform/fabric/sync/SyncService.js:390-405 -/
def St.nextMissing (s : St) (channelName : String) : List Nat → St
  | [] => { s with synchInProcess := release s.synchInProcess (synchKey C channelName) }
  | id :: rest => s.push (.synch channelName (.queryBlock id rest))

def St.returnTo (s : St) : Owner → St
  | .listener => s
  | .synchBlocks channelName rest => s.nextMissing C channelName rest

/-- The synchronous part of `processBlockEvent`.
mirrors app/platform/fabric/sync/SyncService.js:416-432 -/
def St.processBlockEvent (s : St) (owner : Owner) (block : Block) : St :=
  match block.data with
  | [] => s
  | firstTx :: _ =>
    let key := blockProKey firstTx.channelId block.header.number
    let s := { s with delivered := s.delivered ++ [(firstTx.channelId, block.header.number)] }
    if key ∈ s.blocksInProcess then s.returnTo C owner
    else
      { s with blocksInProcess := s.blocksInProcess ++ [key] }.push
        (.block owner ⟨firstTx.channelId, C.getChannelGenHash firstTx.channelId, block, firstTx, .timeStamp⟩)

/-- What becomes of a resumed execution: it awaits again, it releases its key
and returns, or it throws, and then so does who awaits it.
mirrors app/platform/fabric/sync/SyncService.js:689-690 -/
def St.settle (s : St) (owner : Owner) (key : String) : Outcome Exec (List Notify) → St
  | .await e => s.push (.block owner e)
  | .done notes =>
    { s with blocksInProcess := release s.blocksInProcess key, sent := s.sent ++ notes }.returnTo C owner
  | .thrown => s

/-- `parseInt(channelInfo.height.low)`: the low half of a 64-bit number, read
as a signed one. -/
def low (height : Nat) : Int := (height : Int).bmod (2 ^ 32)

/-- mirrors app/platform/fabric/sync/SyncService.js:370-406,416-691,
app/platform/fabric/sync/FabricEvent.js:61-66 -/
def step (L : Ledger) (s : St) : Ev → Option St
  | .blockEvent channelName n =>
    if n = 0 then some s
    else (L.block channelName n).map fun block => s.processBlockEvent C .listener block
  | .synchBlocks channelName =>
    if synchKey C channelName ∈ s.synchInProcess then some s
    else some
      ({ s with synchInProcess := s.synchInProcess ++ [synchKey C channelName] }.push
        (.synch channelName .chainInfo))
  | .chainInfo i height =>
    match s.tasks[i]? with
    | some (.synch channelName .chainInfo) =>
      let s := { s with tasks := s.tasks.eraseIdx i }
      match height with
      | some height => some (s.push (.synch channelName (.missing (low height - 1))))
      | none => some s
    | _ => none
  | .queryBlock i found =>
    match s.tasks[i]? with
    | some (.synch channelName (.queryBlock id rest)) =>
      let s := { s with tasks := s.tasks.eraseIdx i }
      if found then
        (L.block channelName id).map fun block =>
          s.processBlockEvent C (.synchBlocks channelName rest) block
      else some (s.nextMissing C channelName rest)
    | _ => none
  | .run i =>
    match s.tasks[i]? with
    | some (.block owner e) =>
      let (db, outcome) := e.resume C s.db
      some ({ s with db := db, tasks := s.tasks.eraseIdx i }.settle C owner e.key outcome)
    | some (.synch channelName (.missing blockHeight)) =>
      let hash := (C.getChannelGenHash channelName).getD "undefined"
      let results := findMissingBlockNumber C.networkName hash blockHeight s.db
      some ({ s with tasks := s.tasks.eraseIdx i }.nextMissing C channelName results)
    | _ => none
  | .fail i took =>
    match s.tasks[i]? with
    | some (.block _ e) =>
      some { s with db := if took then (e.resume C s.db).1 else s.db, tasks := s.tasks.eraseIdx i }
    | some (.synch _ (.missing _)) => some { s with tasks := s.tasks.eraseIdx i }
    | _ => none
  | .discovered row => some { s with db := { s.db with chaincodes := s.db.chaincodes ++ [row] } }
  | .crash => some { s with blocksInProcess := [], synchInProcess := [], tasks := [] }

def init (db : Db) : St := ⟨db, [], [], [], [], []⟩

/-- The runs from a database that meets `I`. -/
def lts (L : Ledger) (I : Db → Prop) : LTS St Ev := LTS.ofFn (fun s => ∃ db, I db ∧ s = init db) (step C L)

/-! ## Keys -/

/-- What follows the last underscore of a key is its number. -/
theorem takeWhile_key (channelName : String) (n : Nat) :
    (blockProKey channelName n).toList.reverse.takeWhile (· ≠ '_') = (toString n).toList.reverse := by
  have hdigits : ∀ c ∈ (toString n).toList.reverse, (decide (c ≠ '_')) = true := by
    intro c hc
    rw [List.mem_reverse, Nat.toString_eq_repr, Nat.toList_repr] at hc
    have := Nat.isDigit_of_mem_toDigits (by decide) (by decide) hc
    simp only [decide_eq_true_eq]
    rintro rfl
    exact absurd this (by decide)
  have e : (blockProKey channelName n).toList.reverse =
      (toString n).toList.reverse ++ '_' :: channelName.toList.reverse := by
    simp [blockProKey]
  rw [e, List.takeWhile_append_of_pos hdigits]
  simp

/-- The number holds no underscore, so a key determines both its parts. -/
theorem blockProKey_inj {a b : String} {m n : Nat} (h : blockProKey a m = blockProKey b n) :
    a = b ∧ m = n := by
  have hn : (toString m).toList.reverse = (toString n).toList.reverse := by
    rw [← takeWhile_key a m, ← takeWhile_key b n, h]
  rw [List.reverse_inj, String.toList_inj] at hn
  have hmn : m = n := Nat.repr_inj.1 hn
  subst hmn
  have ha := congrArg String.toList h
  simp only [blockProKey, String.toList_append, List.append_cancel_right_eq, String.toList_inj] at ha
  exact ⟨ha, rfl⟩

/-! ## What a step does -/

/-- The branches of `step`. -/
inductive Next (L : Ledger) (s : St) : Ev → St → Prop where
  | genesis (channelName : String) : Next L s (.blockEvent channelName 0) s
  | delivered {channelName : String} {n : Nat} {block : Block} (hblock : L.block channelName n = some block) :
      Next L s (.blockEvent channelName n) (s.processBlockEvent C .listener block)
  | refused {channelName : String} (hkey : synchKey C channelName ∈ s.synchInProcess) :
      Next L s (.synchBlocks channelName) s
  | called {channelName : String} (hkey : synchKey C channelName ∉ s.synchInProcess) :
      Next L s (.synchBlocks channelName)
        ({ s with synchInProcess := s.synchInProcess ++ [synchKey C channelName] }.push
          (.synch channelName .chainInfo))
  | noHeight {i : Nat} {channelName : String} (hi : s.tasks[i]? = some (.synch channelName .chainInfo)) :
      Next L s (.chainInfo i none) { s with tasks := s.tasks.eraseIdx i }
  | height {i height : Nat} {channelName : String} (hi : s.tasks[i]? = some (.synch channelName .chainInfo)) :
      Next L s (.chainInfo i (some height))
        ({ s with tasks := s.tasks.eraseIdx i }.push (.synch channelName (.missing (low height - 1))))
  | noBlock {i id : Nat} {channelName : String} {rest : List Nat}
      (hi : s.tasks[i]? = some (.synch channelName (.queryBlock id rest))) :
      Next L s (.queryBlock i false) ({ s with tasks := s.tasks.eraseIdx i }.nextMissing C channelName rest)
  | found {i id : Nat} {channelName : String} {rest : List Nat} {block : Block}
      (hi : s.tasks[i]? = some (.synch channelName (.queryBlock id rest)))
      (hblock : L.block channelName id = some block) :
      Next L s (.queryBlock i true)
        ({ s with tasks := s.tasks.eraseIdx i }.processBlockEvent C (.synchBlocks channelName rest) block)
  | resumed {i : Nat} {owner : Owner} {e : Exec} (hi : s.tasks[i]? = some (.block owner e)) :
      Next L s (.run i)
        ({ s with db := (e.resume C s.db).1, tasks := s.tasks.eraseIdx i }.settle C owner e.key
          (e.resume C s.db).2)
  | missing {i : Nat} {channelName : String} {blockHeight : Int}
      (hi : s.tasks[i]? = some (.synch channelName (.missing blockHeight))) :
      Next L s (.run i)
        ({ s with tasks := s.tasks.eraseIdx i }.nextMissing C channelName
          (findMissingBlockNumber C.networkName ((C.getChannelGenHash channelName).getD "undefined")
            blockHeight s.db))
  | rejected {i : Nat} {took : Bool} {owner : Owner} {e : Exec} (hi : s.tasks[i]? = some (.block owner e)) :
      Next L s (.fail i took)
        { s with db := if took then (e.resume C s.db).1 else s.db, tasks := s.tasks.eraseIdx i }
  | noMissing {i : Nat} {took : Bool} {channelName : String} {blockHeight : Int}
      (hi : s.tasks[i]? = some (.synch channelName (.missing blockHeight))) :
      Next L s (.fail i took) { s with tasks := s.tasks.eraseIdx i }
  | discovered (row : ChaincodeRow) :
      Next L s (.discovered row) { s with db := { s.db with chaincodes := s.db.chaincodes ++ [row] } }
  | crash : Next L s .crash { s with blocksInProcess := [], synchInProcess := [], tasks := [] }

variable {C} in
theorem step_next {L : Ledger} {s s' : St} {ev : Ev} (hs : step C L s ev = some s') : Next C L s ev s' := by
  cases ev with
  | blockEvent channelName n =>
    simp only [step] at hs
    split at hs
    · rename_i hn
      cases hs
      exact hn ▸ .genesis channelName
    · obtain ⟨block, hblock, rfl⟩ := Option.map_eq_some_iff.1 hs
      exact .delivered hblock
  | synchBlocks channelName =>
    simp only [step] at hs
    split at hs
    · rename_i hkey
      cases hs
      exact .refused hkey
    · rename_i hkey
      cases hs
      exact .called hkey
  | chainInfo i height =>
    simp only [step] at hs
    split at hs
    · rename_i channelName hi
      cases height with
      | none =>
        cases hs
        exact .noHeight hi
      | some height =>
        cases hs
        exact .height hi
    · cases hs
  | queryBlock i found =>
    simp only [step] at hs
    split at hs
    · rename_i channelName id rest hi
      cases found with
      | true =>
        obtain ⟨block, hblock, rfl⟩ := Option.map_eq_some_iff.1 hs
        exact .found hi hblock
      | false =>
        cases hs
        exact .noBlock hi
    · cases hs
  | run i =>
    simp only [step] at hs
    split at hs
    · rename_i owner e hi
      cases hs
      exact .resumed hi
    · rename_i channelName blockHeight hi
      cases hs
      exact .missing hi
    · cases hs
  | fail i took =>
    simp only [step] at hs
    split at hs
    · rename_i owner e hi
      cases hs
      exact .rejected hi
    · rename_i channelName blockHeight hi
      cases hs
      exact .noMissing hi
    · cases hs
  | discovered row =>
    cases hs
    exact .discovered row
  | crash =>
    cases hs
    exact .crash

/-! ## What a step does to the executions -/

def Task.exec? : Task → Option Exec
  | .block _ e => some e
  | .synch _ _ => none

/-- The executions of `processBlockEvent` that are running. -/
def St.execs (s : St) : List Exec := s.tasks.filterMap Task.exec?

theorem mem_execs {s : St} {i : Nat} {owner : Owner} {e : Exec} (h : s.tasks[i]? = some (.block owner e)) :
    e ∈ s.execs :=
  List.mem_filterMap.2 ⟨_, List.mem_of_getElem? h, rfl⟩

/-- The execution with which `processBlockEvent` starts. -/
def Exec.start (block : Block) (firstTx : Envelope) : Exec :=
  ⟨firstTx.channelId, C.getChannelGenHash firstTx.channelId, block, firstTx, .timeStamp⟩

def Ev.fails : Ev → Bool
  | .fail _ _ | .crash => true
  | _ => false

/-- Only `synchBlocks` or another table went on. -/
structure Quiet (s s' : St) : Prop where
  blocks : s'.db.blocks = s.db.blocks
  transactions : s'.db.transactions = s.db.transactions
  channel : s'.db.channel = s.db.channel
  held : s'.blocksInProcess = s.blocksInProcess
  execs : s'.execs.Perm s.execs
  sent : s'.sent = s.sent
  delivered : s'.delivered = s.delivered

/-- What is left of the process when the execution `e` among `e :: rest` has
been resumed. -/
def Resumed (s s' : St) (e : Exec) (rest : List Exec) : Outcome Exec (List Notify) → Prop
  | .await e' => s'.blocksInProcess = s.blocksInProcess ∧ s'.execs.Perm (e' :: rest) ∧ s'.sent = s.sent
  | .done notes =>
    s'.blocksInProcess = release s.blocksInProcess e.key ∧ s'.execs.Perm rest ∧
      s'.sent = s.sent ++ notes
  | .thrown => s'.blocksInProcess = s.blocksInProcess ∧ s'.execs.Perm rest ∧ s'.sent = s.sent

/-- A step without a failure: nothing for the executions, a call of
`processBlockEvent` that finds its key held or starts an execution, or the
resumption of an execution. -/
inductive Move (L : Ledger) (s s' : St) : Prop where
  | quiet (h : Quiet s s')
  | held (channelName : String) (block : Block) (firstTx : Envelope)
      (hblock : L.block channelName block.header.number = some block)
      (hfirst : block.data.head? = some firstTx)
      (hkey : (Exec.start C block firstTx).key ∈ s.blocksInProcess)
      (h : Quiet { s with delivered := s.delivered ++ [(channelName, block.header.number)] } s')
  | started (channelName : String) (block : Block) (firstTx : Envelope)
      (hblock : L.block channelName block.header.number = some block)
      (hfirst : block.data.head? = some firstTx)
      (hkey : (Exec.start C block firstTx).key ∉ s.blocksInProcess)
      (hdb : s'.db = s.db)
      (hheld : s'.blocksInProcess = s.blocksInProcess ++ [(Exec.start C block firstTx).key])
      (hexecs : s'.execs.Perm (Exec.start C block firstTx :: s.execs))
      (hsent : s'.sent = s.sent)
      (hdelivered : s'.delivered = s.delivered ++ [(channelName, block.header.number)])
  | resumed (e : Exec) (rest : List Exec) (hexecs : s.execs.Perm (e :: rest))
      (hdb : s'.db = (e.resume C s.db).1) (h : Resumed s s' e rest (e.resume C s.db).2)
      (hdelivered : s'.delivered = s.delivered)

/-- A failure: a statement is rejected and its task dies, or the process dies. -/
inductive Loss (s s' : St) : Prop where
  | quiet (h : Quiet s s')
  | failed (e : Exec) (rest : List Exec) (hexecs : s.execs.Perm (e :: rest))
      (hdb : s'.db = s.db ∨ s'.db = (e.resume C s.db).1)
      (hheld : s'.blocksInProcess = s.blocksInProcess) (hrest : s'.execs.Perm rest)
  | crashed (hdb : s'.db = s.db) (hheld : s'.blocksInProcess = []) (hexecs : s'.execs = [])

/-- What an outcome has sent. -/
def notes : Outcome Exec (List Notify) → List Notify
  | .done notes => notes
  | _ => []

variable {C} {L : Ledger}

theorem Resumed.execs {s s' : St} {e : Exec} {rest : List Exec} {outcome : Outcome Exec (List Notify)}
    (h : Resumed s s' e rest outcome) : s'.execs.Perm (outcome.execs ++ rest) := by
  cases outcome with
  | await e' => exact h.2.1
  | done notes => exact h.2.1
  | thrown => exact h.2.1

theorem Resumed.sent {s s' : St} {e : Exec} {rest : List Exec} {outcome : Outcome Exec (List Notify)}
    (h : Resumed s s' e rest outcome) : s'.sent = s.sent ++ notes outcome := by
  cases outcome with
  | await e' => simpa [notes] using h.2.2
  | done notes => exact h.2.2
  | thrown => simpa [notes] using h.2.2

theorem Quiet.refl (s : St) : Quiet s s := ⟨rfl, rfl, rfl, rfl, List.Perm.refl _, rfl, rfl⟩

theorem Quiet.trans {s s₁ s' : St} (h₁ : Quiet s s₁) (h₂ : Quiet s₁ s') : Quiet s s' :=
  ⟨h₂.blocks.trans h₁.blocks, h₂.transactions.trans h₁.transactions, h₂.channel.trans h₁.channel,
    h₂.held.trans h₁.held, h₂.execs.trans h₁.execs, h₂.sent.trans h₁.sent,
    h₂.delivered.trans h₁.delivered⟩

theorem execs_push (s : St) (t : Task) : (s.push t).execs = s.execs ++ t.exec?.toList := by
  cases t <;> simp [St.execs, St.push, Task.exec?]

theorem quiet_push (s : St) (channelName : String) (pc : SynchPc) :
    Quiet s (s.push (.synch channelName pc)) := by
  refine ⟨rfl, rfl, rfl, rfl, ?_, rfl, rfl⟩
  simp [execs_push, Task.exec?]

theorem quiet_nextMissing (s : St) (channelName : String) (ids : List Nat) :
    Quiet s (s.nextMissing C channelName ids) := by
  cases ids with
  | nil => exact ⟨rfl, rfl, rfl, rfl, List.Perm.refl _, rfl, rfl⟩
  | cons id rest => exact quiet_push s channelName (.queryBlock id rest)

theorem quiet_returnTo (s : St) (owner : Owner) : Quiet s (s.returnTo C owner) := by
  cases owner with
  | listener => exact Quiet.refl s
  | synchBlocks channelName rest => exact quiet_nextMissing s channelName rest

theorem execs_eraseIdx {s : St} {i : Nat} {t : Task} (h : s.tasks[i]? = some t) :
    s.execs.Perm (t.exec?.toList ++ (s.tasks.eraseIdx i).filterMap Task.exec?) := by
  have hp := (eraseIdx_perm h).filterMap Task.exec?
  cases t <;> exact hp

/-- A task of `synchBlocks` is taken out of the bag. -/
theorem quiet_eraseIdx {s : St} {i : Nat} {channelName : String} {pc : SynchPc}
    (hi : s.tasks[i]? = some (.synch channelName pc)) :
    Quiet s { s with tasks := s.tasks.eraseIdx i } :=
  ⟨rfl, rfl, rfl, rfl, (execs_eraseIdx hi).symm, rfl, rfl⟩

/-- A call by whoever, made from a state with the executions of `s`. -/
theorem move_processBlockEvent {s s₁ : St} {owner : Owner} {channelName : String} {n : Nat}
    {block : Block} (hblock : L.block channelName n = some block) (hq : Quiet s s₁)
    (hdb : s₁.db = s.db) : Move C L s (s₁.processBlockEvent C owner block) := by
  have hn := L.number _ _ _ hblock
  subst hn
  obtain ⟨h1, h2, h3, h4, h5, h6, h7⟩ := hq
  cases hdata : block.data with
  | nil =>
    rw [St.processBlockEvent, hdata]
    exact .quiet ⟨h1, h2, h3, h4, h5, h6, h7⟩
  | cons firstTx txs =>
    have hfirst : block.data.head? = some firstTx := by rw [hdata]; rfl
    have hch := L.channel _ _ _ _ hblock hfirst
    simp only [St.processBlockEvent, hdata]
    split
    · rename_i hkey
      rw [h4] at hkey
      refine .held channelName block firstTx hblock hfirst hkey ?_
      obtain ⟨g1, g2, g3, g4, g5, g6, g7⟩ := quiet_returnTo (C := C)
        { s₁ with delivered := s₁.delivered ++ [(firstTx.channelId, block.header.number)] } owner
      exact ⟨g1.trans h1, g2.trans h2, g3.trans h3, g4.trans h4, g5.trans h5, g6.trans h6,
        by rw [g7, h7, hch]⟩
    · rename_i hkey
      rw [h4] at hkey
      refine .started channelName block firstTx hblock hfirst hkey hdb (by rw [← h4]; rfl) ?_ h6
        (by rw [← h7, ← hch]; rfl)
      rw [execs_push]
      exact List.perm_append_comm.trans ((List.Perm.refl [Exec.start C block firstTx]).append h5)

theorem db_returnTo (s : St) (owner : Owner) : (s.returnTo C owner).db = s.db := by
  cases owner with
  | listener => rfl
  | synchBlocks channelName rest => cases rest <;> rfl

/-- The execution that is resumed, and what is left of the process. -/
theorem resumed_settle (s : St) (i : Nat) (owner : Owner) (e : Exec) :
    let s' := { s with db := (e.resume C s.db).1, tasks := s.tasks.eraseIdx i }.settle C owner e.key
      (e.resume C s.db).2
    s'.db = (e.resume C s.db).1 ∧ s'.delivered = s.delivered ∧
      Resumed s s' e ((s.tasks.eraseIdx i).filterMap Task.exec?) (e.resume C s.db).2 := by
  cases ho : (e.resume C s.db).2 with
  | await e' =>
    refine ⟨rfl, rfl, rfl, ?_, rfl⟩
    rw [St.settle, execs_push]
    exact List.perm_append_comm
  | done notes =>
    obtain ⟨-, -, -, g4, g5, g6, g7⟩ := quiet_returnTo (C := C)
      { s with
        db := (e.resume C s.db).1
        tasks := s.tasks.eraseIdx i
        blocksInProcess := release s.blocksInProcess e.key
        sent := s.sent ++ notes } owner
    exact ⟨db_returnTo _ owner, g7, g4, g5, g6⟩
  | thrown => exact ⟨rfl, rfl, rfl, List.Perm.refl _, rfl⟩

theorem move_settle {s : St} {i : Nat} {owner : Owner} {e : Exec}
    (hi : s.tasks[i]? = some (.block owner e)) :
    Move C L s ({ s with db := (e.resume C s.db).1, tasks := s.tasks.eraseIdx i }.settle C owner e.key
      (e.resume C s.db).2) := by
  obtain ⟨hdb, hdelivered, hr⟩ := resumed_settle (C := C) s i owner e
  exact .resumed e _ (execs_eraseIdx hi) hdb hr hdelivered

theorem step_cases {s s' : St} {ev : Ev} (hs : step C L s ev = some s') :
    (ev.fails = false ∧ Move C L s s') ∨ (ev.fails = true ∧ Loss C s s') := by
  cases step_next hs with
  | genesis channelName => exact .inl ⟨rfl, .quiet (Quiet.refl s)⟩
  | delivered hblock => exact .inl ⟨rfl, move_processBlockEvent hblock (Quiet.refl s) rfl⟩
  | refused hkey => exact .inl ⟨rfl, .quiet (Quiet.refl s)⟩
  | @called channelName hkey =>
    have hq : Quiet s { s with synchInProcess := s.synchInProcess ++ [synchKey C channelName] } :=
      ⟨rfl, rfl, rfl, rfl, List.Perm.refl _, rfl, rfl⟩
    exact .inl ⟨rfl, .quiet (hq.trans (quiet_push _ channelName .chainInfo))⟩
  | noHeight hi => exact .inl ⟨rfl, .quiet (quiet_eraseIdx hi)⟩
  | height hi => exact .inl ⟨rfl, .quiet ((quiet_eraseIdx hi).trans (quiet_push _ _ _))⟩
  | noBlock hi => exact .inl ⟨rfl, .quiet ((quiet_eraseIdx hi).trans (quiet_nextMissing _ _ _))⟩
  | found hi hblock => exact .inl ⟨rfl, move_processBlockEvent hblock (quiet_eraseIdx hi) rfl⟩
  | resumed hi => exact .inl ⟨rfl, move_settle hi⟩
  | missing hi => exact .inl ⟨rfl, .quiet ((quiet_eraseIdx hi).trans (quiet_nextMissing _ _ _))⟩
  | @rejected i took owner e hi =>
    refine .inr ⟨rfl, .failed e _ (execs_eraseIdx hi) ?_ rfl (List.Perm.refl _)⟩
    cases took
    · exact .inl rfl
    · exact .inr rfl
  | noMissing hi => exact .inr ⟨rfl, .quiet (quiet_eraseIdx hi)⟩
  | discovered row => exact .inl ⟨rfl, .quiet ⟨rfl, rfl, rfl, rfl, List.Perm.refl _, rfl, rfl⟩⟩
  | crash => exact .inr ⟨rfl, .crashed rfl rfl rfl⟩

theorem db_processBlockEvent (s : St) (owner : Owner) (block : Block) :
    (s.processBlockEvent C owner block).db = s.db := by
  cases hdata : block.data with
  | nil => simp only [St.processBlockEvent, hdata]
  | cons firstTx txs =>
    simp only [St.processBlockEvent, hdata]
    split
    · exact db_returnTo _ owner
    · rfl

theorem db_settle (s : St) (owner : Owner) (key : String) (outcome : Outcome Exec (List Notify)) :
    (s.settle C owner key outcome).db = s.db := by
  cases outcome with
  | await e => rfl
  | done notes => exact db_returnTo _ owner
  | thrown => rfl

/-- A step writes what one execution writes, or nothing. -/
theorem step_db {s s' : St} {ev : Ev} (hs : step C L s ev = some s') (hev : ∀ row, ev ≠ .discovered row) :
    s'.db = s.db ∨ ∃ e : Exec, s'.db = (e.resume C s.db).1 := by
  cases step_next hs with
  | genesis | refused | called | noHeight | height | noMissing | crash => exact .inl rfl
  | @delivered channelName n block => exact .inl (db_processBlockEvent s .listener block)
  | noBlock | missing => exact .inl (db_returnTo _ (.synchBlocks _ _))
  | @found i id channelName rest block => exact .inl (db_processBlockEvent _ _ block)
  | @resumed i owner e => exact .inr ⟨e, db_settle _ owner e.key _⟩
  | @rejected i took owner e =>
    cases took
    · exact .inl rfl
    · exact .inr ⟨e, rfl⟩
  | discovered row => exact absurd rfl (hev row)

/-! ## What a resumed execution writes -/

variable (C)

/-- The one statement that an await stands for, when it writes. -/
def Exec.write (db : Db) (e : Exec) : Db :=
  match e.pc with
  | .saveTransaction _ _ row .insert => insertTransaction row db
  | .saveTransaction _ _ row .chaincodes => updateTxcount C.networkName row db
  | .saveTransaction _ _ row .channel =>
    updateChannel C.networkName row.channelGenesisHash (fun r => { r with trans := r.trans + 1 }) db
  | .saveBlock block .insert => insertBlock C.networkName block db
  | .saveBlock block .channel =>
    updateChannel C.networkName block.channelGenesisHash (fun r => { r with blocks := r.blocks + 1 }) db
  | _ => db

def Exec.newTransactions (e : Exec) : List TransactionRow :=
  match e.pc with
  | .saveTransaction _ _ row .insert => [row]
  | _ => []

def Exec.newBlocks (e : Exec) : List BlockRow :=
  match e.pc with
  | .saveBlock block .insert => [{ block with networkName := some C.networkName }]
  | _ => []

/-- The counter that a resumed execution counts up. -/
def Exec.countUp (e : Exec) (r : ChannelRow) : ChannelRow :=
  match e.pc with
  | .saveTransaction _ _ row .channel =>
    if r.channelGenesisHash = row.channelGenesisHash ∧ r.networkName = C.networkName then
      { r with trans := r.trans + 1 }
    else r
  | .saveBlock block .channel =>
    if r.channelGenesisHash = block.channelGenesisHash ∧ r.networkName = C.networkName then
      { r with blocks := r.blocks + 1 }
    else r
  | _ => r

variable {C}

theorem resume_db (db : Db) (e : Exec) : (e.resume C db).1 = e.write C db := by
  unfold Exec.resume Exec.write
  cases e.pc with
  | timeStamp | blockHash => rfl
  | saveTransaction block i row stmt =>
    cases stmt with
    | count =>
      cases h : isValidRow (countTransactions C.networkName row db) <;> simp [SaveTransaction.run, h]
    | insert | chaincodes | channel => rfl
  | saveBlock block stmt =>
    cases stmt with
    | count => cases h : isValidRow (countBlocks C.networkName block db) <;> simp [SaveBlock.run, h]
    | insert | channel => rfl

theorem resume_transactions (db : Db) (e : Exec) :
    (e.resume C db).1.transactions = db.transactions ++ e.newTransactions := by
  rw [resume_db]
  unfold Exec.write Exec.newTransactions
  split <;> simp [insertTransaction, insertBlock, updateTxcount, updateChannel, *]

theorem resume_blocks (db : Db) (e : Exec) :
    (e.resume C db).1.blocks = db.blocks ++ e.newBlocks C := by
  rw [resume_db]
  unfold Exec.write Exec.newBlocks
  split <;> simp [insertTransaction, insertBlock, updateTxcount, updateChannel, *]

theorem resume_channel (db : Db) (e : Exec) :
    (e.resume C db).1.channel = db.channel.map (e.countUp C) := by
  rw [resume_db]
  unfold Exec.write Exec.countUp
  split <;> simp [insertTransaction, insertBlock, updateTxcount, updateChannel, *]

/-- The outcome of a resumption, by the await. -/
theorem resume_saveTransaction {e : Exec} {db : Db} {block : BlockRow} {i : Nat} {row : TransactionRow}
    {stmt : SaveTransaction} (hpc : e.pc = .saveTransaction block i row stmt) :
    (e.resume C db).2 = match (stmt.run C.networkName row db).2 with
      | .inl stmt => .await { e with pc := .saveTransaction block i row stmt }
      | .inr _ => e.nextTransaction C block (i + 1) := by
  unfold Exec.resume
  rw [hpc]
  cases stmt with
  | count =>
    cases h : isValidRow (countTransactions C.networkName row db) <;> simp [SaveTransaction.run, h]
  | insert | chaincodes | channel => rfl

theorem resume_saveBlock {e : Exec} {db : Db} {block : BlockRow} {stmt : SaveBlock}
    (hpc : e.pc = .saveBlock block stmt) :
    (e.resume C db).2 = match (stmt.run C.networkName block db).2 with
      | .inl stmt => .await { e with pc := .saveBlock block stmt }
      | .inr status => .done (if status then [blockNotify C e block] else []) := by
  unfold Exec.resume
  rw [hpc]
  cases stmt with
  | count => cases h : isValidRow (countBlocks C.networkName block db) <;> simp [SaveBlock.run, h]
  | insert | channel => rfl

theorem nextTransaction_pc {e e' : Exec} {block : BlockRow} {i : Nat}
    (h : e.nextTransaction C block i = .await e') : e' = { e with pc := e'.pc } := by
  unfold Exec.nextTransaction at h
  split at h
  · split at h
    · cases h
      rfl
    · cases h
  · cases h
    rfl

/-- Only the await of an execution changes. -/
theorem await_resume {e e' : Exec} {db : Db} (h : (e.resume C db).2 = .await e') :
    e' = { e with pc := e'.pc } := by
  cases hpc : e.pc with
  | timeStamp =>
    simp only [Exec.resume, hpc] at h
    cases h
    rfl
  | blockHash =>
    simp only [Exec.resume, hpc] at h
    split at h
    · exact nextTransaction_pc h
    · cases h
  | saveTransaction block i row stmt =>
    rw [resume_saveTransaction hpc] at h
    split at h
    · cases h
      rfl
    · exact nextTransaction_pc h
  | saveBlock block stmt =>
    rw [resume_saveBlock hpc] at h
    split at h
    · cases h
      rfl
    · cases h

theorem key_resume {e e' : Exec} {db : Db} (h : (e.resume C db).2 = .await e') : e'.key = e.key := by
  rw [await_resume h]
  rfl

/-! ## A channel with one block, for closed runs -/

def mychannel : Client where
  sdk :=
    { txValidationCode := fun code => if code = 0 then some "VALID" else none
      bytesToHex := fun _ => ""
      generateBlockHash := fun header => header.dataHash
      object := fun block => .object [.string block.header.previousHash, .string block.header.dataHash] }
  networkName := "first-network"
  clientName := "org1"
  getChannelGenHash channelName := if channelName = "mychannel" then some "genesis" else none
  distinct a b hash ha hb := by
    split at ha
    · split at hb
      · simp_all
      · cases hb
    · cases ha

def transfer (txId : String) : Envelope :=
  ⟨"mychannel", txId, "ENDORSER_TRANSACTION", 1000, none, none, some ⟨"Org1MSP", "id"⟩, none,
    some ⟨some [⟨some ⟨"fabcar"⟩, some ⟨200⟩, some ⟨[]⟩, "", [⟨some ⟨"Org1MSP", "id"⟩, none⟩], some ⟨none⟩⟩]⟩⟩

def blockOne : Block := ⟨⟨1, "p0", "d1"⟩, [transfer "t1", transfer "t2"], [[0, 0]]⟩

/-- The ledger on which `mychannel` has one block, with number 1. -/
def oneBlock (block : Block) (hnumber : block.header.number = 1)
    (hchannel : ∀ first ∈ block.data.head?, first.channelId = "mychannel") : Ledger where
  block channelName n := if channelName = "mychannel" ∧ n = 1 then some block else none
  number channelName n b h := by
    split at h
    · rename_i hn
      cases h
      exact hnumber.trans hn.2.symm
    · cases h
  channel channelName n b first h hfirst := by
    split at h
    · rename_i hn
      cases h
      exact (hchannel first hfirst).trans hn.1.symm
    · cases h

def ledgerOne : Ledger := oneBlock blockOne rfl (by decide)

end Explorer.Fabric.SyncService
