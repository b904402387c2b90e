import Mathlib.Algebra.Order.BigOperators.Group.List
import Mathlib.Algebra.Order.Ring.Nat
import Explorer.Fabric.CatchUp

/-!
# The sync process comes to rest, and a restart repairs it

A call of `processBlockEvent` stands at `Block.awaits` awaits at the most, a
call of `synchBlocks` at those of every block below the height it is told and
one for each of the blocks.

* `remaining`: the awaits that are left in a state. A reply, a statement or a
  failure takes at least one away; a call adds its price.
* `comes_to_rest`: whatever fails, no run has more of them than its calls paid
  for, and from every state the process can be run until no task is left.
* `Steady`: one run of `synchBlocks` and its numbers, between its call and its
  end. It complements `Catching`, which does not say that a task is there.
* `restart_recovers`: after a restart and a call of `synchBlocks` with no
  failure behind it, the tables mirror the ledger, whatever failed before.
-/
namespace Explorer.Fabric

/-! ## The awaits that are left -/

/-- The awaits of `saveBlock` from this one on. -/
def SaveBlock.awaits : SaveBlock → Nat
  | .count => 3
  | .insert => 2
  | .channel => 1

/-- The awaits of `saveTransaction` from this one on. -/
def SaveTransaction.awaits : SaveTransaction → Nat
  | .count => 4
  | .insert => 3
  | .chaincodes => 2
  | .channel => 1

theorem SaveTransaction.awaits_run {networkName : String} {row : TransactionRow} {db : Db}
    {stmt stmt' : SaveTransaction} (h : (stmt.run networkName row db).2 = .inl stmt') : stmt'.awaits < stmt.awaits := by
  cases stmt with
  | count =>
    simp only [SaveTransaction.run] at h
    split at h <;> cases h
    decide
  | insert | chaincodes =>
    cases h
    decide
  | channel => cases h

theorem SaveBlock.awaits_run {networkName : String} {row : BlockRow} {db : Db} {stmt stmt' : SaveBlock}
    (h : (stmt.run networkName row db).2 = .inl stmt') : stmt'.awaits < stmt.awaits := by
  cases stmt with
  | count =>
    simp only [SaveBlock.run] at h
    split at h <;> cases h
    decide
  | insert =>
    cases h
    decide
  | channel => cases h

namespace SyncService

/-- The awaits of `processBlockEvent`: two, those of `saveTransaction` for
every envelope, and those of `saveBlock`. -/
def awaits (block : Block) : Nat := 2 + 4 * block.data.length + 3

def Pc.remaining (length : Nat) : Pc → Nat
  | .timeStamp => 2 + 4 * length + 3
  | .blockHash => 1 + 4 * length + 3
  | .saveTransaction _ i _ stmt => stmt.awaits + (4 * (length - (i + 1)) + 3)
  | .saveBlock _ stmt => stmt.awaits

def Exec.remaining (e : Exec) : Nat := e.pc.remaining e.block.data.length

variable (C : Client) (L : Ledger)

/-- The await of `queryBlock`, and those of the block it answers. -/
def priceOf (channelName : String) (id : Nat) : Nat := 1 + ((L.block channelName id).elim 0 awaits)

def priceOfAll (channelName : String) (ids : List Nat) : Nat := (ids.map (priceOf L channelName)).sum

def Owner.remaining : Owner → Nat
  | .listener => 0
  | .synchBlocks channelName rest => priceOfAll L channelName rest

variable (H : String → Nat)

/-- `H` bounds the heights that `queryChainInfo` answers. -/
def Task.remaining : Task → Nat
  | .block owner e => e.remaining + owner.remaining L
  | .synch channelName .chainInfo => 2 + priceOfAll L channelName (List.range (H channelName))
  | .synch channelName (.missing blockHeight) =>
    1 + priceOfAll L channelName (List.range (blockHeight + 1).toNat)
  | .synch channelName (.queryBlock id rest) => priceOfAll L channelName (id :: rest)

def remaining (s : St) : Nat := (s.tasks.map (Task.remaining L H)).sum

/-- A reply, a statement, or a failure of one. -/
def Ev.works : Ev → Bool
  | .chainInfo _ _ | .queryBlock _ _ | .run _ | .fail _ _ => true
  | .blockEvent _ _ | .synchBlocks _ | .discovered _ | .crash => false

/-- The awaits that a call adds. -/
def Ev.price : Ev → Nat
  | .blockEvent channelName n => (L.block channelName n).elim 0 awaits
  | .synchBlocks channelName => 2 + priceOfAll L channelName (List.range (H channelName))
  | _ => 0

/-- No height that is answered is above `H`. -/
def Heights (s : St) : Ev → Prop
  | .chainInfo i (some height) =>
    ∀ channelName ∈ s.tasks[i]?.bind Task.synch?, low height ≤ H channelName
  | _ => True

instance decidableHeights (s : St) : (ev : Ev) → Decidable (Heights H s ev)
  | .chainInfo i (some height) =>
    inferInstanceAs (Decidable (∀ channelName ∈ s.tasks[i]?.bind Task.synch?, low height ≤ H channelName))
  | .chainInfo _ none | .blockEvent _ _ | .synchBlocks _ | .queryBlock _ _ | .run _ | .fail _ _ | .discovered _
  | .crash => inferInstanceAs (Decidable True)

variable {C L H}

theorem remaining_push (s : St) (t : Task) : remaining L H (s.push t) = remaining L H s + t.remaining L H := by
  simp [remaining, St.push]

theorem remaining_eraseIdx {s : St} {i : Nat} {t : Task} (hi : s.tasks[i]? = some t) :
    remaining L H s = t.remaining L H + remaining L H { s with tasks := s.tasks.eraseIdx i } := by
  have hp := ((eraseIdx_perm hi).map (Task.remaining L H)).sum_nat
  rw [List.map_cons, List.sum_cons] at hp
  exact hp

theorem remaining_nextMissing (s : St) (channelName : String) (ids : List Nat) :
    remaining L H (s.nextMissing C channelName ids) = remaining L H s + priceOfAll L channelName ids := by
  cases ids with
  | nil => rfl
  | cons id rest => exact remaining_push s (.synch channelName (.queryBlock id rest))

theorem remaining_returnTo (s : St) (owner : Owner) :
    remaining L H (s.returnTo C owner) = remaining L H s + owner.remaining L := by
  cases owner with
  | listener => rfl
  | synchBlocks channelName rest => exact remaining_nextMissing s channelName rest

theorem remaining_processBlockEvent (s : St) (owner : Owner) (block : Block) :
    remaining L H (s.processBlockEvent C owner block) ≤
      remaining L H s + awaits block + owner.remaining L := by
  cases hdata : block.data with
  | nil =>
    simp only [St.processBlockEvent, hdata]
    omega
  | cons firstTx txs =>
    simp only [St.processBlockEvent, hdata]
    split
    · rw [remaining_returnTo]
      show remaining L H s + owner.remaining L ≤ _
      omega
    · rw [remaining_push]
      show remaining L H s + (awaits block + owner.remaining L) ≤ _
      omega

theorem remaining_nextTransaction {e e' : Exec} {block : BlockRow} {i : Nat}
    (h : e.nextTransaction C block i = .await e') :
    e'.remaining ≤ 4 * (e.block.data.length - i) + 3 := by
  unfold Exec.nextTransaction at h
  split at h
  · rename_i txObj hget
    have hlt : i < e.block.data.length := (List.getElem?_eq_some_iff.1 hget).1
    split at h
    · cases h
      show 4 + (4 * (e.block.data.length - (i + 1)) + 3) ≤ _
      omega
    · cases h
  · cases h
    show 3 ≤ _
    omega

/-- An execution that awaits again has an await less. -/
theorem remaining_resume {e e' : Exec} {db : Db} (h : (e.resume C db).2 = .await e') :
    e'.remaining < e.remaining := by
  show e'.remaining < e.pc.remaining e.block.data.length
  cases hpc : e.pc with
  | timeStamp =>
    simp only [Exec.resume, hpc] at h
    cases h
    simp only [Exec.remaining, Pc.remaining]
    omega
  | blockHash =>
    simp only [Exec.resume, hpc] at h
    split at h
    · have hnext := remaining_nextTransaction h
      simp only [Pc.remaining]
      omega
    · cases h
  | saveTransaction block i row stmt =>
    rw [resume_saveTransaction hpc] at h
    split at h
    · rename_i stmt' hstmt
      cases h
      have hlt := SaveTransaction.awaits_run hstmt
      simp only [Exec.remaining, Pc.remaining]
      omega
    · have hnext := remaining_nextTransaction h
      have hpos : 0 < stmt.awaits := by cases stmt <;> decide
      simp only [Pc.remaining]
      omega
  | saveBlock block stmt =>
    rw [resume_saveBlock hpc] at h
    split at h
    · rename_i stmt' hstmt
      cases h
      exact SaveBlock.awaits_run hstmt
    · cases h

theorem Exec.remaining_pos (e : Exec) : 0 < e.remaining := by
  show 0 < e.pc.remaining e.block.data.length
  cases e.pc with
  | timeStamp | blockHash | saveTransaction =>
    simp only [Pc.remaining]
    omega
  | saveBlock block stmt => cases stmt <;> simp [Pc.remaining, SaveBlock.awaits]

theorem remaining_settle (s : St) (owner : Owner) (e : Exec) (db : Db) (key : String) :
    remaining L H (s.settle C owner key (e.resume C db).2) < remaining L H s + (e.remaining + owner.remaining L) := by
  have hpos := e.remaining_pos
  cases hres : (e.resume C db).2 with
  | await e' =>
    have hlt := remaining_resume hres
    rw [St.settle, remaining_push]
    show remaining L H s + (e'.remaining + owner.remaining L) < _
    omega
  | done notes =>
    rw [St.settle, remaining_returnTo]
    show remaining L H s + owner.remaining L < _
    omega
  | thrown =>
    show remaining L H s < _
    omega

theorem priceOfAll_le {channelName : String} {ids ids' : List Nat} (h : ids.Sublist ids') :
    priceOfAll L channelName ids ≤ priceOfAll L channelName ids' :=
  (h.map (priceOf L channelName)).sum_le_sum fun _ _ => Nat.zero_le _

/-- **What a step takes away.** -/
theorem remaining_step {s s' : St} {ev : Ev} (hs : step C L s ev = some s') (hheights : Heights H s ev) :
    remaining L H s' + (if ev.works then 1 else 0) ≤ remaining L H s + ev.price L H := by
  cases step_next hs with
  | genesis | refused =>
    show remaining L H s + 0 ≤ _
    omega
  | @delivered channelName n block hblock =>
    have hcost := remaining_processBlockEvent (C := C) (L := L) (H := H) s .listener block
    show remaining L H (s.processBlockEvent C .listener block) + 0 ≤
      remaining L H s + (L.block channelName n).elim 0 awaits
    rw [hblock]
    exact hcost
  | called hkey =>
    show remaining L H (St.push _ _) + 0 ≤ _
    rw [remaining_push]
    exact Nat.le_refl _
  | @noHeight i channelName hi =>
    rw [remaining_eraseIdx hi]
    show remaining L H { s with tasks := s.tasks.eraseIdx i } + 1 ≤ _
    simp only [Task.remaining]
    omega
  | @height i height channelName hi =>
    have hlow : low height ≤ H channelName := hheights channelName (by rw [hi]; rfl)
    have hle : priceOfAll L channelName (List.range (low height - 1 + 1).toNat) ≤
        priceOfAll L channelName (List.range (H channelName)) :=
      priceOfAll_le (List.range_sublist.2 (by omega))
    rw [remaining_eraseIdx hi, remaining_push]
    simp only [Task.remaining, Ev.works, if_true]
    omega
  | @noBlock i id channelName rest hi =>
    rw [remaining_eraseIdx hi, remaining_nextMissing]
    simp only [Task.remaining, Ev.works, if_true, priceOfAll, List.map_cons, List.sum_cons, priceOf]
    omega
  | @found i id channelName rest block hi hblock =>
    have hcost := remaining_processBlockEvent (C := C) (L := L) (H := H)
      { s with tasks := s.tasks.eraseIdx i } (.synchBlocks channelName rest) block
    rw [remaining_eraseIdx hi]
    simp only [Task.remaining, Owner.remaining, Ev.works, if_true, priceOfAll, List.map_cons, List.sum_cons,
      priceOf, hblock, Option.elim_some] at hcost ⊢
    omega
  | @resumed i owner e hi =>
    have hcost := remaining_settle (C := C) (L := L) (H := H)
      { s with db := (e.resume C s.db).1, tasks := s.tasks.eraseIdx i } owner e s.db e.key
    rw [remaining_eraseIdx hi]
    exact Nat.le_trans hcost (Nat.le_of_eq (Nat.add_comm _ _))
  | @missing i channelName blockHeight hi =>
    have hle : priceOfAll L channelName (findMissingBlockNumber C.networkName
        ((C.getChannelGenHash channelName).getD "undefined") blockHeight s.db) ≤
          priceOfAll L channelName (List.range (blockHeight + 1).toNat) :=
      priceOfAll_le List.filter_sublist
    rw [remaining_eraseIdx hi, remaining_nextMissing]
    simp only [Task.remaining, Ev.works, if_true]
    omega
  | @rejected i took owner e hi =>
    have hpos := e.remaining_pos
    rw [remaining_eraseIdx hi]
    show remaining L H { s with tasks := s.tasks.eraseIdx i } + 1 ≤ _
    simp only [Task.remaining]
    omega
  | @noMissing i took channelName blockHeight hi =>
    rw [remaining_eraseIdx hi]
    show remaining L H { s with tasks := s.tasks.eraseIdx i } + 1 ≤ _
    simp only [Task.remaining]
    omega
  | discovered row => exact Nat.le_refl _
  | crash => exact Nat.zero_le _

theorem remaining_lt {s s' : St} {ev : Ev} (hs : step C L s ev = some s') (hheights : Heights H s ev)
    (hw : ev.works = true) : remaining L H s' < remaining L H s := by
  have hle := remaining_step hs hheights
  have hfree : ev.price L H = 0 := by
    cases ev with
    | blockEvent | synchBlocks | discovered | crash => cases hw
    | chainInfo | queryBlock | run | fail => rfl
  rw [if_pos hw, hfree] at hle
  exact hle

/-! ## Rest -/

/-- The task at the front can go on. -/
theorem exists_work {s : St} (h : s.tasks ≠ []) :
    ∃ ev s', ev.works = true ∧ Heights H s ev ∧ step C L s ev = some s' := by
  obtain ⟨t, tasks, htasks⟩ := List.exists_cons_of_ne_nil h
  have hi : s.tasks[0]? = some t := by rw [htasks]; rfl
  cases t with
  | block owner e => exact ⟨.run 0, _, rfl, trivial, by simp only [step, hi]; rfl⟩
  | synch channelName pc =>
    cases pc with
    | chainInfo => exact ⟨.chainInfo 0 none, _, rfl, trivial, by simp only [step, hi]; rfl⟩
    | missing blockHeight => exact ⟨.run 0, _, rfl, trivial, by simp only [step, hi]; rfl⟩
    | queryBlock id rest => exact ⟨.queryBlock 0 false, _, rfl, trivial, by simp only [step, hi]; rfl⟩

/-- **The process comes to rest.** In every run, whatever fails in it, the
replies, statements and failures are no more than its calls have paid for; as
long as a task is left, one of them can come; and so the process can always be
run until none is left. -/
theorem comes_to_rest (H : String → Nat) (db : Db) (evs : List Ev) (s : St)
    (hr : ((lts C L fun _ => True).restrict (Heights H)).Run (init db) evs s) :
    remaining L H s + evs.countP Ev.works ≤ (evs.map (Ev.price L H)).sum ∧
    (s.tasks ≠ [] → ∃ ev s', ev.works = true ∧ Heights H s ev ∧ step C L s ev = some s') ∧
    ∃ more s', (∀ ev ∈ more, ev.works = true) ∧ more.length ≤ remaining L H s ∧
      ((lts C L fun _ => True).restrict (Heights H)).Run s more s' ∧ s'.tasks = [] := by
  have hkeep : ∀ s ev s', True → ((lts C L fun _ => True).restrict (Heights H)).step s ev s' → True :=
    fun _ _ _ _ _ => trivial
  refine ⟨?_, exists_work, ?_⟩
  · have hle := LTS.Run.worked_le Ev.works (remaining L H) (Ev.price L H) hkeep
      (fun s ev s' _ hs => remaining_step hs.2 hs.1) hr trivial
    rwa [show remaining L H (init db) = 0 from rfl, Nat.zero_add] at hle
  · apply LTS.exists_rest Ev.works (remaining L H) (fun s => s.tasks = []) hkeep
    · exact fun s ev s' _ hw hs => remaining_lt hs.2 hs.1 hw
    · intro s _ hne
      obtain ⟨ev, s', hw, hheights, hs⟩ := exists_work hne
      exact ⟨ev, s', hw, hheights, hs⟩
    · trivial

def blockZero : Block := ⟨⟨0, "", "d0"⟩, [transfer "t0"], [[0]]⟩

/-- The ledger on which `mychannel` has two blocks. -/
def ledgerBoth : Ledger where
  block channelName n := if channelName = "mychannel" then [blockZero, blockOne][n]? else none
  number channelName n b h := by
    split at h
    · rcases n with _ | _ | n <;> cases h <;> rfl
    · cases h
  channel channelName n b first h hfirst := by
    split at h
    · rename_i hname
      rcases n with _ | _ | n <;> cases h <;> cases hfirst <;> exact hname.symm
    · cases h

/-- The reply to the first insertion is lost. -/
def replyLost : List Ev := .blockEvent "mychannel" 1 :: (List.replicate 4 (.run 0) ++ [.fail 0 true])

theorem comes_to_rest_replyLost :
    ∃ s, LTS.exec (step mychannel ledgerBoth) (init ⟨[], [], [], []⟩)
        (replyLost ++ [.crash, .synchBlocks "mychannel"]) = some s ∧
      remaining ledgerBoth (fun _ => 2) s = 26 ∧ 26 + 5 ≤ 13 + 26 ∧
      ∃ more s', more.length ≤ 26 ∧ (lts mychannel ledgerBoth fun _ => True).Run s more s' ∧ s'.tasks = [] := by
  have hrun : (LTS.exec (LTS.guarded (Heights fun _ => 2) (step mychannel ledgerBoth)) (init ⟨[], [], [], []⟩)
      (replyLost ++ [.crash, .synchBlocks "mychannel"])).map (remaining ledgerBoth fun _ => 2) = some 26 := by
    decide +kernel
  obtain ⟨s, hs, hleft⟩ := Option.map_eq_some_iff.1 hrun
  obtain ⟨hle, -, more, s', -, hlen, hr, hrest⟩ := comes_to_rest (C := mychannel) (L := ledgerBoth) (fun _ => 2)
    ⟨[], [], [], []⟩ (replyLost ++ [.crash, .synchBlocks "mychannel"]) s (LTS.restrict_run_of_exec hs)
  rw [hleft] at hle hlen
  exact ⟨s, LTS.exec_of_guarded hs, hleft, hle, more, s', hlen, hr.of_restrict, hrest⟩

/-! ## One run of `synchBlocks` -/

section
variable (C : Client) (channelName : String) (height : Nat)

/-- The numbers that a task of `synchBlocks` is at or will come to. -/
def Task.todo : Task → List Nat
  | .synch _ (.queryBlock id rest) => id :: rest
  | .block (.synchBlocks _ rest) e => e.number :: rest
  | _ => []

/-- The key of the channel is held by a task only, and the numbers of that
task are below the height. -/
structure Steady (s : St) (tasks : List Task) : Prop where
  alive : channelName ∈ tasks.filterMap Task.synch? ∨ synchKey C channelName ∉ s.synchInProcess
  below : ∀ t ∈ tasks, t.synch? = some channelName → ∀ n ∈ t.todo, n < height

/-- No `processBlockEvent` meets a failure, and `synchBlocks` gets its answers. -/
def Healthy (s : St) (ev : Ev) : Prop := Calm s ev ∧ Answers channelName height s ev

instance decidableHealthy (s : St) (ev : Ev) : Decidable (Healthy channelName height s ev) :=
  inferInstanceAs (Decidable (_ ∧ _))

variable (L) in
/-- Every block below the height has an envelope, and can be read. -/
def ReadableBelow : Prop :=
  ∀ n < height, ∃ block, L.block channelName n = some block ∧ block.data ≠ [] ∧ block.Readable

end

section
variable {channelName hash : String} {height : Nat} {s : St} {t t' : Task} {tasks : List Task}

theorem Steady.perm {tasks' : List Task} (h : Steady C channelName height s tasks) (hp : tasks.Perm tasks') :
    Steady C channelName height s tasks' :=
  ⟨h.alive.imp_left (hp.filterMap Task.synch?).mem_iff.1, fun t ht => h.below t (hp.mem_iff.2 ht)⟩

theorem Steady.congr {s' : St} (h : Steady C channelName height s tasks)
    (hkeys : s'.synchInProcess = s.synchInProcess) : Steady C channelName height s' tasks :=
  ⟨hkeys ▸ h.alive, h.below⟩

theorem steady_push (h : Steady C channelName height s (t :: s.tasks)) :
    Steady C channelName height (s.push t) (s.push t).tasks :=
  (h.perm (List.perm_append_singleton t s.tasks).symm).congr rfl

/-- A task that is not of this channel is over. -/
theorem Steady.drop (h : Steady C channelName height s (t :: tasks)) (ht : t.synch? ≠ some channelName) :
    Steady C channelName height s tasks := by
  refine ⟨h.alive.imp_left fun hmem => ?_, fun t' ht' => h.below t' (List.mem_cons_of_mem _ ht')⟩
  obtain ⟨t', ht', hc⟩ := List.mem_filterMap.1 hmem
  rcases List.mem_cons.1 ht' with rfl | ht'
  · exact absurd hc ht
  · exact List.mem_filterMap.2 ⟨t', ht', hc⟩

/-- `synchBlocks` goes on to another await. -/
theorem Steady.swap (h : Steady C channelName height s (t :: tasks)) (hsynch : t'.synch? = t.synch?)
    (htodo : t.synch? = some channelName → ∀ n ∈ t'.todo, n < height) :
    Steady C channelName height s (t' :: tasks) := by
  have hsynchs : (t' :: tasks).filterMap Task.synch? = (t :: tasks).filterMap Task.synch? := by
    rw [List.filterMap_cons, List.filterMap_cons, hsynch]
  refine ⟨hsynchs ▸ h.alive, fun t₁ hmem hc => ?_⟩
  rcases List.mem_cons.1 hmem with rfl | hmem
  · exact htodo (hsynch ▸ hc)
  · exact h.below t₁ (List.mem_cons_of_mem _ hmem) hc

/-- `synchBlocks` returns and gives its key back. -/
theorem Steady.returned {c : String} (h : Steady C channelName height s (t :: tasks)) (hc : t.synch? = some c)
    (hguard : Guarded s.synchInProcess (((t :: tasks).filterMap Task.synch?).map (synchKey C))) :
    Steady C channelName height { s with synchInProcess := release s.synchInProcess (synchKey C c) } tasks := by
  rw [List.filterMap_cons_some hc, List.map_cons] at hguard
  by_cases hname : c = channelName
  · subst hname
    refine ⟨.inr fun hmem => ?_, fun t' ht' => h.below t' (List.mem_cons_of_mem _ ht')⟩
    exact (hguard.mem_release.1 hmem).1 rfl
  · have hdrop := h.drop (t := t) (by rw [hc]; exact fun heq => hname (Option.some.inj heq))
    exact ⟨hdrop.alive.imp_right fun hkey hmem => hkey (hguard.mem_release.1 hmem).2, hdrop.below⟩

theorem steady_nextMissing {c : String} {ids : List Nat} (h : Steady C channelName height s (t :: s.tasks))
    (hc : t.synch? = some c)
    (hguard : Guarded s.synchInProcess (((t :: s.tasks).filterMap Task.synch?).map (synchKey C)))
    (hids : c = channelName → ∀ n ∈ ids, n < height) :
    Steady C channelName height (s.nextMissing C c ids) (s.nextMissing C c ids).tasks := by
  cases ids with
  | nil => exact h.returned hc hguard
  | cons id rest => exact steady_push (h.swap hc.symm fun heq => hids (Option.some.inj (hc.symm.trans heq)))

theorem steady_returnTo (id : Nat) {owner : Owner}
    (h : Steady C channelName height s (owner.hand id ++ s.tasks))
    (hguard : Guarded s.synchInProcess (((owner.hand id ++ s.tasks).filterMap Task.synch?).map (synchKey C))) :
    Steady C channelName height (s.returnTo C owner) (s.returnTo C owner).tasks := by
  cases owner with
  | listener => exact h
  | synchBlocks c rest =>
    refine steady_nextMissing (t := .synch c (.queryBlock id rest)) h rfl hguard fun hname n hn => ?_
    exact h.below _ List.mem_cons_self (congrArg some hname) n (List.mem_cons_of_mem _ hn)

/-- The task that has called `processBlockEvent` awaits it. -/
theorem steady_await {owner : Owner} {e : Exec} (h : Steady C channelName height s (owner.hand e.number ++ tasks)) :
    Steady C channelName height s (.block owner e :: tasks) := by
  cases owner with
  | listener =>
    refine ⟨h.alive, fun t ht hc => ?_⟩
    rcases List.mem_cons.1 ht with rfl | ht
    · cases hc
    · exact h.below t ht hc
  | synchBlocks c rest =>
    exact h.swap rfl fun hc => h.below (.synch c (.queryBlock e.number rest)) List.mem_cons_self hc

/-- The execution that a task awaits is over. -/
theorem steady_hand {owner : Owner} {e : Exec} (h : Steady C channelName height s (.block owner e :: tasks)) :
    Steady C channelName height s (owner.hand e.number ++ tasks) := by
  cases owner with
  | listener => exact h.drop nofun
  | synchBlocks c rest =>
    exact h.swap rfl fun hc => h.below (.block (.synchBlocks c rest) e) List.mem_cons_self hc

theorem steady_processBlockEvent (hledger : ReadableBelow L channelName height) (owner : Owner) {c : String} {n : Nat}
    {block : Block} (h : Steady C channelName height s (owner.hand n ++ s.tasks))
    (hguard : Guarded s.synchInProcess (((owner.hand n ++ s.tasks).filterMap Task.synch?).map (synchKey C)))
    (hblock : L.block c n = some block) (hname : ∀ c' ∈ owner.synchs, c' = c) :
    Steady C channelName height (s.processBlockEvent C owner block)
      (s.processBlockEvent C owner block).tasks := by
  have hn := L.number _ _ _ hblock
  subst hn
  cases hdata : block.data with
  | nil =>
    simp only [St.processBlockEvent, hdata]
    cases owner with
    | listener => exact h
    | synchBlocks c' rest =>
      obtain rfl : c' = c := hname c' (List.mem_singleton_self c')
      refine h.drop fun hc => ?_
      obtain ⟨block', hblock', hne, -⟩ := hledger _ (h.below _ List.mem_cons_self hc _ List.mem_cons_self)
      rw [← Option.some.inj hc, hblock] at hblock'
      cases hblock'
      exact hne hdata
  | cons firstTx txs =>
    simp only [St.processBlockEvent, hdata]
    split
    · exact steady_returnTo block.header.number (h.congr rfl) hguard
    · refine steady_push (steady_await ?_)
      exact h.congr rfl

theorem steady_settle (hledger : ReadableBelow L channelName height) {owner : Owner} {e : Exec}
    (hcatching : Catching C L channelName hash height True True s (.block owner e :: tasks))
    (h : Steady C channelName height s (.block owner e :: tasks)) :
    let s' := { s with db := (e.resume C s.db).1, tasks := tasks }.settle C owner e.key (e.resume C s.db).2
    Steady C channelName height s' s'.tasks := by
  cases hres : (e.resume C s.db).2 with
  | await e' =>
    have hnum : e'.number = e.number := by
      rw [await_resume hres]
      rfl
    refine steady_push (steady_await ?_)
    rw [hnum]
    exact (steady_hand h).congr rfl
  | done notes =>
    refine steady_returnTo e.number ((steady_hand h).congr rfl) ?_
    show Guarded s.synchInProcess (((owner.hand e.number ++ tasks).filterMap Task.synch?).map (synchKey C))
    rw [synch?_hand owner e.number e]
    exact hcatching.synchs
  | thrown =>
    refine (h.drop fun hc => ?_).congr rfl
    obtain ⟨hfrom, -⟩ := hcatching.execs e List.mem_cons_self
    cases owner with
    | listener => cases hc
    | synchBlocks c rest =>
      obtain ⟨-, hname, -⟩ := hcatching.honest trivial _ List.mem_cons_self hc
      obtain ⟨block, hblock, -, hread⟩ := hledger e.number (h.below _ List.mem_cons_self hc _ List.mem_cons_self)
      have hsame := hfrom.ledger
      rw [hname, hblock] at hsame
      exact resume_not_thrown (Option.some.inj hsame ▸ hread) s.db hres

theorem reads_of_readableBelow (hledger : ReadableBelow L channelName height) {ev : Ev}
    (h : Catching C L channelName hash height True True s s.tasks) : Reads C channelName hash height s ev := by
  cases ev with
  | run i =>
    intro e he hname hn _ txObj htx
    obtain ⟨t, hi, ht⟩ := Option.bind_eq_some_iff.1 he
    obtain ⟨hfrom, -⟩ := h.execs e (List.mem_filterMap.2 ⟨t, List.mem_of_getElem? hi, ht⟩)
    obtain ⟨block, hblock, -, hread⟩ := hledger e.number hn
    have hsame := hfrom.ledger
    rw [hname, hblock] at hsame
    exact (Option.some.inj hsame ▸ hread) txObj (mem_of_reads htx)
  | _ => trivial

/-- **What a healthy step keeps.** -/
theorem steady_step (hledger : ReadableBelow L channelName height) {s s' : St} {ev : Ev}
    (hcatching : Catching C L channelName hash height True True s s.tasks)
    (h : Steady C channelName height s s.tasks) (hhealthy : Healthy channelName height s ev)
    (hs : step C L s ev = some s') : Steady C channelName height s' s'.tasks := by
  have htake : ∀ {i t}, s.tasks[i]? = some t → Steady C channelName height
      { s with tasks := s.tasks.eraseIdx i } (t :: s.tasks.eraseIdx i) :=
    fun hi => (h.perm (eraseIdx_perm hi)).congr rfl
  have hguard : ∀ {i t}, s.tasks[i]? = some t →
      Guarded s.synchInProcess (((t :: s.tasks.eraseIdx i).filterMap Task.synch?).map (synchKey C)) :=
    fun hi => (hcatching.perm (eraseIdx_perm hi)).synchs
  obtain ⟨hcalm, hanswers⟩ := hhealthy
  cases step_next hs with
  | genesis | refused => exact h
  | delivered hblock => exact steady_processBlockEvent hledger .listener h hcatching.synchs hblock nofun
  | @called c hkey =>
    refine steady_push ⟨?_, fun t ht hc n hn => ?_⟩
    · by_cases hname : c = channelName
      · exact .inl (List.mem_filterMap.2 ⟨_, List.mem_cons_self, congrArg some hname⟩)
      · refine h.alive.imp (fun hmem => mem_filterMap_tail hmem) fun hnot hmem => ?_
        rcases List.mem_append.1 hmem with hmem | hmem
        · exact hnot hmem
        · exact hname (synchKey_inj (List.mem_singleton.1 hmem)).symm
    · rcases List.mem_cons.1 ht with rfl | ht
      · cases hn
      · exact h.below t ht hc n hn
  | @noHeight i c hi =>
    refine (htake hi).drop fun hc => ?_
    have hnone : none = some height := hanswers (by rw [hi]; exact hc)
    cases hnone
  | height hi => exact steady_push ((htake hi).swap rfl fun _ n hn => by cases hn)
  | @noBlock i id c rest hi =>
    refine steady_nextMissing (htake hi) rfl (hguard hi) fun hname n hn => ?_
    exact (htake hi).below _ List.mem_cons_self (congrArg some hname) n (List.mem_cons_of_mem _ hn)
  | @found i id c rest block hi hblock =>
    exact steady_processBlockEvent hledger (.synchBlocks c rest) (htake hi) (hguard hi) hblock
      fun c' hc' => List.mem_singleton.1 hc'
  | @resumed i owner e hi =>
    exact steady_settle hledger ((hcatching.perm (eraseIdx_perm hi))) (h.perm (eraseIdx_perm hi))
  | @missing i c blockHeight hi =>
    refine steady_nextMissing (htake hi) rfl (hguard hi) fun hname n hn => ?_
    have hheight : blockHeight = (height : Int) - 1 :=
      hcatching.honest trivial _ (List.mem_of_getElem? hi) (congrArg some hname)
    have hle := (mem_findMissingBlockNumber.1 hn).1
    omega
  | @rejected i took owner e hi =>
    have hnone : some e = none := by rwa [Calm, hi] at hcalm
    cases hnone
  | @noMissing i took c blockHeight hi =>
    exact (htake hi).drop fun hc => hanswers (by rw [hi]; exact hc)
  | discovered row => exact h.congr rfl
  | crash => exact hcalm.elim

/-! ## After a restart -/

/-- The task at the front can go on, and meets no failure. -/
theorem exists_healthy (hledger : ReadableBelow L channelName height) (hheight : height < 2 ^ 31)
    (h : Steady C channelName height s s.tasks) (hne : s.tasks ≠ []) :
    ∃ ev s', ev.works = true ∧ Healthy channelName height s ev ∧ Heights (fun _ => height) s ev ∧
      step C L s ev = some s' := by
  obtain ⟨t, tasks, htasks⟩ := List.exists_cons_of_ne_nil hne
  have hi : s.tasks[0]? = some t := by rw [htasks]; rfl
  have hmem : t ∈ s.tasks := List.mem_of_getElem? hi
  cases t with
  | block owner e => exact ⟨.run 0, _, rfl, ⟨trivial, trivial⟩, trivial, by simp only [step, hi]; rfl⟩
  | synch c pc =>
    have hsynch : s.tasks[0]?.bind Task.synch? = some c := by rw [hi]; rfl
    cases pc with
    | chainInfo =>
      refine ⟨.chainInfo 0 (some height), _, rfl, ⟨trivial, fun _ => rfl⟩, fun c _ => ?_, by
        simp only [step, hi]; rfl⟩
      rw [low_of_lt hheight]
    | missing blockHeight => exact ⟨.run 0, _, rfl, ⟨trivial, trivial⟩, trivial, by simp only [step, hi]; rfl⟩
    | queryBlock id rest =>
      by_cases hname : c = channelName
      · subst hname
        obtain ⟨block, hblock, -⟩ := hledger id (h.below _ hmem rfl id List.mem_cons_self)
        exact ⟨.queryBlock 0 true, _, rfl, ⟨trivial, fun _ => rfl⟩, trivial, by
          simp only [step, hi, if_true, hblock]; rfl⟩
      · refine ⟨.queryBlock 0 false, _, rfl, ⟨trivial, fun heq => ?_⟩, trivial, by simp only [step, hi]; rfl⟩
        exact absurd (Option.some.inj (hsynch.symm.trans heq)) hname

variable (C L channelName hash) in
/-- Block `n` has one row, made from the block of the ledger, and each of its
envelopes has one. -/
def Mirrored (db : Db) (n : Nat) : Prop :=
  ∃ block firstTx, L.block channelName n = some block ∧ block.data.head? = some firstTx ∧
    blockRows C.networkName db hash n =
      [{ blockRow C hash block firstTx with networkName := some C.networkName }] ∧
    ∀ txObj ∈ block.data, (transactionRows C.networkName db hash n txObj.txId).length = 1

theorem mirrored_of_stored (hch : C.getChannelGenHash channelName = some hash) {db : Db} (h : Stored C L db) {n : Nat}
    (hmem : (hash, n) ∈ blockKeys C.networkName db) : Mirrored C L channelName hash db n := by
  have hone : (blockRows C.networkName db hash n).length = 1 := by
    rw [length_blockRows]
    exact List.count_eq_one_of_mem h.blocks hmem
  obtain ⟨r, hrows⟩ := List.length_eq_one_iff.1 hone
  have hr : r ∈ blockRows C.networkName db hash n := by
    rw [hrows]
    exact List.mem_singleton_self r
  obtain ⟨hr, hcond⟩ := List.mem_filter.1 hr
  obtain ⟨hnet, hhash, hnum⟩ := of_decide_eq_true hcond
  obtain ⟨c, block, firstTx, hblock, hfirst, hc, heq⟩ := h.origin r hr hnet
  rw [hhash] at hc heq
  obtain rfl : c = channelName := C.distinct _ _ _ hc hch
  rw [hnum] at hblock
  refine ⟨block, firstTx, hblock, hfirst, by rw [hrows, ← heq], fun txObj htx => ?_⟩
  obtain ⟨-, hkey⟩ := h.complete c hash n block hblock hch hmem txObj htx
  rw [length_transactionRows]
  exact List.count_eq_one_of_mem h.transactions hkey

variable (C L channelName hash height) in
/-- A process in which `synchBlocks` has been called, and nothing has failed. -/
structure Restarted (s : St) : Prop where
  catching : Catching C L channelName hash height True True s s.tasks
  steady : Steady C channelName height s s.tasks

theorem restarted_call {s₀ s₁ s₂ : St} (hcrash : step C L s₀ .crash = some s₁)
    (hcall : step C L s₁ (.synchBlocks channelName) = some s₂) : Restarted C L channelName hash height s₂ := by
  cases hcrash
  cases hcall
  have h₁ : Catching C L channelName hash height False True
      { s₀ with blocksInProcess := [], synchInProcess := [], tasks := [] } [] :=
    (catching_init s₀.db).congr rfl rfl rfl
  refine ⟨(catching_synchBlocks h₁ List.not_mem_nil).imp (fun _ => .inr rfl) id, ?_⟩
  refine steady_push ⟨.inl (List.mem_filterMap.2 ⟨_, List.mem_cons_self, rfl⟩), fun t ht _ n hn => ?_⟩
  rw [List.mem_singleton.1 ht] at hn
  cases hn

theorem restarted_step (hch : C.getChannelGenHash channelName = some hash) (hheight : height < 2 ^ 31)
    (hledger : ReadableBelow L channelName height) {s s' : St} {ev : Ev}
    (h : Restarted C L channelName hash height s) (hhealthy : Healthy channelName height s ev)
    (hs : step C L s ev = some s') : Restarted C L channelName hash height s' where
  catching := catching_answers hch hheight h.catching hhealthy.1 (fun _ => hhealthy.2)
    (fun _ => reads_of_readableBelow hledger h.catching) hs
  steady := steady_step hledger h.catching h.steady hhealthy hs

/-- A process that has come to rest has settled every number. -/
theorem stored_of_rest {s : St} (h : Restarted C L channelName hash height s) (hrest : s.tasks = []) {n : Nat}
    (hn : n < height) : (hash, n) ∈ blockKeys C.networkName s.db := by
  have hnone : ∀ t, t ∉ s.tasks := by
    rw [hrest]
    exact fun _ => List.not_mem_nil
  rcases h.catching.covered trivial h.steady.alive n hn with ⟨t, ht, -⟩ | hrow | hheld
  · exact absurd ht (hnone t)
  · exact hrow
  · rcases h.catching.answering trivial n hn hheld with ⟨e, he, -⟩ | hrow
    · obtain ⟨t, ht, -⟩ := List.mem_filterMap.1 he
      exact absurd ht (hnone t)
    · exact hrow

/-- **A restart repairs everything.** Whatever has failed, and whatever is
left behind, since the tables held nothing of this network: the process is
started again and `synchBlocks` is called for a channel whose blocks below the
height can be read. If nothing fails from then on, then in whatever order
statements, replies and the blocks of the listeners come, the process can
always be run until no task is left, and when none is left every block below
the height has one row, the one made from the ledger, and each of its
envelopes has one. -/
theorem restart_recovers (channelName hash : String) (hch : C.getChannelGenHash channelName = some hash)
    (height : Nat) (hheight : height < 2 ^ 31) (hledger : ReadableBelow L channelName height)
    (s₀ s₁ s₂ s : St) (evs : List Ev) (hreach : (lts C L (Fresh C)).Reachable s₀)
    (hcrash : step C L s₀ .crash = some s₁) (hcall : step C L s₁ (.synchBlocks channelName) = some s₂)
    (hr : ((lts C L (Fresh C)).restrict (Healthy channelName height)).Run s₂ evs s) :
    (s.tasks = [] → ∀ n < height, Mirrored C L channelName hash s.db n) ∧
    ∃ more s', (∀ ev ∈ more, ev.works = true) ∧ more.length ≤ remaining L (fun _ => height) s ∧
      ((lts C L (Fresh C)).restrict (Healthy channelName height)).Run s more s' ∧ s'.tasks = [] := by
  have hkeep : ∀ s ev s', Restarted C L channelName hash height s →
      ((lts C L (Fresh C)).restrict (Healthy channelName height)).step s ev s' →
      Restarted C L channelName hash height s' := fun s ev s' h hs => restarted_step hch hheight hledger h hs.1 hs.2
  have h := hr.keeps hkeep (restarted_call hcrash hcall)
  refine ⟨fun hrest n hn => ?_, ?_⟩
  · have hreach' : (lts C L (Fresh C)).Reachable s := by
      obtain ⟨s', ls, hinit, hrun⟩ := hreach
      exact ⟨s', _, hinit, hrun.append (.cons hcrash (.cons hcall hr.of_restrict))⟩
    have hstored := ((inv_inductive fun _ hdb => hdb).reachable s hreach').stored
    exact mirrored_of_stored hch hstored (stored_of_rest h hrest hn)
  · have hwork : ∀ s, Restarted C L channelName hash height s → ¬ s.tasks = [] → ∃ ev s', ev.works = true ∧
        (((lts C L (Fresh C)).restrict (Healthy channelName height)).restrict
          (Heights fun _ => height)).step s ev s' := by
      intro s h hne
      obtain ⟨ev, s', hw, hhealthy, hheights, hs⟩ := exists_healthy hledger hheight h.steady hne
      exact ⟨ev, s', hw, hheights, hhealthy, hs⟩
    obtain ⟨more, s', hw, hlen, hrun, hrest⟩ := LTS.exists_rest
      (T := ((lts C L (Fresh C)).restrict (Healthy channelName height)).restrict (Heights fun _ => height))
      Ev.works (remaining L fun _ => height) (fun s => s.tasks = []) (fun s ev s' h hs => hkeep s ev s' h hs.2)
      (fun s ev s' _ hw hs => remaining_lt hs.2.2 hs.1 hw) hwork h
    exact ⟨more, s', hw, hlen, hrun.of_restrict, hrest⟩

/-- Both blocks are caught up, the second by the listener. -/
def bothCaughtUp : List Ev :=
  [.chainInfo 0 (some 2), .run 0, .blockEvent "mychannel" 1, .queryBlock 0 true] ++ List.replicate 19 (.run 0) ++
    .queryBlock 0 true :: List.replicate 5 (.run 0)

theorem readableBelow_ledgerBoth : ReadableBelow ledgerBoth "mychannel" 2 := by
  intro n hn
  rcases n with _ | _ | n
  · exact ⟨blockZero, rfl, by decide, by unfold Block.Readable; decide⟩
  · exact ⟨blockOne, rfl, by decide, by unfold Block.Readable; decide⟩
  · omega

theorem restart_recovers_replyLost :
    ∃ s₀ s₁ s₂ s, LTS.exec (step mychannel ledgerBoth) (init ⟨[], [], [], []⟩) replyLost = some s₀ ∧
      step mychannel ledgerBoth s₀ .crash = some s₁ ∧
      step mychannel ledgerBoth s₁ (.synchBlocks "mychannel") = some s₂ ∧
      LTS.exec (step mychannel ledgerBoth) s₂ bothCaughtUp = some s ∧
      ∀ n < 2, Mirrored mychannel ledgerBoth "mychannel" "genesis" s.db n := by
  have hrun : ((LTS.exec (step mychannel ledgerBoth) (init ⟨[], [], [], []⟩) replyLost).bind fun s₀ =>
      (step mychannel ledgerBoth s₀ .crash).bind fun s₁ =>
        (step mychannel ledgerBoth s₁ (.synchBlocks "mychannel")).bind fun s₂ =>
          (LTS.exec (LTS.guarded (Healthy "mychannel" 2) (step mychannel ledgerBoth)) s₂ bothCaughtUp).map
            St.tasks) = some [] := by
    decide +kernel
  obtain ⟨s₀, h₀, hrun⟩ := Option.bind_eq_some_iff.1 hrun
  obtain ⟨s₁, hcrash, hrun⟩ := Option.bind_eq_some_iff.1 hrun
  obtain ⟨s₂, hcall, hrun⟩ := Option.bind_eq_some_iff.1 hrun
  obtain ⟨s, hs, hrest⟩ := Option.map_eq_some_iff.1 hrun
  have hfresh : Fresh mychannel ⟨[], [], [], []⟩ := ⟨by simp, by simp⟩
  refine ⟨s₀, s₁, s₂, s, h₀, hcrash, hcall, LTS.exec_of_guarded hs, ?_⟩
  exact (restart_recovers "mychannel" "genesis" rfl 2 (by omega) readableBelow_ledgerBoth s₀ s₁ s₂ s bothCaughtUp
    (LTS.reachable_of_exec ⟨_, hfresh, rfl⟩ h₀) hcrash hcall (LTS.restrict_run_of_exec hs)).1 hrest

end

end SyncService

end Explorer.Fabric
