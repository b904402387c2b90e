import Explorer.Core.Fold
import Explorer.Fabric.ClientChannels

/-!
# The current channel

`changeChannel` sets the default channel of the client, found by its genesis
hash. `getCurrentChannel` does not read it: it answers the genesis hash of the
first channel of the connection profile, whatever was selected.

* `getCurrentChannel_after`: the answer is the same after any calls.
* `currentChannel_last_iff`: when it is the channel selected last.
-/
namespace Explorer.Fabric.CurrentChannel

open ClientChannels (FabricClient)

/-- A `FabricClient` with its genesis hashes. `configChannels` are the keys of
`fabricGateway.config.channels`, `hfcChannels` the names that
`hfc_client.getChannel` knows; it throws for the others. -/
structure Client extends FabricClient where
  configChannels : List String
  hfcChannels : List String
  defaultChannel : Option String
  keys : (channelsGenHash.map Prod.fst).Nodup
  different : (channelsGenHash.map Prod.snd).Nodup
  hashes : "" ∉ channelsGenHash.map Prod.snd

structure Response where
  status : Option Nat
  message : Option String
  currentChannel : String
  deriving DecidableEq, Repr

/-- mirrors app/platform/fabric/FabricClient.js:498-500 -/
def getChannelGenHash (c : Client) (channelName : String) : Option String :=
  (c.channelsGenHash.find? fun p => p.1 = channelName).map Prod.snd

/-- The loop sets the channel when it meets the hash; a channel that
`hfc_client` does not know makes it throw.
mirrors app/platform/fabric/FabricClient.js:611-621 -/
def setDefaultChannelByHash (c : Client) (newChannelGenesisHash : String) : Except String (Client × Option String) :=
  match c.channelsGenHash.find? fun p => p.2 = newChannelGenesisHash with
  | none => .ok (c, none)
  | some (channelName, channelGenesisHash) =>
    if channelName ∈ c.hfcChannels then
      .ok ({ c with defaultChannel := some channelName }, some channelGenesisHash)
    else .error ("Channel not found for name " ++ channelName)

/-- mirrors app/platform/fabric/Proxy.js:77-97 -/
def getCurrentChannel (c : Client) : Response :=
  match c.configChannels.head?.bind (getChannelGenHash c) with
  | some channelGenesisHash =>
    if channelGenesisHash = "" then ⟨some 1, some "Channel not found in the Context ", ""⟩
    else ⟨none, none, channelGenesisHash⟩
  | none => ⟨some 1, some "Channel not found in the Context ", ""⟩

/-- What is left of the client after the call.
mirrors app/platform/fabric/Proxy.js:164-169 -/
def changeChannel (c : Client) (channelGenesisHash : String) : Client :=
  match setDefaultChannelByHash c channelGenesisHash with
  | .ok (c, _) => c
  | .error _ => c

/-! ## Calls -/

inductive Call where
  | changeChannel (channelGenesisHash : String)
  | getCurrentChannel
  deriving DecidableEq, Repr

def Call.run (c : Client) : Call → Client
  | .changeChannel channelGenesisHash => CurrentChannel.changeChannel c channelGenesisHash
  | .getCurrentChannel => c

def after (c : Client) (calls : List Call) : Client := calls.foldl Call.run c

/-- `h` is the genesis hash of a channel known to the client. -/
def Known (c : Client) (h : String) : Prop := h ∈ c.channelsGenHash.map Prod.snd

instance (c : Client) (h : String) : Decidable (Known c h) :=
  inferInstanceAs (Decidable (h ∈ c.channelsGenHash.map Prod.snd))

/-- The hash of the latest call that selected a known channel. -/
def lastSelected (c : Client) (calls : List Call) : Option String :=
  calls.foldl (fun last call =>
    match call with
    | .changeChannel h => if Known c h then some h else last
    | .getCurrentChannel => last) none

/-- Every answer is the channel selected last, and a call with an unknown hash
changes nothing. -/
structure ReturnsLast (c : Client) (calls : List Call) : Prop where
  last : ∀ pre post, calls = pre ++ .getCurrentChannel :: post →
    ∀ h ∈ lastSelected c pre, getCurrentChannel (after c pre) = ⟨none, none, h⟩
  unknown : ∀ pre h post, calls = pre ++ .changeChannel h :: post → ¬ Known c h →
    after c (pre ++ [.changeChannel h]) = after c pre

/-- The first channel of the connection profile has this genesis hash. -/
def IsFirst (c : Client) (h : String) : Prop :=
  ∃ channelName ∈ c.configChannels.head?, (channelName, h) ∈ c.channelsGenHash

/-! ## What a call leaves -/

theorem changeChannel_unknown {c : Client} {h : String} (hunknown : ¬ Known c h) : changeChannel c h = c := by
  have hnone : c.channelsGenHash.find? (fun p => p.2 = h) = none := by
    rw [List.find?_eq_none]
    intro p hp hph
    exact hunknown (List.mem_map.2 ⟨p, hp, of_decide_eq_true hph⟩)
  rw [changeChannel, setDefaultChannelByHash, hnone]

/-- Only the default channel changes. -/
theorem changeChannel_cases (c : Client) (h : String) :
    changeChannel c h = c ∨ ∃ channelName, changeChannel c h = { c with defaultChannel := some channelName } := by
  unfold changeChannel setDefaultChannelByHash
  cases c.channelsGenHash.find? fun p => p.2 = h with
  | none => exact .inl rfl
  | some p =>
    by_cases hp : p.1 ∈ c.hfcChannels
    · right
      exact ⟨p.1, by simp [hp]⟩
    · left
      simp [hp]

theorem fields_run (c : Client) (call : Call) :
    (call.run c).channelsGenHash = c.channelsGenHash ∧ (call.run c).configChannels = c.configChannels := by
  cases call with
  | getCurrentChannel => exact ⟨rfl, rfl⟩
  | changeChannel h =>
    show (changeChannel c h).channelsGenHash = _ ∧ (changeChannel c h).configChannels = _
    rcases changeChannel_cases c h with heq | ⟨channelName, heq⟩
    · rw [heq]
      exact ⟨rfl, rfl⟩
    · rw [heq]
      exact ⟨rfl, rfl⟩

theorem fields_after (c : Client) (calls : List Call) :
    (after c calls).channelsGenHash = c.channelsGenHash ∧ (after c calls).configChannels = c.configChannels := by
  induction calls generalizing c with
  | nil => exact ⟨rfl, rfl⟩
  | cons call calls ih =>
    obtain ⟨hhash, hconfig⟩ := ih (call.run c)
    obtain ⟨hhash', hconfig'⟩ := fields_run c call
    exact ⟨hhash.trans hhash', hconfig.trans hconfig'⟩

theorem known_after (c : Client) (calls : List Call) (h : String) : Known (after c calls) h ↔ Known c h := by
  rw [Known, (fields_after c calls).1, Known]

/-- **The answer is the same after any calls.** -/
theorem getCurrentChannel_after (c : Client) (calls : List Call) :
    getCurrentChannel (after c calls) = getCurrentChannel c := by
  obtain ⟨hhash, hconfig⟩ := fields_after c calls
  have hget : getChannelGenHash (after c calls) = getChannelGenHash c := by
    funext channelName
    rw [getChannelGenHash, hhash, getChannelGenHash]
  rw [getCurrentChannel, hconfig, hget, getCurrentChannel]

/-! ## The answer -/

theorem getChannelGenHash_eq_some {c : Client} {channelName h : String} :
    getChannelGenHash c channelName = some h ↔ (channelName, h) ∈ c.channelsGenHash := by
  rw [getChannelGenHash, Option.map_eq_some_iff]
  constructor
  · rintro ⟨p, hfind, rfl⟩
    have hname := List.find?_some hfind
    rw [decide_eq_true_eq] at hname
    rw [← hname]
    exact List.mem_of_find?_eq_some hfind
  · intro hmem
    have hsome : (c.channelsGenHash.find? fun p => p.1 = channelName).isSome := by
      rw [List.find?_isSome]
      exact ⟨_, hmem, decide_eq_true rfl⟩
    obtain ⟨p, hfind⟩ := Option.isSome_iff_exists.1 hsome
    have hname := List.find?_some hfind
    rw [decide_eq_true_eq] at hname
    have hp := List.inj_on_of_nodup_map c.keys (List.mem_of_find?_eq_some hfind) hmem hname
    exact ⟨p, hfind, by rw [hp]⟩

theorem getCurrentChannel_eq_iff {c : Client} {h : String} :
    getCurrentChannel c = ⟨none, none, h⟩ ↔ IsFirst c h := by
  have hfirst : IsFirst c h ↔ c.configChannels.head?.bind (getChannelGenHash c) = some h := by
    rw [Option.bind_eq_some_iff]
    simp only [IsFirst, Option.mem_def, getChannelGenHash_eq_some]
  rw [hfirst, getCurrentChannel]
  cases hanswer : c.configChannels.head?.bind (getChannelGenHash c) with
  | none => simp
  | some h' =>
    obtain ⟨channelName, -, hget⟩ := Option.bind_eq_some_iff.1 hanswer
    have hne : h' ≠ "" := by
      intro hempty
      have hmem := List.mem_map_of_mem (f := Prod.snd) (getChannelGenHash_eq_some.1 hget)
      exact c.hashes (hempty ▸ hmem)
    simp [hne]

/-- **The current channel is the one selected last if and only if**, whenever
it is asked for after a selection, that was the first channel of the
connection profile. -/
theorem currentChannel_last_iff (c : Client) (calls : List Call) :
    ReturnsLast c calls ↔ ∀ pre post, calls = pre ++ .getCurrentChannel :: post →
      ∀ h ∈ lastSelected c pre, IsFirst c h := by
  have hanswer : ∀ pre h, getCurrentChannel (after c pre) = ⟨none, none, h⟩ ↔ IsFirst c h := by
    intro pre h
    rw [getCurrentChannel_after, getCurrentChannel_eq_iff]
  constructor
  · intro hlast pre post hcalls h hh
    exact (hanswer pre h).1 (hlast.last pre post hcalls h hh)
  · intro hfirst
    refine ⟨?_, ?_⟩
    · intro pre post hcalls h hh
      exact (hanswer pre h).2 (hfirst pre post hcalls h hh)
    · intro pre h post _ hunknown
      rw [after, List.foldl_append]
      exact changeChannel_unknown (mt (known_after c pre h).1 hunknown)

/-- Two channels, both configured and discovered. -/
def twoChannels : Client where
  channels := ["ch1", "ch2"]
  channelsGenHash := [("ch1", "g1"), ("ch2", "g2")]
  configChannels := ["ch1", "ch2"]
  hfcChannels := ["ch1", "ch2"]
  defaultChannel := some "ch2"
  keys := by decide
  different := by decide
  hashes := by decide

theorem currentChannel_not_last :
    getCurrentChannel (after twoChannels [.changeChannel "g2"]) = ⟨none, none, "g1"⟩ ∧
      ¬ ReturnsLast twoChannels [.changeChannel "g2", .getCurrentChannel] := by
  refine ⟨by decide, fun h => ?_⟩
  have hlast := h.last [.changeChannel "g2"] [] rfl "g2" (by decide)
  revert hlast
  decide

end Explorer.Fabric.CurrentChannel
