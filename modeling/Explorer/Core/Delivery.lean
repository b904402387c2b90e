import Mathlib.Data.List.Induction

/-!
# In-order, one-at-a-time delivery

The purpose of a consumer loop, stated on its own: items with a natural
number key are handed to a callback one after the other, key `next` first,
the following call only after the previous one has resolved, and none after
the delivery was stopped or a call was rejected.

`accept` is that specification as an automaton over the observations of a
run. What an accepted sequence of observations looks like:

* `calls_keys`: the keys handed over are `first, first + 1, …`;
* `unsettled_le_one`: at most one call is unsettled;
* `call_after`: when a call starts, every earlier call has resolved and the
  delivery has not been stopped.
-/
namespace Explorer.Delivery

/-- What can be seen of a run: a call starts, it resolves or rejects, the
delivery is stopped (by its owner or by a failing source). -/
inductive Obs (B : Type) where
  | call (b : B)
  | resolved
  | rejected
  | stopped
  deriving DecidableEq, Repr

/-- `next` is the key of the current call, or of the next one to start. -/
structure St where
  next : Nat
  busy : Bool
  stopped : Bool
  deriving DecidableEq, Repr

variable {B : Type} (key : B → Nat)

def accept (s : St) : Obs B → Option St
  | .call b =>
    if s.busy = false ∧ s.stopped = false ∧ key b = s.next then some { s with busy := true } else none
  | .resolved => if s.busy then some { s with next := s.next + 1, busy := false } else none
  | .rejected => if s.busy then some { s with busy := false, stopped := true } else none
  | .stopped => some { s with stopped := true }

def accepts (s : St) (log : List (Obs B)) : Option St := log.foldlM (accept key) s

def init (first : Nat) : St := ⟨first, false, false⟩

@[simp] theorem accepts_nil (s : St) : accepts key s [] = some s := rfl

@[simp] theorem accepts_snoc (s : St) (log : List (Obs B)) (o : Obs B) :
    accepts key s (log ++ [o]) = (accepts key s log).bind fun s' => accept key s' o := by
  simp [accepts, List.foldlM_append]

/-! ## Reading a log -/

def Obs.item? : Obs B → Option B
  | .call b => some b
  | _ => none

def Obs.isResolved : Obs B → Bool
  | .resolved => true
  | _ => false

def Obs.isSettled : Obs B → Bool
  | .resolved | .rejected => true
  | _ => false

/-- The delivery was stopped or a call was rejected. -/
def Obs.isStop : Obs B → Bool
  | .stopped | .rejected => true
  | _ => false

/-- The items handed over, in call order. -/
def calls (log : List (Obs B)) : List B := log.filterMap Obs.item?

/-- Calls that have neither resolved nor been rejected. -/
def unsettled (log : List (Obs B)) : Nat := (calls log).length - log.countP Obs.isSettled

theorem calls_snoc (log : List (Obs B)) (o : Obs B) :
    calls (log ++ [o]) = calls log ++ o.item?.toList := by
  cases o <;> simp [calls, Obs.item?]

/-- What a log accepted from `init first` says about its calls. -/
structure Acc (first : Nat) (log : List (Obs B)) (s : St) : Prop where
  keys : (calls log).map key = List.range' first (calls log).length
  count : (calls log).length = log.countP Obs.isSettled + s.busy.toNat
  next : s.busy = true ∨ s.stopped = false → first + (calls log).length = s.next + s.busy.toNat
  stop : log.any Obs.isStop = s.stopped
  resolved : s.stopped = false → log.countP Obs.isSettled = log.countP Obs.isResolved

theorem acc_init (first : Nat) : Acc key first [] (init first) := by
  constructor <;> simp [calls, init]

theorem acc_step {first : Nat} {log : List (Obs B)} {s s' : St} {o : Obs B}
    (h : Acc key first log s) (hs : accept key s o = some s') : Acc key first (log ++ [o]) s' := by
  obtain ⟨hk, hc, hn, hst, hr⟩ := h
  cases o with
  | call b =>
    simp only [accept] at hs
    split at hs
    · rename_i hcond
      obtain ⟨hb, hns, hkey⟩ := hcond
      simp only [Option.some.injEq] at hs
      subst hs
      have hlen : first + (calls log).length = s.next := by simpa [hb] using hn (.inr hns)
      constructor
      · simp [calls_snoc, Obs.item?, hk, List.range'_concat, hlen, hkey]
      · simp only [hb, Bool.toNat_false, Nat.add_zero] at hc
        simp [calls_snoc, Obs.item?, Obs.isSettled, hc]
      · intro _
        simp only [calls_snoc, Obs.item?, Option.toList, List.length_append, List.length_singleton,
          Bool.toNat_true]
        omega
      · simpa [Obs.isStop] using hst
      · intro hns'
        simpa [Obs.isSettled, Obs.isResolved] using hr hns
    · cases hs
  | resolved =>
    simp only [accept] at hs
    split at hs
    · rename_i hb
      simp only [Option.some.injEq] at hs
      subst hs
      simp only [hb, Bool.toNat_true] at hc
      constructor
      · simpa [calls_snoc, Obs.item?] using hk
      · simp [calls_snoc, Obs.item?, Obs.isSettled, hc]
      · intro _
        have := hn (.inl hb)
        simpa [calls_snoc, Obs.item?, hb] using this
      · simpa [Obs.isStop] using hst
      · intro hns
        simpa [Obs.isSettled, Obs.isResolved] using hr hns
    · cases hs
  | rejected =>
    simp only [accept] at hs
    split at hs
    · rename_i hb
      simp only [Option.some.injEq] at hs
      subst hs
      simp only [hb, Bool.toNat_true] at hc
      constructor
      · simpa [calls_snoc, Obs.item?] using hk
      · simp [calls_snoc, Obs.item?, Obs.isSettled, hc]
      · simp
      · simp [Obs.isStop]
      · simp
    · cases hs
  | stopped =>
    simp only [accept, Option.some.injEq] at hs
    subst hs
    constructor
    · simpa [calls_snoc, Obs.item?] using hk
    · simpa [calls_snoc, Obs.item?, Obs.isSettled] using hc
    · intro hbusy
      have := hn (.inl (by simpa using hbusy))
      simpa [calls_snoc, Obs.item?] using this
    · simp [Obs.isStop]
    · simp

theorem acc_of_accepts {first : Nat} : ∀ {log : List (Obs B)} {s : St},
    accepts key (init first) log = some s → Acc key first log s := by
  intro log
  induction log using List.reverseRecOn with
  | nil =>
    intro s h
    simp only [accepts_nil, Option.some.injEq] at h
    subst h; exact acc_init key first
  | append_singleton log o ih =>
    intro s h
    simp only [accepts_snoc, Option.bind_eq_some_iff] at h
    obtain ⟨s₁, h₁, h₂⟩ := h
    exact acc_step key (ih h₁) h₂

/-! ## Accepted logs -/

section
variable {key} {first : Nat} {log : List (Obs B)} {s : St}

/-- The keys handed over are consecutive from `first`. -/
theorem calls_keys (h : accepts key (init first) log = some s) :
    (calls log).map key = List.range' first (calls log).length :=
  (acc_of_accepts key h).keys

/-- While the delivery is idle, everything below `next` has been handed over. -/
theorem calls_below_next (h : accepts key (init first) log = some s) (hb : s.busy = false)
    (hns : s.stopped = false) {k : Nat} (hk : first ≤ k) (hlt : k < s.next) :
    ∃ b ∈ calls log, key b = k := by
  obtain ⟨hkeys, -, hn, -, -⟩ := acc_of_accepts key h
  have hlen : first + (calls log).length = s.next := by simpa [hb] using hn (.inr hns)
  have hmem : k ∈ (calls log).map key := by
    rw [hkeys, List.mem_range'_1]; omega
  simpa using hmem

theorem calls_lt_next (h : accepts key (init first) log = some s) (hb : s.busy = false)
    (hns : s.stopped = false) : ∀ b ∈ calls log, key b < s.next := by
  obtain ⟨hkeys, -, hn, -, -⟩ := acc_of_accepts key h
  have hlen : first + (calls log).length = s.next := by simpa [hb] using hn (.inr hns)
  intro b hb
  have hmem : key b ∈ (calls log).map key := List.mem_map_of_mem hb
  rw [hkeys, List.mem_range'_1] at hmem
  omega

/-- At most one call is unsettled at any time. -/
theorem unsettled_le_one (h : accepts key (init first) log = some s) : unsettled log ≤ 1 := by
  have hc := (acc_of_accepts key h).count
  have : s.busy.toNat ≤ 1 := Bool.toNat_le s.busy
  unfold unsettled
  omega

theorem accepts_prefix {pre post : List (Obs B)} (h : accepts key (init first) (pre ++ post) = some s) :
    ∃ s', accepts key (init first) pre = some s' := by
  simp only [accepts, List.foldlM_append] at h
  obtain ⟨s', h', -⟩ := Option.bind_eq_some_iff.1 h
  exact ⟨s', h'⟩

/-- When a call starts, every earlier call has resolved and nothing has
stopped the delivery. -/
theorem call_after {pre post : List (Obs B)} {b : B}
    (h : accepts key (init first) (pre ++ .call b :: post) = some s) :
    (calls pre).length = pre.countP Obs.isResolved ∧ pre.any Obs.isStop = false := by
  have e : pre ++ .call b :: post = pre ++ [.call b] ++ post := by simp
  rw [e] at h
  obtain ⟨s₁, h₁⟩ := accepts_prefix h
  simp only [accepts_snoc, Option.bind_eq_some_iff] at h₁
  obtain ⟨s₀, h₀, hcall⟩ := h₁
  obtain ⟨-, hc, -, hst, hr⟩ := acc_of_accepts key h₀
  simp only [accept] at hcall
  split at hcall
  · rename_i hcond
    obtain ⟨hb, hns, -⟩ := hcond
    refine ⟨?_, hst.trans hns⟩
    rw [hc, hr hns, hb]; rfl
  · cases hcall

end
end Explorer.Delivery
