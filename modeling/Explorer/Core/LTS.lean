import Mathlib.Algebra.Ring.Nat
/-!
# Labelled transition systems

Runs, reachable states and inductive invariants over an arbitrary state
type `S` and label type `L`. Every concurrent part of the explorer is an
`LTS`: a label is one asynchronous completion (a reply, a settled promise, a
statement the database executed), a run is one order in which they happen.

* `Inductive.reachable`: what holds initially and is kept by every step
  holds in every reachable state; `Inductive.and_of` adds an invariant that
  needs one already proved.
* `restrict`: the runs all of whose steps meet a condition; they keep the
  invariants of all runs (`Inductive.restrict`).
* `Run.restrict_iff`, `Run.kept_iff`, `Run.always_iff`, `Run.always_steps_iff`:
  when a run is one of them, told by what holds of its states and its steps.
* `Inductive.reachable_iff`: a step function that agrees with another one where
  an invariant holds.
* `Run.worked_le`, `exists_rest`: a system that works off what it has to do.
* `exec` / `reachable_of_exec`: a run given by its labels, so that a closed
  run can be evaluated.
-/
namespace Explorer

universe u v

structure LTS (S : Type u) (L : Type v) where
  init : S → Prop
  step : S → L → S → Prop

namespace LTS

variable {S : Type u} {L : Type v}

/-- The system of a partial step function: `none` means "not enabled". -/
def ofFn (init : S → Prop) (f : S → L → Option S) : LTS S L where
  init := init
  step s l s' := f s l = some s'

inductive Run (T : LTS S L) : S → List L → S → Prop where
  | nil (s : S) : Run T s [] s
  | cons {s s' s'' : S} {l : L} {ls : List L} (h : T.step s l s') (r : Run T s' ls s'') :
      Run T s (l :: ls) s''

def Reachable (T : LTS S L) (s : S) : Prop := ∃ s₀ ls, T.init s₀ ∧ T.Run s₀ ls s

structure Inductive (T : LTS S L) (I : S → Prop) : Prop where
  init : ∀ s, T.init s → I s
  step : ∀ s l s', I s → T.step s l s' → I s'

theorem Run.append {T : LTS S L} {s s₁ s' : S} {ls ls' : List L} (h : T.Run s ls s₁)
    (h' : T.Run s₁ ls' s') : T.Run s (ls ++ ls') s' := by
  induction h with
  | nil => exact h'
  | cons hs _ ih => exact .cons hs (ih h')

/-- A property kept by every step is kept by every run. -/
theorem Run.keeps {T : LTS S L} {I : S → Prop} (hstep : ∀ s l s', I s → T.step s l s' → I s')
    {s s' : S} {ls : List L} (hr : T.Run s ls s') (h : I s) : I s' := by
  induction hr with
  | nil => exact h
  | cons hs _ ih => exact ih (hstep _ _ _ h hs)

theorem Inductive.reachable {T : LTS S L} {I : S → Prop} (hI : T.Inductive I) (s : S)
    (hr : T.Reachable s) : I s := by
  obtain ⟨s₀, ls, h0, hrun⟩ := hr
  exact hrun.keeps hI.step (hI.init s₀ h0)

/-- An invariant `J` whose step proof may use an invariant `I`. -/
theorem Inductive.and_of {T : LTS S L} {I J : S → Prop} (hI : T.Inductive I)
    (hinit : ∀ s, T.init s → J s) (hstep : ∀ s l s', I s → J s → T.step s l s' → J s') :
    T.Inductive fun s => I s ∧ J s where
  init s h := ⟨hI.init s h, hinit s h⟩
  step s l s' h hs := ⟨hI.step s l s' h.1 hs, hstep s l s' h.1 h.2 hs⟩

/-- The runs of `T` in which every step `l` from a state `s` meets `C s l`. -/
def restrict (T : LTS S L) (C : S → L → Prop) : LTS S L where
  init := T.init
  step s l s' := C s l ∧ T.step s l s'

theorem Inductive.restrict {T : LTS S L} {I : S → Prop} (hI : T.Inductive I) (C : S → L → Prop) :
    (T.restrict C).Inductive I where
  init := hI.init
  step s l s' h hs := hI.step s l s' h hs.2

/-! ## Runs whose steps meet a condition

`Run.restrict_iff` counts along a run: `Short s n` is an account that never
gets smaller, and grows in exactly the steps that do not meet `C`.
`Run.always_steps_iff` looks at all states and steps of a run: `C` is what a
step needs to lead from `I` to `I`, and to be a `P`. -/

theorem Run.mono {T T' : LTS S L} (hstep : ∀ s l s', T.step s l s' → T'.step s l s') {s s' : S} {ls : List L}
    (hr : T.Run s ls s') : T'.Run s ls s' := by
  induction hr with
  | nil => exact .nil _
  | cons hs _ ih => exact .cons (hstep _ _ _ hs) ih

theorem Run.of_restrict {T : LTS S L} {C : S → L → Prop} {s s' : S} {ls : List L}
    (hr : (T.restrict C).Run s ls s') : T.Run s ls s' := by
  have hstep : ∀ s l s', (T.restrict C).step s l s' → T.step s l s' := fun _ _ _ hs => hs.2
  exact hr.mono hstep

theorem Run.labels {T : LTS S L} {P : L → Prop} {s s' : S} {ls : List L}
    (hr : (T.restrict fun _ l => P l).Run s ls s') : ∀ l ∈ ls, P l := by
  induction hr with
  | nil => exact nofun
  | cons hs _ ih => exact List.forall_mem_cons.2 ⟨hs.1, ih⟩

/-- Steps that meet `A` keep `I`, and from `I` they meet `C`. -/
theorem Run.restrict_of {T : LTS S L} {A C : S → L → Prop} {I : S → Prop}
    (hstep : ∀ s l s', I s → A s l → T.step s l s' → I s' ∧ C s l) {s s' : S} {ls : List L}
    (hr : (T.restrict A).Run s ls s') (h : I s) : (T.restrict C).Run s ls s' := by
  induction hr with
  | nil => exact .nil _
  | cons hs _ ih =>
    obtain ⟨h', hC⟩ := hstep _ _ _ h hs.1 hs.2
    exact .cons ⟨hC, hs.2⟩ (ih h')

/-- The account along a run. -/
theorem Run.short {T : LTS S L} {Short : S → Nat → Prop} {C : S → L → Prop}
    (hstep : ∀ s l s' n, Short s n → T.step s l s' → ∃ k, Short s' (n + k) ∧ (k = 0 ↔ C s l))
    {s s' : S} {ls : List L} (hr : T.Run s ls s') :
    ∀ {n : Nat}, Short s n → ∃ k, Short s' (n + k) ∧ (k = 0 → (T.restrict C).Run s ls s') := by
  induction hr with
  | nil s => exact fun h => ⟨0, h, fun _ => .nil s⟩
  | cons hs _ ih =>
    intro n h
    obtain ⟨j, hj, hC⟩ := hstep _ _ _ _ h hs
    obtain ⟨k, hk, hrun⟩ := ih hj
    refine ⟨j + k, by rwa [← Nat.add_assoc], fun h0 => ?_⟩
    exact .cons ⟨hC.1 (by omega), hs⟩ (hrun (by omega))

/-- The account is the same at the end of a run if and only if every step met
the condition. -/
theorem Run.restrict_iff {T : LTS S L} {Short : S → Nat → Prop} {C : S → L → Prop}
    (huniq : ∀ s m n, Short s m → Short s n → m = n)
    (hstep : ∀ s l s' n, Short s n → T.step s l s' → ∃ k, Short s' (n + k) ∧ (k = 0 ↔ C s l))
    {s s' : S} {ls : List L} {n : Nat} (hr : T.Run s ls s') (h : Short s n) :
    Short s' n ↔ (T.restrict C).Run s ls s' := by
  constructor
  · intro h'
    obtain ⟨k, hk, hrun⟩ := hr.short hstep h
    have := huniq _ _ _ h' hk
    exact hrun (by omega)
  · intro hrun
    have hkeep : ∀ s l s', Short s n → (T.restrict C).step s l s' → Short s' n := by
      rintro s l s' hn ⟨hC, hs⟩
      obtain ⟨k, hk, hiff⟩ := hstep _ _ _ _ hn hs
      rwa [hiff.2 hC, Nat.add_zero] at hk
    exact hrun.keeps hkeep h

/-- What no step repairs: `I` holds at the end of a run of steps `A` if and
only if it did at the start and every step met the condition. -/
theorem Run.kept_iff {T : LTS S L} {I J : S → Prop} {A : L → Prop} {C : S → L → Prop}
    (hJ : ∀ s l s', J s → A l → T.step s l s' → J s')
    (hstep : ∀ s l s', J s → A l → T.step s l s' → (I s' ↔ I s ∧ C s l)) {s s' : S} {ls : List L}
    (hr : T.Run s ls s') (hls : ∀ l ∈ ls, A l) (hs : J s) : I s' ↔ I s ∧ (T.restrict C).Run s ls s' := by
  constructor
  · intro h
    induction hr with
    | nil s => exact ⟨h, .nil s⟩
    | cons hl _ ih =>
      rw [List.forall_mem_cons] at hls
      obtain ⟨h₁, hrun⟩ := ih hls.2 (hJ _ _ _ hs hls.1 hl) h
      obtain ⟨h₀, hC⟩ := (hstep _ _ _ hs hls.1 hl).1 h₁
      exact ⟨h₀, .cons ⟨hC, hl⟩ hrun⟩
  · rintro ⟨h, hrun⟩
    clear hr
    induction hrun with
    | nil => exact h
    | cons hl _ ih =>
      rw [List.forall_mem_cons] at hls
      exact ih hls.2 (hJ _ _ _ hs hls.1 hl.2) ((hstep _ _ _ hs hls.1 hl.2).2 ⟨h, hl.1⟩)

/-- Every state that a run goes through meets `I`, and every step it makes
meets `P`, if and only if every step met the condition. -/
theorem Run.always_steps_iff {init : S → Prop} {f : S → L → Option S} {I J : S → Prop}
    {P : S → S → Prop} {C : S → L → Prop} (hJ : ∀ s l s', J s → f s l = some s' → J s')
    (hstep : ∀ s l s', J s → I s → f s l = some s' → (I s' ∧ P s s' ↔ C s l))
    {s s' : S} {ls : List L} (hr : (ofFn init f).Run s ls s') (hs : J s) (h : I s) :
    (∀ pre post m, ls = pre ++ post → (ofFn init f).Run s pre m →
        I m ∧ ∀ l post' m', post = l :: post' → f m l = some m' → P m m') ↔
      ((ofFn init f).restrict C).Run s ls s' := by
  induction hr with
  | nil s =>
    refine ⟨fun _ => .nil s, fun _ pre post m heq hrun => ?_⟩
    obtain ⟨rfl, rfl⟩ := List.append_eq_nil_iff.1 heq.symm
    cases hrun
    exact ⟨h, fun l post' m' heq' => by cases heq'⟩
  | @cons s s₁ s' l ls hl hr ih =>
    have hiff := hstep s l s₁ hs h hl
    constructor
    · intro hall
      have h₁ : I s₁ := (hall [l] ls s₁ rfl (.cons hl (.nil s₁))).1
      have hp : P s s₁ := (hall [] (l :: ls) s rfl (.nil s)).2 l ls s₁ rfl hl
      refine .cons ⟨hiff.1 ⟨h₁, hp⟩, hl⟩ ((ih (hJ _ _ _ hs hl) h₁).1 fun pre post m heq hrun => ?_)
      exact hall (l :: pre) post m (by rw [heq]; rfl) (.cons hl hrun)
    · intro hrun pre post m heq hpre
      cases hrun with
      | @cons _ s₂ _ _ _ hl₂ hrest =>
        obtain rfl : s₁ = s₂ := Option.some.inj (hl.symm.trans hl₂.2)
        obtain ⟨h₁, hp⟩ := hiff.2 hl₂.1
        cases hpre with
        | nil =>
          refine ⟨h, fun l' post' m' heq' hm => ?_⟩
          subst heq'
          simp only [List.nil_append, List.cons.injEq] at heq
          obtain ⟨rfl, -⟩ := heq
          obtain rfl : s₁ = m' := Option.some.inj (hl.symm.trans hm)
          exact hp
        | @cons _ m₁ _ _ pre hm hpre =>
          simp only [List.cons_append, List.cons.injEq] at heq
          obtain ⟨rfl, heq⟩ := heq
          obtain rfl : s₁ = m₁ := Option.some.inj (hl.symm.trans hm)
          exact (ih (hJ _ _ _ hs hl) h₁).2 hrest pre post m heq hpre

/-- Every state that a run goes through meets `I` if and only if every step
met the condition. -/
theorem Run.always_iff {init : S → Prop} {f : S → L → Option S} {I J : S → Prop} {C : S → L → Prop}
    (hJ : ∀ s l s', J s → f s l = some s' → J s')
    (hstep : ∀ s l s', J s → I s → f s l = some s' → (I s' ↔ C s l))
    {s s' : S} {ls : List L} (hr : (ofFn init f).Run s ls s') (hs : J s) (h : I s) :
    (∀ pre post m, ls = pre ++ post → (ofFn init f).Run s pre m → I m) ↔
      ((ofFn init f).restrict C).Run s ls s' := by
  have hiff : ∀ s l s', J s → I s → f s l = some s' → (I s' ∧ True ↔ C s l) := fun s l s' hs h hl => by
    rw [and_true]
    exact hstep s l s' hs h hl
  rw [← hr.always_steps_iff hJ hiff hs h]
  simp only [implies_true, and_true]

/-- A step function leaves no choice: what a run does behind a run it starts
with. -/
theorem Run.of_append {init : S → Prop} {f : S → L → Option S} {s m s' : S} {pre post : List L}
    (hpre : (ofFn init f).Run s pre m) (hr : (ofFn init f).Run s (pre ++ post) s') :
    (ofFn init f).Run m post s' := by
  induction hpre with
  | nil => exact hr
  | @cons _ s₁ _ _ _ hl _ ih =>
    cases hr with
    | @cons _ s₂ _ _ _ hl₂ hrest =>
      obtain rfl : s₁ = s₂ := Option.some.inj (hl.symm.trans hl₂)
      exact ih hrest

/-- Two step functions that agree where an invariant of one of them holds have
the same runs. -/
theorem Inductive.run_iff {init : S → Prop} {f g : S → L → Option S} {I : S → Prop}
    (hI : (ofFn init f).Inductive I) (hagree : ∀ s l, I s → g s l = f s l) {s s' : S} {ls : List L} (h : I s) :
    (ofFn init g).Run s ls s' ↔ (ofFn init f).Run s ls s' := by
  constructor
  · intro hr
    induction hr with
    | nil => exact .nil _
    | @cons s s₁ s' l ls hs _ ih =>
      have hf : (ofFn init f).step s l s₁ := (hagree s l h).symm.trans hs
      exact .cons hf (ih (hI.step _ _ _ h hf))
  · intro hr
    induction hr with
    | nil => exact .nil _
    | @cons s s₁ s' l ls hs _ ih => exact .cons ((hagree s l h).trans hs) (ih (hI.step _ _ _ h hs))

theorem Inductive.reachable_iff {init : S → Prop} {f g : S → L → Option S} {I : S → Prop}
    (hI : (ofFn init f).Inductive I) (hagree : ∀ s l, I s → g s l = f s l) (s : S) :
    (ofFn init g).Reachable s ↔ (ofFn init f).Reachable s := by
  constructor
  · rintro ⟨s₀, ls, h0, hr⟩
    exact ⟨s₀, ls, h0, (hI.run_iff hagree (hI.init s₀ h0)).1 hr⟩
  · rintro ⟨s₀, ls, h0, hr⟩
    exact ⟨s₀, ls, h0, (hI.run_iff hagree (hI.init s₀ h0)).2 hr⟩

/-! ## Systems that come to rest

`cost s` is what is left to do in `s`. A label that is `work` takes at least
one off; `price l` is what `l` adds. -/

section
variable {T : LTS S L} {I : S → Prop} (work : L → Bool) (cost : S → Nat) (price : L → Nat)

/-- A run works off no more than there was to do and its labels have added. -/
theorem Run.worked_le (hI : ∀ s l s', I s → T.step s l s' → I s')
    (hcost : ∀ s l s', I s → T.step s l s' → cost s' + (if work l then 1 else 0) ≤ cost s + price l)
    {s s' : S} {ls : List L} (hr : T.Run s ls s') (h : I s) :
    cost s' + ls.countP work ≤ cost s + (ls.map price).sum := by
  induction hr with
  | nil s => simp
  | @cons s s₁ s' l ls hs _ ih =>
    have hhead := hcost s l s₁ h hs
    have htail := ih (hI s l s₁ h hs)
    rw [List.countP_cons, List.map_cons, List.sum_cons]
    omega

/-- Where only a state at rest has no work to do, all that is left gets done. -/
theorem exists_rest (rest : S → Prop) (hI : ∀ s l s', I s → T.step s l s' → I s')
    (hcost : ∀ s l s', I s → work l = true → T.step s l s' → cost s' < cost s)
    (hwork : ∀ s, I s → ¬ rest s → ∃ l s', work l = true ∧ T.step s l s') {s : S} (h : I s) :
    ∃ ls s', (∀ l ∈ ls, work l = true) ∧ ls.length ≤ cost s ∧ T.Run s ls s' ∧ rest s' := by
  induction hn : cost s using Nat.strongRecOn generalizing s with
  | ind n ih =>
    by_cases hrest : rest s
    · exact ⟨[], s, nofun, Nat.zero_le _, .nil s, hrest⟩
    · obtain ⟨l, s₁, hl, hs⟩ := hwork s h hrest
      have hlt := hcost s l s₁ h hl hs
      obtain ⟨ls, s', hall, hlen, hr, hend⟩ := ih (cost s₁) (hn ▸ hlt) (hI s l s₁ h hs) rfl
      refine ⟨l :: ls, s', List.forall_mem_cons.2 ⟨hl, hall⟩, ?_, .cons hs hr, hend⟩
      rw [List.length_cons]
      omega

end

/-! ## Runs given by their labels -/

def exec (f : S → L → Option S) : S → List L → Option S
  | s, [] => some s
  | s, l :: ls => (f s l).bind fun s' => exec f s' ls

theorem run_of_exec {init : S → Prop} {f : S → L → Option S} :
    ∀ {s : S} {ls : List L} {s' : S}, exec f s ls = some s' → (ofFn init f).Run s ls s'
  | s, [], s', h => by
    simp only [exec, Option.some.injEq] at h
    subst h; exact .nil _
  | s, l :: ls, s', h => by
    simp only [exec, Option.bind_eq_some_iff] at h
    obtain ⟨s₁, h₁, h₂⟩ := h
    exact .cons h₁ (run_of_exec h₂)

theorem exec_append {f : S → L → Option S} {s s₁ s' : S} {ls ls' : List L} (h : exec f s ls = some s₁)
    (h' : exec f s₁ ls' = some s') : exec f s (ls ++ ls') = some s' := by
  induction ls generalizing s with
  | nil =>
    cases h
    exact h'
  | cons l ls ih =>
    simp only [exec, List.cons_append, Option.bind_eq_some_iff] at h ⊢
    obtain ⟨s₂, h₂, h⟩ := h
    exact ⟨s₂, h₂, ih h⟩

theorem reachable_of_exec {init : S → Prop} {f : S → L → Option S} {s₀ s : S} {ls : List L}
    (h0 : init s₀) (h : exec f s₀ ls = some s) : (ofFn init f).Reachable s :=
  ⟨s₀, ls, h0, run_of_exec h⟩

/-- `f` with the steps that do not meet `C` disabled. -/
def guarded (C : S → L → Prop) [∀ s l, Decidable (C s l)] (f : S → L → Option S) (s : S) (l : L) :
    Option S :=
  if C s l then f s l else none

theorem exec_of_guarded {C : S → L → Prop} [∀ s l, Decidable (C s l)] {f : S → L → Option S} :
    ∀ {s : S} {ls : List L} {s' : S}, exec (guarded C f) s ls = some s' → exec f s ls = some s'
  | s, [], s', h => h
  | s, l :: ls, s', h => by
    simp only [exec, guarded, Option.bind_eq_some_iff] at h ⊢
    obtain ⟨s₁, h₁, h₂⟩ := h
    split at h₁
    · exact ⟨s₁, h₁, exec_of_guarded h₂⟩
    · cases h₁

theorem restrict_run_of_exec {init : S → Prop} {C : S → L → Prop} [∀ s l, Decidable (C s l)]
    {f : S → L → Option S} {s₀ s : S} {ls : List L} (h : exec (guarded C f) s₀ ls = some s) :
    ((ofFn init f).restrict C).Run s₀ ls s := by
  have hrun : (ofFn init (guarded C f)).Run s₀ ls s := run_of_exec h
  clear h
  induction hrun with
  | nil => exact .nil _
  | cons hs _ ih =>
    simp only [ofFn, guarded] at hs
    split at hs
    · rename_i hC
      exact .cons ⟨hC, hs⟩ ih
    · cases hs

theorem restrict_reachable_of_exec {init : S → Prop} {C : S → L → Prop} [∀ s l, Decidable (C s l)]
    {f : S → L → Option S} {s₀ s : S} {ls : List L} (h0 : init s₀)
    (h : exec (guarded C f) s₀ ls = some s) : ((ofFn init f).restrict C).Reachable s :=
  ⟨s₀, ls, h0, restrict_run_of_exec h⟩

end LTS
end Explorer
