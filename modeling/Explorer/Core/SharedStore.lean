import Mathlib.Logic.Function.Basic
import Explorer.Core.LTS

/-!
# Parties that share a store

Parties work on one store, each with a state of its own in which it finds the
store (`Access`). A step of one changes the store and its own state (`Joint`);
the steps interleave in any order. The store has a part for each party, such as
the rows of a table that carry its name (`rowsOf`).

* `Separate`: what a party does with the store depends on its own part alone,
  and leaves the parts of the others as they are.
* `alone_step`: then a step of all is a step that the party makes on its part,
  and for the others nothing.
* `run_alone`: every run of all is a run of each party alone, of its own steps.
* `run_of_alone`: runs of the parties alone can be merged in any order.
-/
namespace Explorer.SharedStore

/-- How the store is found in a state. -/
structure Access (S D : Type) where
  get : S → D
  put : S → D → S
  get_put : ∀ s d, get (put s d) = d
  put_get : ∀ s, put s (get s) = s
  put_put : ∀ s d d', put (put s d) d' = put s d'

/-- The store, and the states of the parties as they were after their own last
step. -/
structure Joint (P S D : Type) where
  store : D
  states : P → S

variable {P S D L : Type}

/-! ## The system -/

section
variable (A : Access S D) (own : P → D → D)

/-- The state of a party, with the store as it is. -/
def Joint.seen (σ : Joint P S D) (p : P) : S := A.put (σ.states p) σ.store

/-- The state of a party, with its part of the store and nothing else. -/
def Joint.alone (σ : Joint P S D) (p : P) : S := A.put (σ.states p) (own p σ.store)

def reduce (p : P) (s : S) : S := A.put s (own p (A.get s))

variable [DecidableEq P] (step : P → S → L → Option S)

def Joint.next (σ : Joint P S D) (e : P × L) : Option (Joint P S D) :=
  (step e.1 (σ.seen A e.1) e.2).map fun s => ⟨A.get s, Function.update σ.states e.1 s⟩

def joint (init : Joint P S D → Prop) : LTS (Joint P S D) (P × L) := LTS.ofFn init (Joint.next A step)

/-- The steps of one party. -/
def labelsOf (p : P) (ls : List (P × L)) : List L :=
  ls.filterMap fun e => if e.1 = p then some e.2 else none

/-- Parties that keep to their own parts, in states that meet `I`. -/
structure Separate (I : P → S → Prop) : Prop where
  keeps : ∀ p s l s', I p s → step p s l = some s' → I p s'
  put : ∀ p s d, I p s → I p (A.put s d)
  alone : ∀ p s l, I p s → step p (reduce A own p s) l = (step p s l).map (reduce A own p)
  others : ∀ p q s l s', I p s → q ≠ p → step p s l = some s' → own q (A.get s') = own q (A.get s)

end

section
variable {A : Access S D} {own : P → D → D}

theorem reduce_seen (σ : Joint P S D) (p : P) : reduce A own p (σ.seen A p) = σ.alone A own p := by
  rw [reduce, Joint.seen, A.get_put, A.put_put, Joint.alone]

variable [DecidableEq P]

theorem labelsOf_cons_self (p : P) (l : L) (ls : List (P × L)) : labelsOf p ((p, l) :: ls) = l :: labelsOf p ls := by
  simp [labelsOf]

theorem labelsOf_cons_other {p q : P} (h : q ≠ p) (l : L) (ls : List (P × L)) :
    labelsOf p ((q, l) :: ls) = labelsOf p ls := by
  simp [labelsOf, h]

variable {step : P → S → L → Option S} {I : P → S → Prop} (h : Separate A own step I)
include h

/-! ## One step -/

theorem states_step {σ σ' : Joint P S D} {e : P × L} (hI : ∀ p, I p (σ.states p))
    (hs : σ.next A step e = some σ') : ∀ p, I p (σ'.states p) := by
  obtain ⟨s, hstep, rfl⟩ := Option.map_eq_some_iff.1 hs
  intro p
  by_cases hp : p = e.1
  · subst hp
    have hs : I e.1 s := h.keeps _ _ _ _ (h.put _ _ _ (hI e.1)) hstep
    simpa using hs
  · simpa [hp] using hI p

/-- **A step of one party** is a step that it makes on its own part. -/
theorem alone_step {σ : Joint P S D} (hI : ∀ p, I p (σ.states p)) (p : P) (l : L) :
    step p (σ.alone A own p) l = (σ.next A step (p, l)).map fun σ' => σ'.alone A own p := by
  have hseen : I p (σ.seen A p) := h.put _ _ _ (hI p)
  rw [← reduce_seen, h.alone _ _ _ hseen, Joint.next, Option.map_map]
  refine congrArg (fun f => Option.map f _) (funext fun s => ?_)
  simp [reduce, Joint.alone]

/-- **The others** do not notice it. -/
theorem alone_step_other {σ σ' : Joint P S D} (hI : ∀ p, I p (σ.states p)) {e : P × L}
    (hs : σ.next A step e = some σ') {p : P} (hp : p ≠ e.1) : σ'.alone A own p = σ.alone A own p := by
  obtain ⟨s, hstep, rfl⟩ := Option.map_eq_some_iff.1 hs
  have hseen : I e.1 (σ.seen A e.1) := h.put _ _ _ (hI e.1)
  have hpart : own p (A.get s) = own p σ.store := by
    rw [h.others _ _ _ _ _ hseen hp hstep, Joint.seen, A.get_put]
  have hstate : Function.update σ.states e.1 s p = σ.states p := Function.update_of_ne hp _ _
  simp only [Joint.alone, hpart, hstate]

/-! ## Runs -/

/-- **Every run of all is a run of each party alone.** -/
theorem run_alone {init : Joint P S D → Prop} {start : S → Prop} {σ σ' : Joint P S D} {ls : List (P × L)}
    (hI : ∀ p, I p (σ.states p)) (hr : (joint A step init).Run σ ls σ') (p : P) :
    (LTS.ofFn start (step p)).Run (σ.alone A own p) (labelsOf p ls) (σ'.alone A own p) := by
  induction hr with
  | nil => exact .nil _
  | @cons σ σ₁ σ' e ls hs hr ih =>
    have htail := ih (states_step h hI hs)
    obtain ⟨q, l⟩ := e
    have hone : σ.next A step (q, l) = some σ₁ := hs
    by_cases hq : q = p
    · subst hq
      have halone := alone_step h hI q l
      rw [hone, Option.map_some] at halone
      rw [labelsOf_cons_self]
      exact .cons halone htail
    · rw [labelsOf_cons_other hq, ← alone_step_other h hI hone (Ne.symm hq)]
      exact htail

/-- **Runs of the parties alone can be merged in any order.** -/
theorem run_of_alone {init : Joint P S D → Prop} {start : P → S → Prop} {σ : Joint P S D} {ls : List (P × L)}
    (hI : ∀ p, I p (σ.states p))
    (hr : ∀ p, ∃ s', (LTS.ofFn (start p) (step p)).Run (σ.alone A own p) (labelsOf p ls) s') :
    ∃ σ', (joint A step init).Run σ ls σ' := by
  induction ls generalizing σ with
  | nil => exact ⟨σ, .nil σ⟩
  | cons e ls ih =>
    obtain ⟨q, l⟩ := e
    obtain ⟨s', hq⟩ := hr q
    rw [labelsOf_cons_self] at hq
    cases hq with
    | @cons _ s₁ _ _ _ hstep hrest =>
      have halone : step q (σ.alone A own q) l = some s₁ := hstep
      rw [alone_step h hI, Option.map_eq_some_iff] at halone
      obtain ⟨σ₁, hone, rfl⟩ := halone
      have hall : ∀ p, ∃ s', (LTS.ofFn (start p) (step p)).Run (σ₁.alone A own p) (labelsOf p ls) s' := by
        intro p
        by_cases hp : q = p
        · subst hp
          exact ⟨s', hrest⟩
        · obtain ⟨s'', hp'⟩ := hr p
          rw [labelsOf_cons_other hp, ← alone_step_other h hI hone (Ne.symm hp)] at hp'
          exact ⟨s'', hp'⟩
      obtain ⟨σ', hr'⟩ := ih (states_step h hI hone) hall
      exact ⟨σ', .cons hone hr'⟩

end

/-! ## What is written -/

/-- A write to the part of `p`: it depends on that part, and leaves the others. -/
structure Within (own : P → D → D) (p : P) (write : D → D) : Prop where
  self : ∀ d, write (own p d) = own p (write d)
  other : ∀ d q, q ≠ p → own q (write d) = own q d

theorem within_id (own : P → D → D) (p : P) : Within own p id := ⟨fun _ => rfl, fun _ _ _ => rfl⟩

/-! ## Tables with a column for the party -/

section
variable {R N : Type} [DecidableEq N] (owner : R → N)

/-- The rows of `n`. -/
def rowsOf (n : N) (table : List R) : List R := table.filter fun r => owner r = n

variable {owner} {n : N} (table : List R)

theorem rowsOf_append_self {row : R} (h : owner row = n) :
    rowsOf owner n (table ++ [row]) = rowsOf owner n table ++ [row] := by
  simp [rowsOf, h]

theorem rowsOf_append_other {row : R} (h : owner row ≠ n) : rowsOf owner n (table ++ [row]) = rowsOf owner n table := by
  simp [rowsOf, h]

section
variable {set : R → R} (hset : ∀ r, owner (set r) = owner r)
include hset

theorem rowsOf_map_self : rowsOf owner n (table.map set) = (rowsOf owner n table).map set := by
  rw [rowsOf, List.filter_map]
  refine congrArg (List.map _) (List.filter_congr fun r _ => ?_)
  rw [Function.comp_apply, hset]

theorem rowsOf_map_other (hother : ∀ r, owner r = n → set r = r) :
    rowsOf owner n (table.map set) = rowsOf owner n table := by
  rw [rowsOf_map_self table hset]
  refine (List.map_congr_left fun r hr => hother r ?_).trans (List.map_id' _)
  simpa using (List.mem_filter.1 hr).2

end

section
variable {u : R → Bool} (hu : ∀ r, u r = true → owner r = n)
include hu

theorem filter_rowsOf : (rowsOf owner n table).filter u = table.filter u := by
  rw [rowsOf, List.filter_filter]
  refine List.filter_congr fun r _ => ?_
  cases h : u r with
  | true => simp [hu r h]
  | false => rfl

theorem countP_rowsOf : (rowsOf owner n table).countP u = table.countP u := by
  rw [List.countP_eq_length_filter, filter_rowsOf table hu, List.countP_eq_length_filter]

theorem find?_rowsOf : (rowsOf owner n table).find? u = table.find? u := by
  rw [← List.head?_filter, filter_rowsOf table hu, List.head?_filter]

theorem any_rowsOf : (rowsOf owner n table).any u = table.any u := by
  rw [Bool.eq_iff_iff, List.any_eq_true, List.any_eq_true]
  constructor
  · rintro ⟨r, hr, h⟩
    exact ⟨r, (List.mem_filter.1 hr).1, h⟩
  · rintro ⟨r, hr, h⟩
    exact ⟨r, List.mem_filter.2 ⟨hr, by simpa using hu r h⟩, h⟩

end
end

end Explorer.SharedStore
