/-!
# `ARRAY_APPEND` and `ARRAY_REMOVE`

The two updates of an array column. `ARRAY_APPEND` keeps duplicates,
`ARRAY_REMOVE` deletes every equal element, so how often `x` occurs depends
only on the updates about `x`, and whether it occurs only on the last of
them.

* `count_run`: the number of `x` after a run is a function of the updates
  about `x`.
* `run_map`: updates commute with an injective encoding of the elements.
* `mem_run_nil`: from the empty array, `x` occurs iff some update is about
  `x` and the last such one is an `append`.
-/
namespace Explorer

universe u

inductive ArrayOp (α : Type u) where
  | append (x : α)
  | remove (x : α)
  deriving DecidableEq, Repr

namespace ArrayOp

variable {α : Type u}

def element : ArrayOp α → α
  | .append x => x
  | .remove x => x

/-- The same update on the images of the elements. -/
def map {β : Type u} (f : α → β) : ArrayOp α → ArrayOp β
  | .append x => .append (f x)
  | .remove x => .remove (f x)

/-- How often an element occurs, by the updates about it. -/
def multiplicity (n : Nat) : List (ArrayOp α) → Nat
  | [] => n
  | .append _ :: ops => multiplicity (n + 1) ops
  | .remove _ :: ops => multiplicity 0 ops

theorem multiplicity_snoc (n : Nat) (ops : List (ArrayOp α)) (op : ArrayOp α) :
    0 < multiplicity n (ops ++ [op]) ↔ ∃ x, op = .append x := by
  induction ops generalizing n with
  | nil => cases op <;> simp [multiplicity]
  | cons a ops ih => cases a <;> exact ih _

variable [DecidableEq α]

def apply (xs : List α) : ArrayOp α → List α
  | .append x => xs ++ [x]
  | .remove x => xs.filter (· ≠ x)

def run (xs : List α) (ops : List (ArrayOp α)) : List α := ops.foldl apply xs

/-- The updates whose element is `x`. -/
def about (x : α) (ops : List (ArrayOp α)) : List (ArrayOp α) := ops.filter fun op => op.element = x

theorem run_append (xs : List α) (ops ops' : List (ArrayOp α)) :
    run xs (ops ++ ops') = run (run xs ops) ops' := List.foldl_append

/-- An update adds its own element only. -/
theorem mem_apply {x : α} {xs : List α} {op : ArrayOp α} (h : x ∈ apply xs op) : x ∈ xs ∨ op = .append x := by
  cases op with
  | append y =>
    obtain h | rfl : x ∈ xs ∨ x = y := by simpa [apply] using h
    · exact .inl h
    · exact .inr rfl
  | remove y => exact .inl (List.mem_filter.1 h).1

theorem mem_run {x : α} {xs : List α} {ops : List (ArrayOp α)} (h : x ∈ run xs ops) :
    x ∈ xs ∨ .append x ∈ ops := by
  induction ops generalizing xs with
  | nil => exact .inl h
  | cons op ops ih =>
    have hrun : x ∈ run (apply xs op) ops := h
    obtain h | h := ih hrun
    · obtain h | rfl := mem_apply h
      · exact .inl h
      · exact .inr List.mem_cons_self
    · exact .inr (List.mem_cons_of_mem _ h)

theorem count_apply_of_ne {x : α} {op : ArrayOp α} (xs : List α) (h : op.element ≠ x) :
    (apply xs op).count x = xs.count x := by
  cases op with
  | append y =>
    have hy : y ≠ x := h
    simp [apply, List.count_append, hy]
  | remove y =>
    have hy : y ≠ x := h
    exact List.count_filter (by simpa using hy.symm)

theorem count_run (x : α) (ops : List (ArrayOp α)) :
    ∀ xs : List α, (run xs ops).count x = multiplicity (xs.count x) (about x ops) := by
  induction ops with
  | nil => intro xs; rfl
  | cons op ops ih =>
    intro xs
    have hrun : run xs (op :: ops) = run (apply xs op) ops := rfl
    rw [hrun, ih]
    by_cases h : op.element = x
    · have hab : about x (op :: ops) = op :: about x ops := List.filter_cons_of_pos (by simpa using h)
      rw [hab]
      subst h
      cases op with
      | append y => simp [apply, multiplicity, element, List.count_append]
      | remove y =>
        have h0 : (xs.filter (· ≠ y)).count y = 0 := List.count_eq_zero.2 (by simp)
        simp only [apply, multiplicity, element, h0]
    · have hab : about x (op :: ops) = about x ops := List.filter_cons_of_neg (by simpa using h)
      rw [hab, count_apply_of_ne xs h]

theorem element_of_getLast? {x : α} {ops : List (ArrayOp α)} {op : ArrayOp α}
    (h : (about x ops).getLast? = some op) : op.element = x := by
  have hmem := List.mem_of_getLast? h
  simpa [about] using (List.mem_filter.1 hmem).2

/-- The last update about `x` is an `append` iff there is one and it is not a
`remove`. -/
theorem getLast?_about {x : α} {ops : List (ArrayOp α)} :
    (about x ops).getLast? = some (.append x) ↔
      about x ops ≠ [] ∧ (about x ops).getLast? ≠ some (.remove x) := by
  cases h : (about x ops).getLast? with
  | none => simp [List.getLast?_eq_none_iff.1 h]
  | some op =>
    have hne : about x ops ≠ [] := by
      intro hnil
      rw [hnil] at h; cases h
    have hop := element_of_getLast? h
    subst hop
    cases op with
    | append y => exact ⟨fun _ => ⟨hne, by simp⟩, fun _ => rfl⟩
    | remove y => simp [element]

/-- Updates that are left out because of their element. -/
theorem about_filter (x : α) (p : ArrayOp α → Bool) (ops : List (ArrayOp α))
    (hp : ∀ op, op.element = x → p op = p (.append x)) :
    about x (ops.filter p) = if p (.append x) then about x ops else [] := by
  have hcomm : about x (ops.filter p) = (about x ops).filter p := by
    simp only [about, List.filter_filter, Bool.and_comm]
  rw [hcomm]
  split
  · rename_i h
    refine List.filter_eq_self.2 fun op hop => ?_
    rw [hp op (of_decide_eq_true (List.mem_filter.1 hop).2), h]
  · rename_i h
    refine List.filter_eq_nil_iff.2 fun op hop => ?_
    rw [hp op (of_decide_eq_true (List.mem_filter.1 hop).2)]
    exact h

theorem apply_map {β : Type u} [DecidableEq β] {f : α → β} (hf : ∀ x y, f x = f y → x = y)
    (xs : List α) (op : ArrayOp α) : apply (xs.map f) (op.map f) = (apply xs op).map f := by
  cases op with
  | append x => simp [apply, map]
  | remove x =>
    simp only [apply, map, List.filter_map]
    congr 1
    refine List.filter_congr fun y _ => ?_
    by_cases h : y = x
    · simp [h]
    · have hne : f y ≠ f x := fun e => h (hf y x e)
      simp [h, hne]

/-- Updates on the images of the elements are the images of the updates. -/
theorem run_map {β : Type u} [DecidableEq β] {f : α → β} (hf : ∀ x y, f x = f y → x = y)
    (ops : List (ArrayOp α)) (xs : List α) :
    run (xs.map f) (ops.map (map f)) = (run xs ops).map f := by
  induction ops generalizing xs with
  | nil => rfl
  | cons op ops ih =>
    have hcons : run (xs.map f) ((op :: ops).map (map f)) =
        run (apply (xs.map f) (op.map f)) (ops.map (map f)) := rfl
    rw [hcons, apply_map hf, ih]
    rfl

/-- **Last update wins.** -/
theorem mem_run_nil (x : α) (ops : List (ArrayOp α)) :
    x ∈ run [] ops ↔ (about x ops).getLast? = some (.append x) := by
  rw [← List.count_pos_iff, count_run, List.count_nil]
  rcases List.eq_nil_or_concat (about x ops) with h | ⟨pre, op, h⟩
  · rw [h]; simp [multiplicity]
  · rw [List.concat_eq_append] at h
    have hlast : (about x ops).getLast? = some op := by rw [h]; simp
    have hop := element_of_getLast? hlast
    rw [h, multiplicity_snoc, List.getLast?_concat, Option.some.injEq]
    subst hop
    cases op with
    | append y => simp [element]
    | remove y => simp

end ArrayOp
end Explorer
