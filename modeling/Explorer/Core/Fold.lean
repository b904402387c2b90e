import Mathlib.Data.List.Induction

/-!
# Loops that can fail

A `for` loop with an early error is a `foldlM` into `Except`, an abstract
machine that can refuse a step a `foldlM` into `Option`.

* `bind_eq_ok`: a sequence of statements succeeded.
* `foldlM_induct`: an invariant of a loop, indexed by the turns done.
* `foldlM_append_eq_some`: a machine reads a history in two parts.
* `foldlM_push_eq_some`, `foldlM_last_eq_some`: a loop that collects, one that
  keeps the last match.
* `forall_split_iff`: a condition on each element and those before it.
* `appendNumbered_numbered`: rows appended with the next number are numbered in the
  order in which they were made.
-/
namespace Explorer

universe u v w x

variable {S : Type u} {A : Type v} {B : Type w} {E : Type x}

theorem bind_eq_ok {X Y : Type u} {x : Except E X} {f : X → Except E Y} {y : Y} :
    (x >>= f) = .ok y ↔ ∃ a, x = .ok a ∧ f a = .ok y := by
  cases x with
  | error e => exact ⟨(nomatch ·), fun ⟨_, h, _⟩ => nomatch h⟩
  | ok a => exact ⟨fun h => ⟨a, rfl, h⟩, fun ⟨_, h, hf⟩ => by cases h; exact hf⟩

theorem exists_of_isOk {X : Type u} {x : Except E X} (h : x.isOk = true) : ∃ a, x = .ok a := by
  cases x with
  | error e => cases h
  | ok a => exact ⟨a, rfl⟩

theorem foldlM_concat_eq_some {f : S → A → Option S} {s s' : S} {as : List A} {a : A} :
    (as ++ [a]).foldlM f s = some s' ↔ ∃ s₁, as.foldlM f s = some s₁ ∧ f s₁ a = some s' := by
  rw [List.foldlM_append]
  simp [Option.bind_eq_some_iff]

theorem foldlM_append_eq_some {f : S → A → Option S} {s s' : S} {as bs : List A} :
    (as ++ bs).foldlM f s = some s' ↔ ∃ s₁, as.foldlM f s = some s₁ ∧ bs.foldlM f s₁ = some s' := by
  rw [List.foldlM_append]
  simp [Option.bind_eq_some_iff]

/-- **Loop invariant.** `P done s`: what holds when the turns for `done` have
succeeded and led to `s`. -/
theorem foldlM_induct {f : S → A → Except E S} {s₀ : S} {P : List A → S → Prop} (nil : P [] s₀)
    (turn : ∀ done a s s', P done s → f s a = .ok s' → P (done ++ [a]) s') :
    ∀ {as : List A} {s : S}, as.foldlM f s₀ = .ok s → P as s := by
  intro as
  induction as using List.reverseRecOn with
  | nil => intro s hs; cases hs; exact nil
  | append_singleton as a ih =>
    intro s hs
    rw [List.foldlM_append, bind_eq_ok] at hs
    obtain ⟨s₁, h₁, h₂⟩ := hs
    rw [List.foldlM_cons, bind_eq_ok] at h₂
    obtain ⟨s₂, h₂, h₃⟩ := h₂
    cases h₃
    exact turn as a s₁ _ (ih h₁) h₂

/-- A loop that pushes one result for each element that is selected. -/
theorem foldlM_push_eq_some {p : A → Bool} {f : A → Option B} {as : List A} {acc acc' : List B} :
    as.foldlM (fun acc a => if p a then (f a).map fun b => acc ++ [b] else some acc) acc = some acc' ↔
      ∃ bs, acc' = acc ++ bs ∧ (as.filter p).map f = bs.map some := by
  induction as generalizing acc with
  | nil =>
    rw [List.foldlM_nil, List.filter_nil, Option.pure_def, Option.some.injEq]
    constructor
    · rintro rfl
      exact ⟨[], (List.append_nil acc).symm, rfl⟩
    · rintro ⟨bs, rfl, hbs⟩
      rw [List.map_eq_nil_iff.1 hbs.symm, List.append_nil]
  | cons a as ih =>
    rw [List.foldlM_cons, List.filter_cons]
    by_cases ha : p a
    · simp only [ha, if_true, Option.bind_eq_bind, Option.bind_eq_some_iff, Option.map_eq_some_iff]
      constructor
      · rintro ⟨_, ⟨b, hb, rfl⟩, hrest⟩
        obtain ⟨bs, rfl, hbs⟩ := ih.1 hrest
        exact ⟨b :: bs, by simp, by simp [hb, hbs]⟩
      · rintro ⟨bs, rfl, hbs⟩
        obtain ⟨b, bs, rfl, hb, hbs⟩ := List.map_eq_cons_iff.1 hbs.symm
        exact ⟨_, ⟨b, hb.symm, rfl⟩, ih.2 ⟨bs, by simp, hbs.symm⟩⟩
    · simpa [ha] using ih

theorem mapM_eq_some_iff {f : A → Option B} {as : List A} {bs : List B} :
    as.mapM f = some bs ↔ as.map f = bs.map some := by
  induction as generalizing bs with
  | nil => cases bs <;> simp
  | cons a as ih =>
    rw [List.mapM_cons]
    simp only [Option.bind_eq_bind, Option.bind_eq_some_iff, Option.pure_def, Option.some.injEq, ih]
    cases bs <;> simp_all

theorem isSome_bind_iff {o : Option A} {f : A → Option B} : (o.bind f).isSome ↔ ∃ a ∈ o, (f a).isSome := by
  cases o <;> simp

/-- `mapM` of a function that answers everywhere. -/
theorem mapM_eq_some {f : A → Option B} {g : A → B} {as : List A} (h : ∀ a ∈ as, f a = some (g a)) :
    as.mapM f = some (as.map g) := by
  induction as with
  | nil => rfl
  | cons a as ih =>
    rw [List.forall_mem_cons] at h
    rw [List.mapM_cons, h.1, ih h.2]
    rfl

/-- Every turn succeeds when each does. -/
theorem exists_map_some_iff {f : A → Option B} {as : List A} :
    (∃ bs : List B, as.map f = bs.map some) ↔ ∀ a ∈ as, (f a).isSome := by
  constructor
  · rintro ⟨bs, hbs⟩ a ha
    obtain ⟨b, -, hb⟩ := List.mem_map.1 (hbs ▸ List.mem_map_of_mem (f := f) ha)
    rw [← hb]
    rfl
  · intro h
    induction as with
    | nil => exact ⟨[], rfl⟩
    | cons a as ih =>
      obtain ⟨b, hb⟩ := Option.isSome_iff_exists.1 (h a List.mem_cons_self)
      obtain ⟨bs, hbs⟩ := ih fun x hx => h x (List.mem_cons_of_mem a hx)
      exact ⟨b :: bs, by rw [List.map_cons, List.map_cons, hb, hbs]⟩

theorem isSome_mapM_iff {f : A → Option B} {as : List A} : (as.mapM f).isSome ↔ ∀ a ∈ as, (f a).isSome := by
  rw [Option.isSome_iff_exists, ← exists_map_some_iff]
  simp only [mapM_eq_some_iff]

/-- A loop that keeps the value of the last match. -/
theorem foldlM_last_eq_some {p : A → Bool} {f : A → Option B} {as : List A} {kept kept' : Option B} :
    as.foldlM (fun kept a => if p a then (f a).map some else some kept) kept = some kept' ↔
      (∀ a ∈ as.filter p, (f a).isSome) ∧ kept' = ((as.filter p).getLast?.bind f).or kept := by
  induction as using List.reverseRecOn generalizing kept' with
  | nil => simp [eq_comm (a := kept)]
  | append_singleton as a ih =>
    rw [foldlM_concat_eq_some, List.filter_append]
    by_cases ha : p a
    · have hlast : (as.filter p ++ [a].filter p).getLast? = some a := by simp [ha]
      rw [hlast]
      cases hf : f a with
      | none =>
        have hmem : a ∈ as.filter p ++ [a].filter p := by simp [ha]
        simp only [ha, if_true, Option.map_none, reduceCtorEq, and_false, exists_false, false_iff]
        rintro ⟨hall, -⟩
        exact absurd (hall a hmem) (by simp [hf])
      | some b => simp [ha, hf, ih, or_imp, forall_and, eq_comm (a := some b)]
    · simp [ha, ih]

/-- Every element with what stands before it, by position. -/
theorem forall_split_iff {xs : List A} {P : List A → A → Prop} :
    (∀ pre x post, xs = pre ++ x :: post → P pre x) ↔ ∀ i : Fin xs.length, P (xs.take i) xs[i] := by
  constructor
  · intro h i
    exact h (xs.take i) xs[i] (xs.drop (i + 1)) (by simp)
  · rintro h pre x post rfl
    simpa using h ⟨pre.length, by simp⟩

instance decidableSplit {xs : List A} {P : List A → A → Prop} [∀ pre x, Decidable (P pre x)] :
    Decidable (∀ pre x post, xs = pre ++ x :: post → P pre x) :=
  decidable_of_iff _ forall_split_iff.symm

/-! ## Numbering -/

/-- The rows with a new one, made from `x` and the next number. -/
def appendNumbered (mk : Nat → A → B) (rows : List B) : Option A → List B
  | none => rows
  | some x => rows ++ [mk (rows.length + 1) x]

/-- The rows made from `xs`, numbered from 1. -/
def numbered (mk : Nat → A → B) (xs : List A) : List B := xs.mapIdx fun i x => mk (i + 1) x

theorem appendNumbered_numbered (mk : Nat → A → B) (xs : List A) (x : Option A) :
    appendNumbered mk (numbered mk xs) x = numbered mk (xs ++ x.toList) := by
  cases x with
  | none => simp [appendNumbered]
  | some x => simp [appendNumbered, numbered, List.mapIdx_concat]

theorem map_numbered {C : Type u} (mk : Nat → A → B) (f : B → C) (g : A → C)
    (h : ∀ i x, f (mk i x) = g x) (xs : List A) : (numbered mk xs).map f = xs.map g := by
  refine List.ext_getElem (by simp [numbered]) fun i hi hi' => ?_
  simp [numbered, h]

/-- The numbers are `1, 2, …`. -/
theorem numbered_index (mk : Nat → A → B) (index : B → Nat) (h : ∀ i x, index (mk i x) = i)
    (xs : List A) :
    (numbered mk xs).map index = List.range' 1 (numbered mk xs).length := by
  refine List.ext_getElem (by simp) fun i hi hi' => ?_
  simp [numbered, h, Nat.add_comm]

theorem length_numbered (mk : Nat → A → B) (xs : List A) : (numbered mk xs).length = xs.length := by
  simp [numbered]

end Explorer
