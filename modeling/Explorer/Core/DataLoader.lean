import Mathlib.Data.List.Perm.Basic
import Mathlib.Data.List.Nodup

/-!
# A package of loaders that batch and cache

A loader collects the keys it is asked for until its batch function is called
with all of them, and keeps the promise of every key: a key that was asked for
before is not queued again, whatever its promise was settled with. The keys of
a batch that fails are forgotten.

The package is a parameter. `Package` has its operations and what shows of a
loader, `Documented` what its documentation says of them.

* `Inv`: a key that waits waits once, and is not settled. Every operation of a
  documented package keeps it.
* `memo`: a package that is documented.
-/
namespace Explorer.DataLoader

universe u v

structure Package (K : Type u) (V : Type v) where
  Loader : Type (max u v)
  fresh : Loader
  load : Loader → K → Loader
  /-- The batch function is called with the keys that are queued. -/
  dispatch : Loader → Loader
  /-- Call `i` of the batch function returns a list of values. -/
  resolve : Loader → Nat → List V → Loader
  /-- Call `i` of the batch function fails. -/
  reject : Loader → Nat → Loader
  /-- The cache has a promise for the key. -/
  Cached : Loader → K → Prop
  queue : Loader → List K
  /-- The calls of the batch function that have not returned. -/
  batches : Loader → List (List K)
  /-- What the promise of the key was settled with. -/
  value : Loader → K → Option V

variable {K : Type u} {V : Type v}

/-- What is so of a loader before anything is loaded. -/
structure Empty (P : Package K V) (s : P.Loader) : Prop where
  cached : ∀ key, ¬ P.Cached s key
  queue : P.queue s = []
  batches : P.batches s = []
  value : ∀ key, P.value s key = none

/-- **What the package documents**: loads are memoized, all keys of one tick
are passed to one call of the batch function, the value at each position of its
answer is that of the key at the same position, and the keys of a call that
fails are not cached. -/
structure Documented (P : Package K V) : Prop where
  fresh : Empty P P.fresh
  cached_load : ∀ s key k, P.Cached (P.load s key) k ↔ P.Cached s k ∨ k = key
  queue_load_cached : ∀ s key, P.Cached s key → P.queue (P.load s key) = P.queue s
  queue_load : ∀ s key, ¬ P.Cached s key → P.queue (P.load s key) = P.queue s ++ [key]
  batches_load : ∀ s key, P.batches (P.load s key) = P.batches s
  value_load : ∀ s key k, P.value (P.load s key) k = P.value s k
  cached_dispatch : ∀ s k, P.Cached (P.dispatch s) k ↔ P.Cached s k
  queue_dispatch : ∀ s, P.queue (P.dispatch s) = []
  batches_dispatch : ∀ s, P.batches (P.dispatch s) = P.batches s ++ [P.queue s]
  value_dispatch : ∀ s k, P.value (P.dispatch s) k = P.value s k
  cached_resolve : ∀ s i values k, P.Cached (P.resolve s i values) k ↔ P.Cached s k
  queue_resolve : ∀ s i values, P.queue (P.resolve s i values) = P.queue s
  batches_resolve : ∀ s i values, P.batches (P.resolve s i values) = (P.batches s).eraseIdx i
  value_resolve : ∀ s i keys values, (P.batches s)[i]? = some keys → keys.Nodup → values.length = keys.length →
    ∀ (j : Nat) (key : K), keys[j]? = some key → P.value (P.resolve s i values) key = values[j]?
  value_resolve_other : ∀ s i keys values, (P.batches s)[i]? = some keys → values.length = keys.length →
    ∀ key ∉ keys, P.value (P.resolve s i values) key = P.value s key
  cached_reject : ∀ s i keys, (P.batches s)[i]? = some keys →
    ∀ k, P.Cached (P.reject s i) k ↔ P.Cached s k ∧ k ∉ keys
  queue_reject : ∀ s i, P.queue (P.reject s i) = P.queue s
  batches_reject : ∀ s i, P.batches (P.reject s i) = (P.batches s).eraseIdx i
  value_reject : ∀ s i k, P.value (P.reject s i) k = P.value s k

/-! ## What every package keeps -/

/-- The keys that are queued or under way. -/
def waiting (P : Package K V) (s : P.Loader) : List K := P.queue s ++ (P.batches s).flatten

structure Inv (P : Package K V) (s : P.Loader) : Prop where
  nodup : (waiting P s).Nodup
  unsettled : ∀ key ∈ waiting P s, P.value s key = none
  cached : ∀ key, P.Cached s key ↔ key ∈ waiting P s ∨ P.value s key ≠ none

section
variable {P : Package K V} {s : P.Loader}

theorem inv_fresh (hP : Documented P) : Inv P P.fresh := by
  have hwaiting : waiting P P.fresh = [] := by rw [waiting, hP.fresh.queue, hP.fresh.batches]; rfl
  refine ⟨by rw [hwaiting]; exact List.nodup_nil, fun key _ => hP.fresh.value key, fun key => ?_⟩
  refine iff_of_false (hP.fresh.cached key) ?_
  simp [hwaiting, hP.fresh.value key]

/-- The same keys wait, in whatever order, and the same are cached and settled. -/
theorem Inv.of_perm {s' : P.Loader} (h : Inv P s) (hwaiting : (waiting P s').Perm (waiting P s))
    (hcached : ∀ key, P.Cached s' key ↔ P.Cached s key) (hvalue : ∀ key, P.value s' key = P.value s key) :
    Inv P s' := by
  refine ⟨hwaiting.nodup_iff.2 h.nodup, fun key hkey => ?_, fun key => ?_⟩
  · rw [hvalue]
    exact h.unsettled key (hwaiting.mem_iff.1 hkey)
  · rw [hcached, hvalue, hwaiting.mem_iff]
    exact h.cached key

theorem Inv.load (hP : Documented P) (h : Inv P s) (key : K) : Inv P (P.load s key) := by
  by_cases hcached : P.Cached s key
  · refine h.of_perm ?_ (fun k => ?_) (hP.value_load s key)
    · rw [waiting, hP.queue_load_cached s key hcached, hP.batches_load]
      exact List.Perm.refl _
    · rw [hP.cached_load]
      constructor
      · rintro (hk | rfl)
        · exact hk
        · exact hcached
      · exact .inl
  · have hperm : (waiting P (P.load s key)).Perm (key :: waiting P s) := by
      rw [waiting, hP.queue_load s key hcached, hP.batches_load, List.append_assoc]
      exact List.perm_middle
    have hnew := mt (h.cached key).2 hcached
    refine ⟨hperm.nodup_iff.2 (List.nodup_cons.2 ⟨fun hin => hnew (.inl hin), h.nodup⟩), fun k hk => ?_, fun k => ?_⟩
    · rw [hP.value_load]
      rcases List.mem_cons.1 (hperm.mem_iff.1 hk) with rfl | hk
      · exact not_not.1 fun hv => hnew (.inr hv)
      · exact h.unsettled k hk
    · rw [hP.cached_load, hP.value_load, hperm.mem_iff, List.mem_cons, h.cached]
      constructor
      · rintro ((hk | hv) | rfl)
        · exact .inl (.inr hk)
        · exact .inr hv
        · exact .inl (.inl rfl)
      · rintro ((rfl | hk) | hv)
        · exact .inr rfl
        · exact .inl (.inl hk)
        · exact .inl (.inr hv)

theorem Inv.dispatch (hP : Documented P) (h : Inv P s) : Inv P (P.dispatch s) := by
  refine h.of_perm ?_ (hP.cached_dispatch s) (hP.value_dispatch s)
  rw [waiting, waiting, hP.queue_dispatch, hP.batches_dispatch, List.nil_append, List.flatten_append,
    List.flatten_singleton]
  exact List.perm_append_comm

/-- A batch and what waits beside it. -/
theorem waiting_perm {i : Nat} {keys : List K} (hi : (P.batches s)[i]? = some keys) :
    (waiting P s).Perm (keys ++ (P.queue s ++ ((P.batches s).eraseIdx i).flatten)) := by
  obtain ⟨hlt, rfl⟩ := List.getElem?_eq_some_iff.1 hi
  have hflat : (P.batches s).flatten.Perm ((P.batches s)[i] ++ ((P.batches s).eraseIdx i).flatten) := by
    rw [← List.flatten_cons]
    exact (List.getElem_cons_eraseIdx_perm hlt).symm.flatten
  exact (List.Perm.append_left _ hflat).trans (List.perm_append_comm_assoc _ _ _)

theorem Inv.nodup_batch (h : Inv P s) {i : Nat} {keys : List K} (hi : (P.batches s)[i]? = some keys) : keys.Nodup :=
  (List.nodup_append.1 ((waiting_perm hi).nodup_iff.1 h.nodup)).1

theorem Inv.mem_batch (h : Inv P s) {i : Nat} {keys : List K} (hi : (P.batches s)[i]? = some keys) {key : K}
    (hkey : key ∈ keys) : P.Cached s key ∧ P.value s key = none := by
  have hin := (waiting_perm hi).mem_iff.2 (List.mem_append_left _ hkey)
  exact ⟨(h.cached key).2 (.inl hin), h.unsettled key hin⟩

/-- What the keys of a batch are settled with. -/
theorem Inv.value_resolve_map (hP : Documented P) (h : Inv P s) {i : Nat} {keys : List K}
    (hi : (P.batches s)[i]? = some keys) {f : K → V} {key : K} {v : V}
    (hv : P.value (P.resolve s i (keys.map f)) key = some v) : P.value s key = some v ∨ key ∈ keys ∧ v = f key := by
  by_cases hkey : key ∈ keys
  · obtain ⟨j, hj⟩ := List.getElem?_of_mem hkey
    rw [hP.value_resolve s i keys _ hi (h.nodup_batch hi) (List.length_map _) j key hj, List.getElem?_map, hj] at hv
    cases hv
    exact .inr ⟨hkey, rfl⟩
  · rw [hP.value_resolve_other s i keys _ hi (List.length_map _) key hkey] at hv
    exact .inl hv

/-- What was settled stays. -/
theorem Inv.value_resolve_of_value (hP : Documented P) (h : Inv P s) {i : Nat} {keys : List K} {values : List V}
    (hi : (P.batches s)[i]? = some keys) (hlen : values.length = keys.length) {key : K} {v : V}
    (hv : P.value s key = some v) : P.value (P.resolve s i values) key = some v := by
  have hother : key ∉ keys := by
    intro hkey
    rw [(h.mem_batch hi hkey).2] at hv
    cases hv
  rw [hP.value_resolve_other s i keys values hi hlen key hother, hv]

theorem Inv.resolve (hP : Documented P) (h : Inv P s) {i : Nat} {keys : List K} {values : List V}
    (hi : (P.batches s)[i]? = some keys) (hlen : values.length = keys.length) :
    Inv P (P.resolve s i values) := by
  have hperm := waiting_perm hi
  obtain ⟨hkeys, hrest, hdisjoint⟩ := List.nodup_append.1 (hperm.nodup_iff.1 h.nodup)
  have hwaiting : waiting P (P.resolve s i values) = P.queue s ++ ((P.batches s).eraseIdx i).flatten := by
    rw [waiting, hP.queue_resolve, hP.batches_resolve]
  have hother : ∀ key ∉ keys, P.value (P.resolve s i values) key = P.value s key :=
    hP.value_resolve_other s i keys values hi hlen
  refine ⟨by rwa [hwaiting], fun key hkey => ?_, fun key => ?_⟩
  · rw [hwaiting] at hkey
    rw [hother key fun hin => hdisjoint _ hin _ hkey rfl]
    exact h.unsettled key (hperm.mem_iff.2 (List.mem_append_right _ hkey))
  · rw [hP.cached_resolve, h.cached, hperm.mem_iff, List.mem_append, hwaiting]
    by_cases hin : key ∈ keys
    · obtain ⟨j, hj⟩ := List.getElem?_of_mem hin
      have hvalue := hP.value_resolve s i keys values hi hkeys hlen j key hj
      have hsome : values[j]? ≠ none := by
        rw [ne_eq, List.getElem?_eq_none_iff, hlen, Nat.not_le]
        exact (List.getElem?_eq_some_iff.1 hj).1
      exact iff_of_true (.inl (.inl hin)) (.inr (hvalue ▸ hsome))
    · rw [hother key hin]
      simp [hin]

theorem Inv.reject (hP : Documented P) (h : Inv P s) {i : Nat} {keys : List K}
    (hi : (P.batches s)[i]? = some keys) : Inv P (P.reject s i) := by
  have hperm := waiting_perm hi
  obtain ⟨-, hrest, hdisjoint⟩ := List.nodup_append.1 (hperm.nodup_iff.1 h.nodup)
  have hwaiting : waiting P (P.reject s i) = P.queue s ++ ((P.batches s).eraseIdx i).flatten := by
    rw [waiting, hP.queue_reject, hP.batches_reject]
  refine ⟨by rwa [hwaiting], fun key hkey => ?_, fun key => ?_⟩
  · rw [hwaiting] at hkey
    rw [hP.value_reject]
    exact h.unsettled key (hperm.mem_iff.2 (List.mem_append_right _ hkey))
  · rw [hP.cached_reject s i keys hi, hP.value_reject, h.cached, hperm.mem_iff, List.mem_append, hwaiting]
    constructor
    · rintro ⟨(hin | hin) | hv, hout⟩
      · exact absurd hin hout
      · exact .inl hin
      · exact .inr hv
    · rintro (hin | hv)
      · exact ⟨.inl (.inr hin), fun hkey => hdisjoint _ hkey _ hin rfl⟩
      · exact ⟨.inr hv, fun hkey => hv (h.mem_batch hi hkey).2⟩

end

/-! ## A package -/

structure St (K : Type u) (V : Type v) where
  asked : List K
  queue : List K
  batches : List (List K)
  settled : List (K × V)

def St.resolve (s : St K V) (i : Nat) (values : List V) : St K V :=
  { s with batches := s.batches.eraseIdx i, settled := (s.batches.getD i []).zip values ++ s.settled }

theorem getD_batches {s : St K V} {i : Nat} {keys : List K} (hi : s.batches[i]? = some keys) :
    s.batches.getD i [] = keys := by
  rw [List.getD_eq_getElem?_getD, hi, Option.getD_some]

section
variable [DecidableEq K]

def St.load (s : St K V) (key : K) : St K V :=
  if key ∈ s.asked then s else { s with asked := s.asked ++ [key], queue := s.queue ++ [key] }

def St.reject (s : St K V) (i : Nat) : St K V :=
  { s with asked := s.asked.filter (· ∉ s.batches.getD i []), batches := s.batches.eraseIdx i }

def St.value (s : St K V) (key : K) : Option V := (s.settled.find? fun x => x.1 = key).map Prod.snd

theorem mem_asked_load (s : St K V) (key k : K) : k ∈ (s.load key).asked ↔ k ∈ s.asked ∨ k = key := by
  unfold St.load
  split
  · rename_i hin
    constructor
    · exact .inl
    · rintro (hk | rfl)
      · exact hk
      · exact hin
  · simp

theorem queue_load (s : St K V) (key : K) :
    (s.load key).queue = if key ∈ s.asked then s.queue else s.queue ++ [key] := by
  unfold St.load
  split <;> rfl

theorem batches_load (s : St K V) (key : K) : (s.load key).batches = s.batches := by
  unfold St.load
  split <;> rfl

theorem value_load (s : St K V) (key k : K) : (s.load key).value k = s.value k := by
  unfold St.load
  split <;> rfl

/-- Each key of a batch, and no other, gets the value at its position. -/
theorem find?_zip {keys : List K} {values : List V} (hkeys : keys.Nodup) {j : Nat} {key : K}
    (hkey : keys[j]? = some key) {v : V} (hv : values[j]? = some v) :
    (keys.zip values).find? (fun x => x.1 = key) = some (key, v) := by
  induction keys generalizing values j with
  | nil => cases hkey
  | cons k keys ih =>
    cases values with
    | nil => cases hv
    | cons w values =>
      obtain ⟨hk, hkeys⟩ := List.nodup_cons.1 hkeys
      cases j with
      | zero =>
        cases hkey
        cases hv
        simp
      | succ j =>
        have hne : k ≠ key := fun h => hk (h ▸ List.mem_of_getElem? hkey)
        simpa [hne] using ih hkeys hkey hv

theorem find?_zip_eq_none {keys : List K} {values : List V} {key : K} (hkey : key ∉ keys) :
    (keys.zip values).find? (fun x => x.1 = key) = none := by
  rw [List.find?_eq_none]
  rintro ⟨k, v⟩ hin heq
  exact hkey (of_decide_eq_true heq ▸ (List.of_mem_zip hin).1)

theorem value_resolve_batch (s : St K V) (i : Nat) (keys : List K) (values : List V)
    (hi : s.batches[i]? = some keys) (hkeys : keys.Nodup) (hlen : values.length = keys.length) (j : Nat) (key : K)
    (hj : keys[j]? = some key) : (s.resolve i values).value key = values[j]? := by
  obtain ⟨v, hv⟩ : ∃ v, values[j]? = some v :=
    ⟨_, List.getElem?_eq_getElem (hlen ▸ (List.getElem?_eq_some_iff.1 hj).1)⟩
  simp only [St.value, St.resolve, getD_batches hi]
  rw [List.find?_append, find?_zip hkeys hj hv, hv]
  rfl

theorem value_resolve_rest (s : St K V) (i : Nat) (keys : List K) (values : List V)
    (hi : s.batches[i]? = some keys) (key : K) (hkey : key ∉ keys) : (s.resolve i values).value key = s.value key := by
  simp only [St.value, St.resolve, getD_batches hi]
  rw [List.find?_append, find?_zip_eq_none hkey]
  rfl

theorem mem_asked_reject (s : St K V) (i : Nat) (keys : List K) (hi : s.batches[i]? = some keys) (k : K) :
    k ∈ (s.reject i).asked ↔ k ∈ s.asked ∧ k ∉ keys := by
  simp only [St.reject, getD_batches hi, List.mem_filter, decide_eq_true_iff]

/-- Its loaders remember what they were asked for. -/
def memo (K : Type u) (V : Type v) [DecidableEq K] : Package K V where
  Loader := St K V
  fresh := ⟨[], [], [], []⟩
  load := St.load
  dispatch s := { s with queue := [], batches := s.batches ++ [s.queue] }
  resolve := St.resolve
  reject := St.reject
  Cached s key := key ∈ s.asked
  queue := St.queue
  batches := St.batches
  value := St.value

theorem documented_memo : Documented (memo K V) where
  fresh := ⟨fun _ => List.not_mem_nil, rfl, rfl, fun _ => rfl⟩
  cached_load := mem_asked_load
  queue_load_cached s key h := (queue_load s key).trans (if_pos h)
  queue_load s key h := (queue_load s key).trans (if_neg h)
  batches_load := batches_load
  value_load := value_load
  cached_dispatch _ _ := Iff.rfl
  queue_dispatch _ := rfl
  batches_dispatch _ := rfl
  value_dispatch _ _ := rfl
  cached_resolve _ _ _ _ := Iff.rfl
  queue_resolve _ _ _ := rfl
  batches_resolve _ _ _ := rfl
  value_resolve := value_resolve_batch
  value_resolve_other s i keys values hi _ := value_resolve_rest s i keys values hi
  cached_reject := mem_asked_reject
  queue_reject _ _ := rfl
  batches_reject _ _ := rfl
  value_reject _ _ _ := rfl

end
end Explorer.DataLoader
