import Mathlib.Data.List.Nodup
import Mathlib.Data.List.Perm.Basic

/-!
# Executions of async functions and the keys they hold

A process runs many executions at once and resumes one at a time, each to its
next `await` (`Outcome`). An execution that must not run twice for one key
keeps the key in a list while it runs:
`if (held.includes(key)) return; held.push(key); …;
held.splice(held.indexOf(key), 1)`.

* `Guarded held running`: the keys of the running executions are pairwise
  different and all held. It is kept when an execution starts, finishes, or
  dies without releasing its key.
* `Exactly held running`: the keys held are those of the running executions,
  each once. It is kept when an execution starts or finishes, and broken when
  one dies without releasing its key.
* `eraseIdx_perm`: the executions as one of them and the others.
-/
namespace Explorer

/-- How a resumed execution goes on: to its next `await`, or it is over. -/
inductive Outcome (P R : Type) where
  | await (p : P)
  | done (r : R)
  | thrown
  deriving DecidableEq, Repr

/-- The execution, if it goes on. -/
def Outcome.execs {P R : Type} : Outcome P R → List P
  | .await p => [p]
  | _ => []

theorem Outcome.mem_execs {P R : Type} {o : Outcome P R} {p : P} : p ∈ o.execs ↔ o = .await p := by
  cases o <;> simp [execs, eq_comm]

theorem eraseIdx_perm {T : Type} {tasks : List T} {i : Nat} {t : T} (h : tasks[i]? = some t) :
    tasks.Perm (t :: tasks.eraseIdx i) := by
  obtain ⟨hi, rfl⟩ := List.getElem?_eq_some_iff.1 h
  exact (List.getElem_cons_eraseIdx_perm hi).symm

variable {α : Type}

/-- `held.splice(held.indexOf(key), 1)`. For a key that is not held the index
is `-1`, which counts from the end. -/
def release [DecidableEq α] (held : List α) (key : α) : List α :=
  if key ∈ held then held.erase key else held.dropLast

structure Guarded (held running : List α) : Prop where
  nodup_held : held.Nodup
  nodup_running : running.Nodup
  sub : ∀ key ∈ running, key ∈ held

theorem Guarded.nil : Guarded ([] : List α) [] := ⟨List.nodup_nil, List.nodup_nil, by simp⟩

theorem Guarded.perm {held running running' : List α} (h : Guarded held running)
    (hp : running.Perm running') : Guarded held running' :=
  ⟨h.nodup_held, hp.nodup_iff.1 h.nodup_running, fun x hx => h.sub x (hp.mem_iff.2 hx)⟩

theorem Guarded.start {held running : List α} {key : α} (h : Guarded held running)
    (hkey : key ∉ held) : Guarded (held ++ [key]) (key :: running) := by
  refine ⟨?_, List.nodup_cons.2 ⟨fun hmem => hkey (h.sub key hmem), h.nodup_running⟩, ?_⟩
  · rw [← List.concat_eq_append]
    exact .concat hkey h.nodup_held
  · intro x hx
    rcases List.mem_cons.1 hx with rfl | hx
    · simp
    · exact List.mem_append_left _ (h.sub x hx)

/-- The key stays held, so that the execution is not started again. -/
theorem Guarded.lost {held running : List α} {key : α} (h : Guarded held (key :: running)) :
    Guarded held running :=
  ⟨h.nodup_held, (List.nodup_cons.1 h.nodup_running).2, fun x hx => h.sub x (List.mem_cons_of_mem _ hx)⟩

theorem Guarded.mem_release [DecidableEq α] {held running : List α} {key x : α}
    (h : Guarded held (key :: running)) : x ∈ release held key ↔ x ≠ key ∧ x ∈ held := by
  rw [release, if_pos (h.sub key (List.mem_cons_self ..)), h.nodup_held.mem_erase_iff]

theorem Guarded.finish [DecidableEq α] {held running : List α} {key : α}
    (h : Guarded held (key :: running)) : Guarded (release held key) running := by
  obtain ⟨hkey, hrun⟩ := List.nodup_cons.1 h.nodup_running
  refine ⟨?_, hrun, fun x hx => ?_⟩
  · rw [release, if_pos (h.sub key (List.mem_cons_self ..))]
    exact h.nodup_held.erase key
  · rw [h.mem_release]
    refine ⟨?_, h.sub x (List.mem_cons_of_mem _ hx)⟩
    rintro rfl
    exact hkey hx

/-! ## Exactly the keys of what is running -/

structure Exactly (held running : List α) : Prop where
  nodup : held.Nodup
  perm : held.Perm running

theorem Exactly.nil : Exactly ([] : List α) [] := ⟨List.nodup_nil, List.Perm.refl _⟩

theorem Exactly.congr {held running running' : List α} (h : Exactly held running)
    (hp : running.Perm running') : Exactly held running' := ⟨h.nodup, h.perm.trans hp⟩

theorem Exactly.start {held running : List α} {key : α} (h : Exactly held running)
    (hkey : key ∉ held) : Exactly (held ++ [key]) (key :: running) := by
  refine ⟨?_, List.perm_append_comm.trans (h.perm.cons key)⟩
  rw [← List.concat_eq_append]
  exact .concat hkey h.nodup

theorem Exactly.finish [DecidableEq α] {held running : List α} {key : α}
    (h : Exactly held (key :: running)) : Exactly (release held key) running := by
  rw [release, if_pos (h.perm.mem_iff.2 (List.mem_cons_self ..))]
  refine ⟨h.nodup.erase key, ?_⟩
  simpa using h.perm.erase key

/-- Keys that nothing running holds are never given back. -/
theorem Exactly.lost_iff {held lost running : List α} (h : Exactly held (lost ++ running)) :
    Exactly held running ↔ lost = [] := by
  constructor
  · intro h'
    have hlen := h.perm.length_eq.symm.trans h'.perm.length_eq
    rw [List.length_append] at hlen
    exact List.length_eq_zero_iff.1 (by omega)
  · rintro rfl
    exact h

end Explorer
