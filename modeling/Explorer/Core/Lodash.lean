import Mathlib.Data.List.Perm.Basic

/-!
# `keyBy` and `get`

`keyBy` makes a plain object with one member for each key; of two items with
one key the last stays. `get` reads the member of a key, and a text that is no
member as a path: the member of its first part, then the members of that
value. A plain object has the members of `Object.prototype` too.

What is a member of a value, and which path a text stands for, are parameters
(`Lodash`); `undefined` and null are `none`.

* `get_member`: a member is found under its own key.
* `get_eq_none_iff`: what else a key can find (`Nothing`).
* `keyBy_eq_some`: the member of a key, when the keys are different.
-/
namespace Explorer

universe u

/-- JavaScript values `V` as `get` sees them. No member of `Object.prototype`
is named by a number. -/
structure Lodash (V : Type u) where
  member : V → String → Option V
  inherited : String → Option V
  toPath : String → List String
  inherited_number : ∀ n : Int, inherited (toString n) = none

namespace Lodash

variable {V : Type u} (J : Lodash V) (object : String → Option V)

/-- `object[key]`, for the object with the given members of its own. -/
def read (key : String) : Option V := (object key).or (J.inherited key)

def follow (v : V) (path : List String) : Option V := path.foldlM J.member v

/-- `get(object, key, null)` with a text. -/
def get (key : String) : Option V :=
  match J.read object key with
  | some v => some v
  | none =>
    match J.toPath key with
    | first :: rest => (J.read object first).bind fun v => J.follow v rest
    | [] => none

/-- `get(object, key, null)` with a number, which is never a path. -/
def getNumber (key : Int) : Option V := J.read object (toString key)

/-- The key names nothing: neither something inherited, nor anything along
its path. -/
def Nothing (key : String) : Prop :=
  J.inherited key = none ∧ ∀ first rest v, J.toPath key = first :: rest →
    J.read object first = some v → J.follow v rest = none

variable {J} {object}

theorem nothing_iff {key : String} : J.Nothing object key ↔ J.inherited key = none ∧
    ∀ first ∈ (J.toPath key).head?, ∀ v ∈ J.read object first, J.follow v (J.toPath key).tail = none := by
  unfold Nothing
  refine and_congr_right fun _ => ?_
  cases J.toPath key with
  | nil => simp
  | cons first rest =>
    constructor
    · intro h first' hfirst v hv
      cases hfirst
      exact h first rest v rfl hv
    · intro h first' rest' v hfirst hv
      cases hfirst
      exact h first rfl v hv

instance (key : String) : Decidable (J.Nothing object key) := decidable_of_iff _ nothing_iff.symm

theorem get_member {key : String} {v : V} (h : object key = some v) : J.get object key = some v := by
  simp only [get, read, h, Option.some_or]

theorem get_eq_none_iff {key : String} (h : object key = none) :
    J.get object key = none ↔ J.Nothing object key := by
  have hread : J.read object key = J.inherited key := by rw [read, h, Option.none_or]
  unfold get Nothing
  rw [hread]
  cases J.inherited key with
  | some v => simp
  | none =>
    cases hpath : J.toPath key with
    | nil => simp
    | cons first rest =>
      simp only [true_and, List.cons.injEq, Option.bind_eq_none_iff]
      constructor
      · rintro hnone first' rest' v ⟨rfl, rfl⟩ hv
        exact hnone v hv
      · intro hall v hv
        exact hall first rest v ⟨rfl, rfl⟩ hv

/-- A text that is its own path names nothing, if nothing inherited. -/
theorem nothing_of_plain {key : String} (h : object key = none) (hinherited : J.inherited key = none)
    (hpath : J.toPath key = [key]) : J.Nothing object key := by
  refine ⟨hinherited, fun first rest v hfirst hread => ?_⟩
  rw [hpath, List.cons.injEq] at hfirst
  obtain ⟨rfl, -⟩ := hfirst
  rw [read, h, hinherited] at hread
  cases hread

theorem getNumber_eq (key : Int) : J.getNumber object key = object (toString key) := by
  rw [getNumber, read, J.inherited_number, Option.or_none]

end Lodash

variable {T : Type u}

/-- The members of `keyBy(items, keyOf)`. -/
def keyBy (keyOf : T → String) (items : List T) (key : String) : Option T :=
  items.reverse.find? fun item => keyOf item = key

theorem keyBy_eq_some {keyOf : T → String} {items : List T} {key : String} {item : T}
    (huniq : ∀ a ∈ items, ∀ b ∈ items, keyOf a = keyOf b → a = b) :
    keyBy keyOf items key = some item ↔ item ∈ items ∧ keyOf item = key := by
  constructor
  · intro h
    exact ⟨List.mem_reverse.1 (List.mem_of_find?_eq_some h), by simpa using List.find?_some h⟩
  · rintro ⟨hitem, hkey⟩
    cases h : keyBy keyOf items key with
    | none =>
      have := List.find?_eq_none.1 h item (List.mem_reverse.2 hitem)
      simp [hkey] at this
    | some other =>
      have hother : other ∈ items := List.mem_reverse.1 (List.mem_of_find?_eq_some h)
      have hkey' : keyOf other = key := by simpa using List.find?_some h
      rw [huniq other hother item hitem (hkey'.trans hkey.symm)]

end Explorer
