/-!
# Answers and their declared types

Output types in the manner of GraphQL, the values that resolvers yield for
them, and which values fit a type. An object in a value is asked in turn, so
what a request can meet are the objects reached from the root through answers
(`Met`).

* `Fits.of_within`: a property that the objects of a fitting value have.
* `Met.invariant`: a property that the answers keep holds of all objects met.
* `Value.objects`: the objects in a value, as a list.
-/
namespace Explorer.Schema

universe u v

/-- `!` is `nonNull`, `[…]` is `list`; `T` names the object types. -/
inductive OutType (T : Type u) where
  | int
  | string
  | object (type : T)
  | list (item : OutType T)
  | nonNull (type : OutType T)
  deriving DecidableEq, Repr

/-- `[item!]!` -/
def OutType.nonNullList {T : Type u} (item : OutType T) : OutType T := .nonNull (.list (.nonNull item))

/-- `null` is also `undefined`, `other` any value that fits no type. -/
inductive Value (O : Type v) where
  | null
  | int (n : Int)
  | text (s : String)
  | object (o : O)
  | list (items : List (Value O))
  | other (name : String)

variable {T : Type u} {O : Type v}

def Value.ofOption (value : Option (Value O)) : Value O := value.getD .null

def Value.ofText (s : Option String) : Value O := .ofOption (s.map .text)

/-- The value has the declared type, and its objects have the property `P`. -/
def Fits (typeOf : O → T) (P : O → Prop) : OutType T → Value O → Prop
  | .nonNull _, .null => False
  | .nonNull type, value => Fits typeOf P type value
  | _, .null => True
  | .int, .int _ => True
  | .string, .text _ => True
  | .object type, .object o => typeOf o = type ∧ P o
  | .list type, .list items => ∀ item ∈ items, Fits typeOf P type item
  | _, _ => False

/-- `o` is the value or in it. -/
inductive Within (o : O) : Value O → Prop where
  | object : Within o (.object o)
  | item {item : Value O} {items : List (Value O)} : item ∈ items → Within o item → Within o (.list items)

/-! ## Values that fit -/

section
variable {typeOf : O → T} {P Q : O → Prop} {type : OutType T} {value : Value O}

theorem fits_nonNull : Fits typeOf P (.nonNull type) value ↔ value ≠ .null ∧ Fits typeOf P type value := by
  cases value <;> simp [Fits]

theorem fits_int (n : Int) : Fits typeOf P (.nonNull .int) (.int n) := trivial

theorem fits_text (s : String) : Fits typeOf P (.nonNull .string) (.text s) := trivial

theorem fits_ofText {s : Option String} (h : s.isSome = true) :
    Fits typeOf P (.nonNull .string) (.ofText s) := by
  obtain ⟨s, rfl⟩ := Option.isSome_iff_exists.1 h
  exact fits_text s

theorem fits_object {t : T} {o : O} (ht : typeOf o = t) (ho : P o) :
    Fits typeOf P (.nonNull (.object t)) (.object o) := ⟨ht, ho⟩

theorem fits_map {A : Type v} {f : A → Value O} {as : List A}
    (h : ∀ a ∈ as, Fits typeOf P (.nonNull type) (f a)) :
    Fits typeOf P (.nonNullList type) (.list (as.map f)) := by
  intro item hitem
  obtain ⟨a, ha, rfl⟩ := List.mem_map.1 hitem
  exact h a ha

/-- A value found or null, for a type without `!`. -/
theorem fits_ofOption {t : T} {v : Option (Value O)}
    (h : ∀ x, v = some x → ∃ o, x = .object o ∧ typeOf o = t ∧ P o) :
    Fits typeOf P (.object t) (.ofOption v) := by
  cases v with
  | none => trivial
  | some x =>
    obtain ⟨o, rfl, ht, ho⟩ := h x rfl
    exact ⟨ht, ho⟩

theorem Fits.mono (hPQ : ∀ o, P o → Q o) (h : Fits typeOf P type value) : Fits typeOf Q type value := by
  induction type generalizing value with
  | int => cases value <;> trivial
  | string => cases value <;> trivial
  | object t =>
    cases value with
    | object o => exact ⟨h.1, hPQ o h.2⟩
    | _ => trivial
  | list t ih =>
    cases value with
    | list items => exact fun item hitem => ih (h item hitem)
    | _ => trivial
  | nonNull t ih =>
    obtain ⟨hne, h⟩ := fits_nonNull.1 h
    exact fits_nonNull.2 ⟨hne, ih h⟩

theorem Fits.of_within {o : O} (h : Fits typeOf P type value) (ho : Within o value) : P o := by
  induction type generalizing value with
  | int => cases ho <;> cases h
  | string => cases ho <;> cases h
  | object t =>
    cases ho with
    | object => exact h.2
    | item hitem _ => cases h
  | list t ih =>
    cases ho with
    | object => cases h
    | item hitem ho => exact ih (h _ hitem) ho
  | nonNull t ih => exact ih (fits_nonNull.1 h).2 ho

end

/-! ## What a request meets -/

/-- The objects in the answers of objects that are met; `answers o type value`:
a field of `o` that is declared `type` is answered with `value`. -/
inductive Met (answers : O → OutType T → Value O → Prop) (root : O) : O → Prop where
  | root : Met answers root root
  | within {o o' : O} {type : OutType T} {value : Value O} :
      Met answers root o → answers o type value → Within o' value → Met answers root o'

/-- **Invariant.** When every field of an object with the property is answered
with a value that fits and whose objects have it too, all objects met have it. -/
theorem Met.invariant {typeOf : O → T} {P : O → Prop} {answers : O → OutType T → Value O → Prop} {root o : O}
    (hroot : P root) (hkeep : ∀ o type value, P o → answers o type value → Fits typeOf P type value)
    (h : Met answers root o) : P o := by
  induction h with
  | root => exact hroot
  | within _ hans hin ih => exact (hkeep _ _ _ ih hans).of_within hin

/-! ## The objects in a value -/

mutual

def Value.objects : Value O → List O
  | .object o => [o]
  | .list items => objectsOfAll items
  | _ => []

def Value.objectsOfAll : List (Value O) → List O
  | [] => []
  | item :: items => item.objects ++ objectsOfAll items

end

mutual

theorem within_of_mem_objects {o : O} : ∀ value : Value O, o ∈ value.objects → Within o value
  | .object o', h => by
    rw [Value.objects, List.mem_singleton] at h
    exact h ▸ .object
  | .list items, h => by
    rw [Value.objects] at h
    obtain ⟨item, hitem, ho⟩ := within_of_mem_objectsOfAll items h
    exact .item hitem ho
  | .null, h => by simp [Value.objects] at h
  | .int _, h => by simp [Value.objects] at h
  | .text _, h => by simp [Value.objects] at h
  | .other _, h => by simp [Value.objects] at h

theorem within_of_mem_objectsOfAll {o : O} :
    ∀ items : List (Value O), o ∈ Value.objectsOfAll items → ∃ item ∈ items, Within o item
  | [], h => by simp [Value.objectsOfAll] at h
  | item :: items, h => by
    rw [Value.objectsOfAll, List.mem_append] at h
    rcases h with h | h
    · exact ⟨item, List.mem_cons_self, within_of_mem_objects item h⟩
    · obtain ⟨item', hitem, ho⟩ := within_of_mem_objectsOfAll items h
      exact ⟨item', List.mem_cons_of_mem _ hitem, ho⟩

end

end Explorer.Schema
