import Explorer.Core.Json

/-!
# Granted permissions as JSON text

The column `account.permissions_granted` is an array of JSON values; Postgres
keeps the text of a `JSON` value, and `ARRAY_REMOVE` on the `TEXT[]` cast
compares these texts. `stringify` is the text `applyBlock` writes, `parse`
what the driver reads back from it.

* `parse_stringify`: reading undoes writing; so equal texts are equal
  permissions (`stringify_injective`).
-/
namespace Explorer.Iroha

open Json

/-- `by` is null when the transaction has no creator.
mirrors iroha/src/iroha-db.ts:60-64 -/
structure PermissionGranted where
  «by» : Option String
  «to» : String
  permission : Nat
  deriving DecidableEq, Repr

namespace PermissionGranted

/-- A member of an object up to its value; `sep` is the brace or the comma
before it. -/
def key (sep : Char) (name : String) : List Char := sep :: (quoted name ++ [':'])

def openBrace : Char := Char.ofNat 123
def closeBrace : Char := Char.ofNat 125

def nullable : Option String → List Char
  | none => ['n', 'u', 'l', 'l']
  | some s => quoted s

/-- `JSON.stringify(permissionGranted)`.
mirrors iroha/src/iroha-db.ts:232-241 -/
def stringify (p : PermissionGranted) : String :=
  String.ofList (key openBrace "by" ++ (nullable p.by ++ (key ',' "to" ++ (quoted p.to ++
    (key ',' "permission" ++ (digits p.permission ++ [closeBrace]))))))

def readNullable : Reader (Option String) := fun u =>
  match expect ['n', 'u', 'l', 'l'] u with
  | some (_, v) => some (none, v)
  | none => (readString u).map fun (s, v) => (some s, v)

def parse (text : String) : Option PermissionGranted := do
  let (_, u) ← expect (key openBrace "by") text.toList
  let (granter, u) ← readNullable u
  let (_, u) ← expect (key ',' "to") u
  let (grantee, u) ← readString u
  let (_, u) ← expect (key ',' "permission") u
  let (permission, u) ← readDigits u
  let (_, u) ← expect [closeBrace] u
  if u = [] then some ⟨granter, grantee, permission⟩ else none

theorem reads_nullable (s : Option String) : Reads anything readNullable (nullable s) s := by
  intro u _
  cases s with
  | none => simp only [readNullable, nullable, reads_expect _ u trivial]
  | some s =>
    have hno : expect ['n', 'u', 'l', 'l'] (quoted s ++ u) = none := by
      have hq : ¬ 'n' = quote := by decide
      simp [quoted, expect, hq]
    simp only [readNullable, nullable, hno, reads_quoted s u trivial, Option.map_some]

theorem parse_stringify (p : PermissionGranted) : parse p.stringify = some p := by
  have hlast := reads_expect [closeBrace] [] trivial
  rw [List.append_nil] at hlast
  have hdigit : noDigit [closeBrace] := by unfold noDigit; decide
  unfold parse stringify
  rw [String.toList_ofList]
  simp only [reads_expect _ _ trivial, Option.bind_eq_bind, Option.bind_some,
    reads_nullable _ _ trivial, reads_quoted _ _ trivial, reads_digits _ _ hdigit, hlast, if_true]

theorem stringify_injective {p q : PermissionGranted} (h : p.stringify = q.stringify) : p = q := by
  have hp := parse_stringify p
  rw [h, parse_stringify] at hp
  exact (Option.some.inj hp).symm

end PermissionGranted
end Explorer.Iroha
