import Explorer.Core.Fold

/-!
# Hexadecimal texts

Two lower-case digits for each byte, and their reading.

* `decode_encode`: the text of a byte string is read back.
-/
namespace Explorer.Hex

def byteDigits (byte : UInt8) : List Char :=
  [Nat.digitChar (byte.toNat / 16), Nat.digitChar (byte.toNat % 16)]

def digits (bytes : List UInt8) : List Char := bytes.flatMap byteDigits

def encode (bytes : List UInt8) : String := String.ofList (digits bytes)

/-- The value of a digit. -/
def value (c : Char) : Option Nat := (List.range 16).find? fun n => Nat.digitChar n = c

def decode : List Char → Option (List UInt8)
  | [] => some []
  | high :: low :: rest => do
    let h ← value high
    let l ← value low
    let bytes ← decode rest
    some (UInt8.ofNat (16 * h + l) :: bytes)
  | [_] => none

theorem value_digitChar {n : Nat} (h : n < 16) : value (Nat.digitChar n) = some n := by
  have hall : (List.range 16).all fun n => value (Nat.digitChar n) = some n := by decide
  exact of_decide_eq_true (List.all_eq_true.1 hall n (List.mem_range.2 h))

theorem byte_halves (byte : UInt8) : UInt8.ofNat (16 * (byte.toNat / 16) + byte.toNat % 16) = byte := by
  have hsum : 16 * (byte.toNat / 16) + byte.toNat % 16 = byte.toNat := by omega
  rw [hsum, UInt8.ofNat_toNat]

theorem decode_digits (bytes : List UInt8) : decode (digits bytes) = some bytes := by
  induction bytes with
  | nil => rfl
  | cons byte bytes ih =>
    have hlt := byte.toNat_lt
    have hhigh := value_digitChar (n := byte.toNat / 16) (by omega)
    have hlow := value_digitChar (n := byte.toNat % 16) (by omega)
    have hdigits : digits (byte :: bytes) =
        Nat.digitChar (byte.toNat / 16) :: Nat.digitChar (byte.toNat % 16) :: digits bytes := rfl
    rw [hdigits, decode, hhigh, hlow, ih]
    simp only [Option.bind_eq_bind, Option.bind_some, byte_halves]

/-- **The text of a byte string is read back.** -/
theorem decode_encode (bytes : List UInt8) : decode (encode bytes).toList = some bytes := by
  rw [encode, String.toList_ofList, decode_digits]

theorem digits_eq_nil {bytes : List UInt8} : digits bytes = [] ↔ bytes = [] := by
  cases bytes with
  | nil => simp [digits]
  | cons byte bytes => simp [digits, byteDigits]

theorem encode_eq_empty {bytes : List UInt8} : encode bytes = "" ↔ bytes = [] := by
  rw [encode, ← String.toList_inj, String.toList_ofList]
  exact digits_eq_nil

/-- A separator is no digit. -/
theorem not_mem_digits {c : Char} (hc : value c = none) (bytes : List UInt8) : c ∉ digits bytes := by
  intro hmem
  obtain ⟨byte, -, hbyte⟩ := List.mem_flatMap.1 hmem
  have hlt := byte.toNat_lt
  have hdigit : ∃ n, n < 16 ∧ c = Nat.digitChar n := by
    rcases List.mem_cons.1 hbyte with h | h
    · exact ⟨_, by omega, h⟩
    · exact ⟨_, by omega, List.mem_singleton.1 h⟩
  obtain ⟨n, hn, rfl⟩ := hdigit
  rw [value_digitChar hn] at hc
  cases hc

end Explorer.Hex
