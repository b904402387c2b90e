/-!
# `JSON.stringify` and `JSON.parse` on strings and integers

The text `JSON.stringify` writes for a string and for a natural number, and
readers that take such a text off the front of a character list. A reader
that undoes a writer whatever text follows (`Reads`) can be put behind
another one, so that a format made of several parts is read back part by
part, and two values with one text are equal.

* `reads_quoted`: a quoted string is read back, escapes included.
* `reads_digits`: so is a number, when no digit follows.
-/
namespace Explorer.Json

abbrev Reader (α : Type) := List Char → Option (α × List Char)

/-- `read` takes exactly `text` off the front, and finds `x`, whenever the
rest of the input meets `P`. -/
def Reads {α : Type} (P : List Char → Prop) (read : Reader α) (text : List Char) (x : α) : Prop :=
  ∀ u, P u → read (text ++ u) = some (x, u)

/-- No condition on the rest of the input. -/
def anything (_ : List Char) : Prop := True

/-- Read `text` itself. -/
def expect : List Char → Reader Unit
  | [], u => some ((), u)
  | _ :: _, [] => none
  | c :: text, d :: u => if c = d then expect text u else none

theorem reads_expect (text : List Char) : Reads anything (expect text) text () := by
  intro u _
  induction text with
  | nil => rfl
  | cons c text ih => simpa [expect] using ih

/-! ## Strings -/

def quote : Char := Char.ofNat 34
def backslash : Char := Char.ofNat 92

/-- The characters with an escape of two characters, and its second one. -/
def escapes : List (Char × Char) :=
  [(Char.ofNat 8, 'b'), (Char.ofNat 9, 't'), (Char.ofNat 10, 'n'), (Char.ofNat 12, 'f'),
    (Char.ofNat 13, 'r'), (quote, quote), (backslash, backslash)]

def unescapes : List (Char × Char) := escapes.map Prod.swap

/-- `QuoteJSONString` on one character; the other control characters are
written with four hexadecimal digits. -/
def escape (c : Char) : List Char :=
  match escapes.lookup c with
  | some e => [backslash, e]
  | none =>
    if c.toNat < 32 then
      [backslash, 'u', '0', '0', Nat.digitChar (c.toNat / 16), Nat.digitChar (c.toNat % 16)]
    else [c]

def quoted (s : String) : List Char := quote :: (s.toList.flatMap escape ++ [quote])

def hexValue (c : Char) : Nat := if c.isDigit then c.toNat - 48 else c.toNat - 87

/-- The characters of a string up to its closing quote. -/
def readChars : Reader (List Char)
  | [] => none
  | c :: u =>
    if c = quote then some ([], u)
    else if c = backslash then
      match u with
      | [] => none
      | e :: v =>
        match unescapes.lookup e with
        | some d => (readChars v).map fun (s, w) => (d :: s, w)
        | none =>
          match v with
          | _ :: _ :: a :: b :: w =>
            (readChars w).map fun (s, x) => (Char.ofNat (16 * hexValue a + hexValue b) :: s, x)
          | _ => none
    else (readChars u).map fun (s, v) => (c :: s, v)

def readString : Reader String
  | [] => none
  | c :: u => if c = quote then (readChars u).map fun (s, v) => (String.ofList s, v) else none

theorem unescape_escape : ∀ p ∈ escapes, unescapes.lookup p.2 = some p.1 := by decide

theorem hexValue_digitChar : ∀ n < 16, hexValue (Nat.digitChar n) = n := by decide

theorem ne_of_lookup_none {c : Char} (h : escapes.lookup c = none) : c ≠ quote ∧ c ≠ backslash := by
  constructor <;> (rintro rfl; revert h; decide)

theorem mem_of_lookup {c e : Char} : ∀ {l : List (Char × Char)}, l.lookup c = some e → (c, e) ∈ l
  | [], h => nomatch h
  | (a, b) :: l, h => by
    rw [List.lookup_cons] at h
    split at h
    · rename_i hc
      rw [eq_of_beq hc, Option.some.inj h]
      exact List.mem_cons_self
    · exact List.mem_cons_of_mem _ (mem_of_lookup h)

theorem readChars_quote (u : List Char) : readChars (quote :: u) = some ([], u) := by
  unfold readChars
  rw [if_pos rfl]

theorem readChars_plain {c : Char} (hq : c ≠ quote) (hb : c ≠ backslash) (u : List Char) :
    readChars (c :: u) = (readChars u).map fun (s, v) => (c :: s, v) := by
  rw [readChars.eq_def]
  simp only [if_neg hq, if_neg hb]

theorem readChars_short {d e : Char} (h : unescapes.lookup e = some d) (u : List Char) :
    readChars (backslash :: e :: u) = (readChars u).map fun (s, v) => (d :: s, v) := by
  have hback : ¬ backslash = quote := by decide
  rw [readChars.eq_def]
  simp only [if_neg hback, if_true, h]

theorem readChars_hex (x y a b : Char) (u : List Char) :
    readChars (backslash :: 'u' :: x :: y :: a :: b :: u) =
      (readChars u).map fun (s, v) => (Char.ofNat (16 * hexValue a + hexValue b) :: s, v) := by
  have hback : ¬ backslash = quote := by decide
  have hu : unescapes.lookup 'u' = none := by decide
  rw [readChars.eq_def]
  simp only [if_neg hback, if_true, hu]

theorem readChars_escape (c : Char) (u : List Char) :
    readChars (escape c ++ u) = (readChars u).map fun (s, v) => (c :: s, v) := by
  unfold escape
  split
  · rename_i e he
    exact readChars_short (unescape_escape _ (mem_of_lookup he)) u
  · rename_i he
    obtain ⟨hq, hb⟩ := ne_of_lookup_none he
    split
    · rename_i hlt
      have hval : 16 * hexValue (Nat.digitChar (c.toNat / 16)) +
          hexValue (Nat.digitChar (c.toNat % 16)) = c.toNat := by
        rw [hexValue_digitChar _ (by omega), hexValue_digitChar _ (by omega)]
        omega
      have hread := readChars_hex '0' '0' (Nat.digitChar (c.toNat / 16))
        (Nat.digitChar (c.toNat % 16)) u
      rwa [hval, Char.ofNat_toNat] at hread
    · exact readChars_plain hq hb u

theorem readChars_flatMap_escape (s u : List Char) :
    readChars (s.flatMap escape ++ quote :: u) = some (s, u) := by
  induction s with
  | nil => exact readChars_quote u
  | cons c s ih => rw [List.flatMap_cons, List.append_assoc, readChars_escape, ih]; rfl

theorem reads_quoted (s : String) : Reads anything readString (quoted s) s := by
  intro u _
  have hq : quoted s ++ u = quote :: (s.toList.flatMap escape ++ quote :: u) := by simp [quoted]
  rw [hq, readString, if_pos rfl, readChars_flatMap_escape]
  simp

/-! ## Integers -/

def digits (n : Nat) : List Char := Nat.toDigits 10 n

def readDigits : Reader Nat := fun u =>
  some (Nat.ofDigitChars 10 (u.takeWhile Char.isDigit) 0, u.dropWhile Char.isDigit)

/-- The rest of the input does not start with a digit. -/
def noDigit (u : List Char) : Prop := u.takeWhile Char.isDigit = []

theorem reads_digits (n : Nat) : Reads noDigit readDigits (digits n) n := by
  intro u hu
  have hd : ∀ c ∈ digits n, c.isDigit := fun c hc =>
    Nat.isDigit_of_mem_toDigits (by decide) (by decide) hc
  have hdrop : u.dropWhile Char.isDigit = u := by
    have := List.takeWhile_append_dropWhile (p := Char.isDigit) (l := u)
    rwa [hu, List.nil_append] at this
  rw [readDigits, List.takeWhile_append_of_pos hd, List.dropWhile_append_of_pos hd, hu, hdrop,
    List.append_nil, digits, Nat.ofDigitChars_ten_toDigits]

end Explorer.Json
