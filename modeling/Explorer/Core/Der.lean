import Mathlib.Data.Nat.Digits.Lemmas

/-!
# DER

The part of the distinguished encoding rules that encodes sequences of
unsigned integers and octet strings: a tag, the length of the content in the
shortest form, the content. A length below 128 is one octet; a longer one is
the count of its octets with the high bit set, and the octets. An integer
whose first octet would have the high bit set gets a zero octet in front.

* `readTlv_tlv`: what is encoded is read back, whatever follows it.
* `readInteger_integer`, `readOctetString_octetString`: the two kinds of
  contents.
-/
namespace Explorer.Der

/-- The octets of a number, the most significant one first; none of zero. -/
def octets (n : Nat) : List UInt8 := (Nat.digits 256 n).reverse.map UInt8.ofNat

def value (bytes : List UInt8) : Nat := Nat.ofDigits 256 (bytes.reverse.map UInt8.toNat)

def length (n : Nat) : List UInt8 :=
  if n < 128 then [UInt8.ofNat n] else UInt8.ofNat (128 + (octets n).length) :: octets n

/-- Tag, length, content. -/
def tlv (tag : UInt8) (content : List UInt8) : List UInt8 := tag :: (length content.length ++ content)

def integerContent (n : Nat) : List UInt8 :=
  match octets n with
  | [] => [0]
  | b :: bs => if 128 ≤ b.toNat then 0 :: b :: bs else b :: bs

def integer (n : Nat) : List UInt8 := tlv 0x02 (integerContent n)

def octetString (bytes : List UInt8) : List UInt8 := tlv 0x04 bytes

def sequence (items : List (List UInt8)) : List UInt8 := tlv 0x30 items.flatten

/-! ## Reading -/

def readLength : List UInt8 → Option (Nat × List UInt8)
  | [] => none
  | b :: rest =>
    if b.toNat < 128 then some (b.toNat, rest)
    else if b.toNat - 128 ≤ rest.length then
      some (value (rest.take (b.toNat - 128)), rest.drop (b.toNat - 128))
    else none

/-- The content behind a tag, and what follows it. -/
def readTlv (tag : UInt8) : List UInt8 → Option (List UInt8 × List UInt8)
  | [] => none
  | t :: rest =>
    if t = tag then
      (readLength rest).bind fun (n, rest) =>
        if n ≤ rest.length then some (rest.take n, rest.drop n) else none
    else none

def readInteger (bytes : List UInt8) : Option (Nat × List UInt8) :=
  (readTlv 0x02 bytes).map fun (content, rest) => (value content, rest)

def readOctetString (bytes : List UInt8) : Option (List UInt8 × List UInt8) := readTlv 0x04 bytes

/-! ## Numbers -/

theorem value_octets (n : Nat) : value (octets n) = n := by
  unfold value octets
  rw [← List.map_reverse, List.reverse_reverse, List.map_map]
  have hid : (Nat.digits 256 n).map (UInt8.toNat ∘ UInt8.ofNat) = Nat.digits 256 n := by
    refine (List.map_congr_left fun d hd => ?_).trans (List.map_id _)
    have hlt : d < 256 := Nat.digits_lt_base (by decide) hd
    simp only [Function.comp, UInt8.toNat_ofNat', id]
    exact Nat.mod_eq_of_lt hlt
  rw [hid, Nat.ofDigits_digits]

theorem length_octets_le {n k : Nat} (h : n < 256 ^ k) : (octets n).length ≤ k := by
  unfold octets
  rw [List.length_map, List.length_reverse]
  exact (Nat.digits_length_le_iff (by decide) n).2 h

theorem value_cons_zero (bytes : List UInt8) : value (0 :: bytes) = value bytes := by
  unfold value
  rw [List.reverse_cons, List.map_append, Nat.ofDigits_append]
  simp

theorem value_integerContent (n : Nat) : value (integerContent n) = n := by
  have hn := value_octets n
  unfold integerContent
  split
  · rename_i h
    rw [h] at hn
    rw [value_cons_zero, hn]
  · rename_i b bs h
    rw [h] at hn
    split
    · rw [value_cons_zero, hn]
    · exact hn

theorem length_integerContent_le {n k : Nat} (h : n < 256 ^ k) : (integerContent n).length ≤ k + 1 := by
  have hk := length_octets_le h
  unfold integerContent
  split
  · simp
  · rename_i b bs hb
    rw [hb] at hk
    split
    · simp only [List.length_cons] at hk ⊢
      omega
    · omega

/-! ## Round trips -/

theorem readLength_length {n : Nat} (h : n < 256 ^ 127) (rest : List UInt8) :
    readLength (length n ++ rest) = some (n, rest) := by
  have hlen := length_octets_le h
  unfold length
  split
  · rename_i hn
    have hto : (UInt8.ofNat n).toNat = n := by
      rw [UInt8.toNat_ofNat']
      omega
    simp only [List.cons_append, List.nil_append, readLength, hto, if_pos hn]
  · have hto : (UInt8.ofNat (128 + (octets n).length)).toNat = 128 + (octets n).length := by
      rw [UInt8.toNat_ofNat']
      omega
    have hk : 128 + (octets n).length - 128 = (octets n).length := by omega
    have hlt : ¬ 128 + (octets n).length < 128 := by omega
    simp only [List.cons_append, readLength, hto, hk, if_neg hlt, List.length_append,
      Nat.le_add_right, if_true, List.take_left, List.drop_left, value_octets]

/-- **What is encoded is read back**, whatever follows it. -/
theorem readTlv_tlv {content : List UInt8} (h : content.length < 256 ^ 127) (tag : UInt8)
    (rest : List UInt8) : readTlv tag (tlv tag content ++ rest) = some (content, rest) := by
  unfold tlv
  rw [List.cons_append, List.append_assoc, readTlv, if_pos rfl, readLength_length h, Option.bind_some]
  simp only [List.length_append, Nat.le_add_right, if_true, List.take_left, List.drop_left]

theorem readInteger_integer {n : Nat} (h : n < 256 ^ 126) (rest : List UInt8) :
    readInteger (integer n ++ rest) = some (n, rest) := by
  have hlen := length_integerContent_le h
  unfold readInteger integer
  rw [readTlv_tlv (by omega), Option.map_some]
  simp only [value_integerContent]

theorem readOctetString_octetString (bytes : List UInt8) (h : bytes.length < 256 ^ 127)
    (rest : List UInt8) : readOctetString (octetString bytes ++ rest) = some (bytes, rest) :=
  readTlv_tlv h 0x04 rest

/-! ## Sizes -/

theorem length_length_le {n : Nat} (h : n < 256 ^ 127) : (length n).length ≤ 128 := by
  have hlen := length_octets_le h
  unfold length
  split
  · simp
  · simp only [List.length_cons]
    omega

theorem length_tlv_le (tag : UInt8) (content : List UInt8) (h : content.length < 256 ^ 127) :
    (tlv tag content).length ≤ content.length + 129 := by
  have hlen := length_length_le h
  unfold tlv
  rw [List.length_cons, List.length_append]
  omega

example : integer 128 = [0x02, 0x02, 0x00, 0x80] := by decide +kernel
example : octetString (List.replicate 200 7) = 0x04 :: 0x81 :: 200 :: List.replicate 200 7 := by
  decide +kernel

end Explorer.Der
