import Mathlib.Data.List.Infix
import Explorer.Iroha.Lists

/-!
# The search for accounts

`accountList` puts the text that is searched for between two `%` and escapes
its `_` and `%`, but not its backslashes, which PostgreSQL takes for the
escape character.

* `like_escaped`: without a backslash the text stands for itself.
* `misread`: an id that a text with a backslash finds and that does not
  contain it.
* `account_search_literal_iff`: the texts that find the ids that contain them.
-/
namespace Explorer.Iroha

open Json (backslash)

/-- Case folding as for ASCII. -/
def asciiLower (cs : List Char) : List Char := cs.map Char.toLower

/-- The id of the row contains `id`, ignoring case. -/
def containsIgnoringCase (id : String) (row : AccountRow) : Bool :=
  asciiLower id.toList <:+: asciiLower row.id.toList

/-! ## Characters -/

theorem toLower_eq {c d : Char} (hlower : ¬ ('a'.val ≤ d.val ∧ d.val ≤ 'z'.val))
    (hupper : ¬ ('A'.val ≤ d.val ∧ d.val ≤ 'Z'.val)) : c.toLower = d ↔ c = d := by
  by_cases h : c.val ≥ 'A'.val ∧ c.val ≤ 'Z'.val
  · have hval : c.toLower.val = c.val + ('a'.val - 'A'.val) := by
      delta Char.toLower
      rw [dif_pos h]
    constructor
    · rintro rfl
      refine absurd ?_ hlower
      have h32 : ('a'.val - 'A'.val).toNat = 32 := rfl
      obtain ⟨hA, hZ⟩ := h
      rw [hval]
      simp only [UInt32.le_iff_toNat_le, UInt32.toNat_add, ge_iff_le, h32] at hA hZ ⊢
      have ha : 'a'.val.toNat = 97 := rfl
      have hz : 'z'.val.toNat = 122 := rfl
      have hA' : 'A'.val.toNat = 65 := rfl
      have hZ' : 'Z'.val.toNat = 90 := rfl
      omega
    · rintro rfl
      exact absurd h hupper
  · delta Char.toLower
    rw [dif_neg h]

/-- The characters with a meaning in a pattern have no case. -/
theorem toLower_meta (c : Char) :
    (c.toLower = '%' ↔ c = '%') ∧ (c.toLower = '_' ↔ c = '_') ∧ (c.toLower = backslash ↔ c = backslash) :=
  ⟨toLower_eq (by decide) (by decide), toLower_eq (by decide) (by decide),
    toLower_eq (by decide) (by decide)⟩

/-! ## Patterns -/

/-- A text that begins with `c`, with the rest of it. -/
def startsWith (c : Char) (rest : List Char → Bool) : List Char → Bool
  | [] => false
  | e :: text => c = e && rest text

theorem like_percent (pattern text : List Char) :
    like ('%' :: pattern) text = text.tails.any (like pattern) := by
  delta like
  rfl

theorem like_line (pattern text : List Char) (e : Char) :
    like ('_' :: pattern) (e :: text) = like pattern text := by
  delta like
  rfl

/-- An escaped character stands for itself, whichever it is. -/
theorem like_backslash (c : Char) (pattern text : List Char) :
    like (backslash :: c :: pattern) text = startsWith c (like pattern) text := by
  delta like
  cases text <;> rfl

theorem like_plain {c : Char} (hpercent : c ≠ '%') (hline : c ≠ '_') (hback : c ≠ backslash)
    (pattern text : List Char) : like (c :: pattern) text = startsWith c (like pattern) text := by
  cases text with
  | nil =>
    delta like
    change (if c = '%' then _ else if c = '_' then _ else if c = backslash then _ else _) = _
    rw [if_neg hpercent, if_neg hline, if_neg hback]
    rfl
  | cons e text =>
    delta like
    change (if c = '%' then _ else if c = '_' then _ else if c = backslash then _ else _) = _
    rw [if_neg hpercent, if_neg hline, if_neg hback]
    rfl

/-- `%` also stands for nothing. -/
theorem like_percent_of {pattern text : List Char} (h : like pattern text = true) :
    like ('%' :: pattern) text = true := by
  rw [like_percent, List.any_eq_true]
  exact ⟨text, (List.mem_tails _ _).2 (List.suffix_refl text), h⟩

theorem like_end (text : List Char) : like ['%'] text = true := by
  rw [like_percent, List.any_eq_true]
  exact ⟨[], (List.mem_tails _ _).2 List.nil_suffix, rfl⟩

/-! ## The escaped text -/

/-- `id.replace(/[_%]/g, …)` -/
def escaped (cs : List Char) : List Char :=
  cs.flatMap fun c => if c = '_' ∨ c = '%' then [backslash, c] else [c]

theorem escaped_cons (c : Char) (cs : List Char) :
    escaped (c :: cs) = (if c = '_' ∨ c = '%' then [backslash, c] else [c]) ++ escaped cs := rfl

theorem escaped_backslash (cs : List Char) : escaped (backslash :: cs) = backslash :: escaped cs := by
  rw [escaped_cons, if_neg (by decide), List.singleton_append]

theorem asciiLower_cons (c : Char) (cs : List Char) : asciiLower (c :: cs) = c.toLower :: asciiLower cs := rfl

theorem idPattern_eq (id : String) : idPattern id = '%' :: (escaped id.toList ++ ['%']) := rfl

theorem lower_backslash : backslash.toLower = backslash := (toLower_meta backslash).2.2.2 rfl

/-- A character of the text that is no backslash, with its escape if it has
one, stands for itself. -/
theorem like_escaped_cons {c : Char} (hc : c ≠ backslash) (cs pattern text : List Char) :
    like (asciiLower (escaped (c :: cs)) ++ pattern) text =
      startsWith c.toLower (like (asciiLower (escaped cs) ++ pattern)) text := by
  obtain ⟨hpercent, hline, hback⟩ := toLower_meta c
  by_cases hmeta : c = '_' ∨ c = '%'
  · have hsplit : asciiLower (escaped (c :: cs)) = backslash :: c.toLower :: asciiLower (escaped cs) := by
      simp [escaped, asciiLower, hmeta, lower_backslash]
    rw [hsplit, List.cons_append, List.cons_append, like_backslash]
  · have hsplit : asciiLower (escaped (c :: cs)) = c.toLower :: asciiLower (escaped cs) := by
      simp [escaped, asciiLower, hmeta]
    rw [not_or] at hmeta
    rw [hsplit, List.cons_append]
    exact like_plain (fun h => hmeta.2 (hpercent.1 h)) (fun h => hmeta.1 (hline.1 h))
      (fun h => hc (hback.1 h)) _ _

/-- **Without a backslash** the text stands for itself. -/
theorem like_escaped {cs : List Char} (hcs : backslash ∉ cs) (pattern text : List Char) :
    like (asciiLower (escaped cs) ++ pattern) text = true ↔
      ∃ rest, text = asciiLower cs ++ rest ∧ like pattern rest = true := by
  induction cs generalizing text with
  | nil => simp [escaped, asciiLower]
  | cons c cs ih =>
    rw [List.mem_cons, not_or] at hcs
    rw [like_escaped_cons (Ne.symm hcs.1)]
    cases text with
    | nil => simp [startsWith, asciiLower]
    | cons e text =>
      simp only [startsWith, Bool.and_eq_true, decide_eq_true_eq, ih hcs.2]
      constructor
      · rintro ⟨rfl, rest, rfl, hrest⟩
        exact ⟨rest, rfl, hrest⟩
      · rintro ⟨rest, heq, hrest⟩
        rw [asciiLower, List.map_cons, List.cons_append, List.cons.injEq] at heq
        exact ⟨heq.1.symm, rest, heq.2, hrest⟩

/-! ## Backslashes -/

/-- An id that is found: a backslash takes the next character for itself, also
the backslash put before a `_` or `%`, which then are wildcards, and also the
closing `%`. -/
def misread : List Char → List Char
  | [] => []
  | c :: cs =>
    if c = backslash then
      match cs with
      | [] => ['%']
      | d :: cs =>
        if d = '_' then backslash :: 'a' :: misread cs
        else if d = '%' then backslash :: misread cs
        else d :: misread cs
    else c :: misread cs

theorem like_misread (cs : List Char) :
    like (asciiLower (escaped cs) ++ ['%']) (asciiLower (misread cs)) = true := by
  fun_induction misread cs with
  | case1 => exact like_end []
  | case2 => decide
  | case3 cs ih =>
    rw [escaped_backslash, escaped_cons, if_pos (.inl rfl), List.cons_append, List.cons_append,
      List.nil_append]
    simp only [asciiLower_cons, lower_backslash, List.cons_append]
    rw [like_backslash, startsWith]
    have hline : ('_').toLower = '_' := by decide
    rw [hline, like_line, ih]
    rfl
  | case4 cs hd ih =>
    rw [escaped_backslash, escaped_cons, if_pos (.inr rfl), List.cons_append, List.cons_append,
      List.nil_append]
    simp only [asciiLower_cons, lower_backslash, List.cons_append]
    have hpercent : ('%').toLower = '%' := by decide
    rw [like_backslash, startsWith, hpercent, like_percent_of ih]
    rfl
  | case5 d cs hd hd' ih =>
    rw [escaped_backslash, escaped_cons, if_neg (not_or.2 ⟨hd, hd'⟩), List.singleton_append]
    simp only [asciiLower_cons, lower_backslash, List.cons_append]
    rw [like_backslash, startsWith, ih]
    simp
  | case6 c cs hc ih =>
    rw [like_escaped_cons hc, asciiLower_cons, startsWith, ih]
    simp

/-- It is not longer than the text, and not the text. -/
theorem misread_ne (cs : List Char) : (misread cs).length ≤ cs.length ∧
    (backslash ∈ cs → asciiLower (misread cs) ≠ asciiLower cs) := by
  fun_induction misread cs with
  | case1 => exact ⟨Nat.le_refl _, fun h => absurd h List.not_mem_nil⟩
  | case2 => exact ⟨Nat.le_refl _, fun _ => by decide⟩
  | case3 cs ih =>
    refine ⟨by simpa using ih.1, fun _ heq => ?_⟩
    have h := (List.cons.inj (List.cons.inj heq).2).1
    exact absurd h (by decide)
  | case4 cs hd ih =>
    refine ⟨by simp only [List.length_cons]; omega, fun _ heq => ?_⟩
    have hlen := congrArg List.length heq
    simp only [asciiLower, List.length_map, List.length_cons] at hlen
    omega
  | case5 d cs hd hd' ih =>
    refine ⟨by simp only [List.length_cons]; omega, fun _ heq => ?_⟩
    have hlen := congrArg List.length heq
    simp only [asciiLower, List.length_map, List.length_cons] at hlen
    omega
  | case6 c cs hc ih =>
    refine ⟨by simpa using ih.1, fun hmem heq => ?_⟩
    rcases List.mem_cons.1 hmem with rfl | hmem
    · exact hc rfl
    · exact ih.2 hmem (List.cons.inj heq).2

/-! ## The accounts that are found -/

/-- The ids that are found have a part that the rest of the pattern matches. -/
theorem accountMatches_iff {id : String} (hid : id ≠ "") (row : AccountRow) :
    accountMatches asciiLower (some id) row = true ↔ ∃ text, text <:+ asciiLower row.id.toList ∧
      like (asciiLower (escaped id.toList) ++ ['%']) text = true := by
  have htruthy : truthy (some id) = some id := by simp [truthy, hid]
  have hpattern : asciiLower (idPattern id) = '%' :: (asciiLower (escaped id.toList) ++ ['%']) := by
    rw [idPattern_eq, asciiLower_cons, asciiLower, List.map_append]
    rfl
  rw [accountMatches, htruthy, Option.all_some, hpattern, like_percent, List.any_eq_true]
  simp only [List.mem_tails]

/-- **Without a backslash** the ids that contain the text are found. -/
theorem accountMatches_plain {id : String} (hid : backslash ∉ id.toList) (row : AccountRow) :
    accountMatches asciiLower (some id) row = containsIgnoringCase id row := by
  by_cases hempty : id = ""
  · subst hempty
    have hnil : (asciiLower "".toList) = [] := rfl
    rw [containsIgnoringCase, hnil, decide_eq_true (List.nil_infix)]
    rfl
  · rw [Bool.eq_iff_iff, accountMatches_iff hempty, containsIgnoringCase, decide_eq_true_eq]
    simp only [like_escaped hid, like_end, and_true]
    constructor
    · rintro ⟨text, ⟨init, hinit⟩, rest, rfl⟩
      exact ⟨init, rest, by rw [← hinit, List.append_assoc]⟩
    · rintro ⟨init, rest, heq⟩
      exact ⟨asciiLower id.toList ++ rest, ⟨init, by rw [← heq, List.append_assoc]⟩, rest, rfl⟩

/-- The id that is found by mistake, as an account. -/
def misreadAccount (id : String) : AccountRow := ⟨1, String.ofList (misread id.toList), 1, [], []⟩

theorem accountMatches_misread {id : String} (hid : backslash ∈ id.toList) :
    accountMatches asciiLower (some id) (misreadAccount id) = true ∧
      containsIgnoringCase id (misreadAccount id) = false := by
  have htext : (misreadAccount id).id.toList = misread id.toList := String.toList_ofList
  constructor
  · have hne : id ≠ "" := by
      rintro rfl
      cases hid
    rw [accountMatches_iff hne, htext]
    exact ⟨_, List.suffix_refl _, like_misread id.toList⟩
  · obtain ⟨hlen, hne⟩ := misread_ne id.toList
    rw [containsIgnoringCase, htext, decide_eq_false_iff_not]
    intro hinside
    have hle : (asciiLower (misread id.toList)).length ≤ (asciiLower id.toList).length := by
      simpa [asciiLower] using hlen
    exact hne hid (hinside.eq_of_length_le hle).symm

/-- **Which searches are literal.** A text finds, among all accounts whatever
they are, exactly those whose id contains it, ignoring case, if and only if it
has no backslash. -/
theorem account_search_literal_iff (id : String) :
    (∀ accounts : List AccountRow, accounts.filter (accountMatches asciiLower (some id)) =
      accounts.filter (containsIgnoringCase id)) ↔ backslash ∉ id.toList := by
  constructor
  · intro h hid
    obtain ⟨hmatches, hcontains⟩ := accountMatches_misread hid
    have hfilter := h [misreadAccount id]
    rw [List.filter_cons_of_pos hmatches, List.filter_cons_of_neg (by simp [hcontains])] at hfilter
    cases hfilter
  · intro hid accounts
    exact List.filter_congr fun row _ => accountMatches_plain hid row

/-- An account of an ordinary network. -/
def testAccount : AccountRow := ⟨1, "test@domain", 1, [], []⟩

/-- `\test` finds the account `test@domain`, which has no backslash. -/
theorem account_search_backslash :
    accountMatches asciiLower (some "\\test") testAccount = true ∧
    ¬ ∀ (accounts : List AccountRow) (id : String), id ≠ "" →
      accounts.filter (accountMatches asciiLower (some id)) = accounts.filter (containsIgnoringCase id) := by
  have hmatches : accountMatches asciiLower (some "\\test") testAccount = true := by decide +kernel
  have hcontains : containsIgnoringCase "\\test" testAccount = false := by decide +kernel
  refine ⟨hmatches, fun h => ?_⟩
  have hfilter := h [testAccount] "\\test" (by decide)
  rw [List.filter_cons_of_pos hmatches, List.filter_cons_of_neg (by simp [hcontains])] at hfilter
  cases hfilter

end Explorer.Iroha
