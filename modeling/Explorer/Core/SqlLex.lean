import Mathlib.Data.List.Induction
import Mathlib.Data.List.TakeWhile

/-!
# The tokens of an SQL text

How PostgreSQL splits the text of a statement into tokens, one character after
the other (`step`), with `standard_conforming_strings` on: in a literal a
backslash is a character like any other, and a quote is written twice. Two
literals with only space and a line break between them are one; comments
count as space.

A name with its dots, a keyword or a number is one `word` here. Where a token
of another kind begins (a quoted identifier, `$`, an escape string, another
operator), the rest of the text is left to the parameter `beyond`. Texts with a
NUL are refused by the server.

* `lexFrom_append`: the tokens of a text, part by part.
* `lexFrom_quoted`: a value without a quote is one literal.
* `opens_other`: a value with a quote is not the literal that comes first.
-/
namespace Explorer.SqlText

inductive Token where
  | word (cs : List Char)
  | op (cs : List Char)
  | punct (c : Char)
  | literal (cs : List Char)
  deriving DecidableEq, Repr

/-! ## Characters -/

def quote : Char := Char.ofNat 39
def nul : Char := Char.ofNat 0

def isNewline (c : Char) : Bool := c = '\n' || c = '\r'
def isSpace (c : Char) : Bool := c = ' ' || c = '\t' || c = Char.ofNat 12 || isNewline c
def isWord (c : Char) : Bool := c.isAlphanum || c = '_' || c = '.' || 128 ≤ c.toNat
def isPunct (c : Char) : Bool := c ∈ ['(', ')', ',', ';']
def isOp (c : Char) : Bool := c ∈ ['<', '>', '=', '*']

/-- The other characters that an operator can go on with. -/
def isOtherOp (c : Char) : Bool := c ∈ ['+', '-', '/', '~', '!', '@', '#', '%', '^', '&', '|', '?', Char.ofNat 96]

/-- `E'…'`, `B'…'`, `X'…'`, `N'…'` and `U&'…'` are no plain literals; the letter
is the last name of `cs`. -/
def isPrefix (cs : List Char) (c : Char) : Bool :=
  let name := (cs.reverse.takeWhile fun d => d ≠ '.').map Char.toLower
  (c = quote && name ∈ [['e'], ['b'], ['x'], ['n']]) || (c = '&' && name = ['u'])

/-- The sign in `1e+21`. -/
def isExponent (cs : List Char) (c : Char) : Bool :=
  (c = '+' || c = '-') && (cs.head?.any Char.isDigit) && (cs.getLast?.any fun d => d.toLower = 'e')

/-! ## Splitting -/

/-- What has been read of the current token. Between a literal and the next
token it is not known yet whether the literal goes on (`closed`, `gap`); a
`gap` has seen a line break or not. -/
inductive Mode where
  | start
  | word (cs : List Char)
  | op (cs : List Char)
  | dash
  | plus
  | comment
  | literal (cs : List Char)
  | closed (cs : List Char)
  | gap (cs : List Char) (newline : Bool)
  | gapDash (cs : List Char) (newline : Bool)
  | gapComment (cs : List Char)
  | beyond (cs : List Char)
  deriving DecidableEq, Repr

/-- The first character of a token. -/
def stepStart (c : Char) : Mode × List Token :=
  if isSpace c then (.start, [])
  else if c = quote then (.literal [], [])
  else if isWord c then (.word [c], [])
  else if isOp c then (.op [c], [])
  else if c = '-' then (.dash, [])
  else if c = '+' then (.plus, [])
  else if isPunct c then (.start, [.punct c])
  else (.beyond [c], [])

/-- The character after the token `t`. -/
def stepAfter (t : Token) (c : Char) : Mode × List Token := ((stepStart c).1, t :: (stepStart c).2)

def stepDash (c : Char) : Mode × List Token :=
  if c = '-' then (.comment, [])
  else if isOp c || isOtherOp c then (.beyond ['-', c], [])
  else stepAfter (.op ['-']) c

def stepPlus (c : Char) : Mode × List Token :=
  if isOp c || isOtherOp c then (.beyond ['+', c], [])
  else stepAfter (.op ['+']) c

/-- The character after a literal, or after space that follows it. -/
def stepGap (cs : List Char) (newline : Bool) (c : Char) : Mode × List Token :=
  if isSpace c then (.gap cs (newline || isNewline c), [])
  else if c = '-' then (.gapDash cs newline, [])
  else stepAfter (.literal cs) c

def step : Mode → Char → Mode × List Token
  | .start, c => stepStart c
  | .word cs, c =>
    if isWord c || isExponent cs c then (.word (cs ++ [c]), [])
    else if c = '$' || isPrefix cs c then (.beyond (cs ++ [c]), [])
    else stepAfter (.word cs) c
  | .op cs, c =>
    if isOp c then (.op (cs ++ [c]), [])
    else if isOtherOp c then (.beyond (cs ++ [c]), [])
    else stepAfter (.op cs) c
  | .dash, c => stepDash c
  | .plus, c => stepPlus c
  | .comment, c => if isNewline c then (.start, []) else (.comment, [])
  | .literal cs, c => if c = quote then (.closed cs, []) else (.literal (cs ++ [c]), [])
  | .closed cs, c => if c = quote then (.literal (cs ++ [c]), []) else stepGap cs false c
  | .gap cs newline, c => if c = quote && newline then (.literal cs, []) else stepGap cs newline c
  | .gapDash cs _, c =>
    if c = '-' then (.gapComment cs, []) else ((stepDash c).1, .literal cs :: (stepDash c).2)
  | .gapComment cs, c => if isNewline c then (.gap cs true, []) else (.gapComment cs, [])
  | .beyond cs, c => (.beyond (cs ++ [c]), [])

def run (m : Mode) : List Char → Mode × List Token
  | [] => (m, [])
  | c :: cs => ((run (step m c).1 cs).1, (step m c).2 ++ (run (step m c).1 cs).2)

section
variable (beyond : List Char → Option (List Token))

/-- The end of the text; a literal must have been closed. -/
def flush : Mode → Option (List Token)
  | .start | .comment => some []
  | .word cs => some [.word cs]
  | .op cs => some [.op cs]
  | .dash => some [.op ['-']]
  | .plus => some [.op ['+']]
  | .literal _ => none
  | .closed cs | .gap cs _ | .gapComment cs => some [.literal cs]
  | .gapDash cs _ => some [.literal cs, .op ['-']]
  | .beyond cs => beyond cs

def lexFrom (m : Mode) (text : List Char) : Option (List Token) :=
  (flush beyond (run m text).1).map ((run m text).2 ++ ·)

def lex (text : List Char) : Option (List Token) := if nul ∈ text then none else lexFrom beyond .start text

end

/-! ## Values -/

def quoted (value : List Char) : List Char := quote :: (value ++ [quote])

/-- No quote and no NUL. -/
def Plain (value : List Char) : Prop := quote ∉ value ∧ nul ∉ value

/-- A number or a name such as `NaN`, with an exponent or not. -/
inductive Unsigned : List Char → Prop where
  | word (c : Char) (cs : List Char) : (∀ d ∈ c :: cs, isWord d = true) → Unsigned (c :: cs)
  | exponent (c : Char) (cs es : List Char) (sign : Char) : c.isDigit = true → (∀ d ∈ cs, isWord d = true) →
      (sign = '+' ∨ sign = '-') → (∀ d ∈ es, isWord d = true) → Unsigned (c :: (cs ++ 'e' :: sign :: es))

def Numeral (cs : List Char) : Prop := Unsigned cs ∨ ∃ ds, cs = '-' :: ds ∧ Unsigned ds

/-- A value of the program: not empty, on one line. -/
structure Line (value : List Char) : Prop where
  plain : Plain value
  nonempty : value ≠ []
  oneLine : ∀ c ∈ value, isNewline c = false

/-- The tokens of a text that stands alone. -/
def ownTokens (cs : List Char) : List Token :=
  (run .start cs).2 ++ ((flush (fun _ => none) (run .start cs).1).getD [])

def isLine (value : List Char) : Bool :=
  !value.isEmpty && value.all fun c => c ≠ quote && c ≠ nul && !isNewline c

theorem line_of_isLine {value : List Char} (h : isLine value = true) : Line value := by
  simp only [isLine, Bool.and_eq_true, List.all_eq_true, decide_eq_true_eq, Bool.not_eq_true',
    List.isEmpty_eq_false_iff] at h
  obtain ⟨hne, hall⟩ := h
  exact ⟨⟨fun hmem => (hall _ hmem).1.1 rfl, fun hmem => (hall _ hmem).1.2 rfl⟩, hne, fun c hc => (hall c hc).2⟩

/-! ## Where tokens end -/

/-- Text that does not go on with a literal before it. -/
def Closes (cs : List Char) : Prop := ∀ c, (cs.dropWhile isSpace).head? = some c → c ≠ quote ∧ c ≠ '-'

/-- The same behind the end of the line. -/
def LineCloses (cs : List Char) : Prop := Closes (cs.dropWhile fun c => !isNewline c)

theorem dropWhile_append_of_ne {p : Char → Bool} {xs ys : List Char} (h : xs.dropWhile p ≠ []) :
    (xs ++ ys).dropWhile p = xs.dropWhile p ++ ys := by
  rw [List.dropWhile_append, if_neg (by simpa using h)]

theorem dropWhile_append_of_eq {p : Char → Bool} {xs ys : List Char} (h : xs.dropWhile p = []) :
    (xs ++ ys).dropWhile p = ys.dropWhile p := by
  rw [List.dropWhile_append, if_pos (by simpa using h)]

/-- The first character that is no space decides. -/
theorem closes_append {cs : List Char} {c : Char} {ds : List Char} (h : cs.dropWhile isSpace = c :: ds)
    (hc : c ≠ quote ∧ c ≠ '-') (rest : List Char) : Closes (cs ++ rest) := by
  have hne : cs.dropWhile isSpace ≠ [] := by
    rw [h]
    exact List.cons_ne_nil c ds
  intro d hd
  rw [dropWhile_append_of_ne hne, h, List.cons_append, List.head?_cons, Option.some.injEq] at hd
  exact hd ▸ hc

section
variable {beyond : List Char → Option (List Token)}

theorem run_append (m : Mode) (xs ys : List Char) :
    run m (xs ++ ys) = ((run (run m xs).1 ys).1, (run m xs).2 ++ (run (run m xs).1 ys).2) := by
  induction xs generalizing m with
  | nil => rfl
  | cons c xs ih => simp only [List.cons_append, run, ih, List.append_assoc]

theorem lexFrom_append (m : Mode) (xs ys : List Char) :
    lexFrom beyond m (xs ++ ys) = (lexFrom beyond (run m xs).1 ys).map ((run m xs).2 ++ ·) := by
  rw [lexFrom, run_append, lexFrom, Option.map_map]
  simp only [Function.comp_def, List.append_assoc]

theorem lexFrom_cons (m : Mode) (c : Char) (cs : List Char) :
    lexFrom beyond m (c :: cs) = (lexFrom beyond (step m c).1 cs).map ((step m c).2 ++ ·) := by
  have h : lexFrom beyond m ([c] ++ cs) = (lexFrom beyond (run m [c]).1 cs).map ((run m [c]).2 ++ ·) :=
    lexFrom_append m [c] cs
  simpa [run] using h

/-- No token is complete at `c`. -/
theorem lexFrom_silent {m m' : Mode} {c : Char} (h : step m c = (m', [])) (cs : List Char) :
    lexFrom beyond m (c :: cs) = lexFrom beyond m' cs := by
  rw [lexFrom_cons, h]
  exact Option.map_id'

/-- No token is complete behind `xs`. -/
theorem lexFrom_silent_append {m m' : Mode} {xs : List Char} (h : run m xs = (m', [])) (ys : List Char) :
    lexFrom beyond m (xs ++ ys) = lexFrom beyond m' ys := by
  rw [lexFrom_append, h]
  exact Option.map_id'

theorem run_stepAfter {m : Mode} {t : Token} {c : Char} (h : step m c = stepAfter t c) (cs : List Char) :
    run m (c :: cs) = ((run .start (c :: cs)).1, t :: (run .start (c :: cs)).2) := by
  rw [run, run, h]
  rfl

/-- The token before `c` is complete. -/
theorem lexFrom_stepAfter {m : Mode} {t : Token} {c : Char} (h : step m c = stepAfter t c) (cs : List Char) :
    lexFrom beyond m (c :: cs) = (lexFrom beyond .start (c :: cs)).map (t :: ·) := by
  rw [lexFrom, run_stepAfter h, lexFrom, Option.map_map]
  rfl

theorem space_ne_quote {c : Char} (h : isSpace c = true) : c ≠ quote := by
  rintro rfl
  exact absurd h (by decide)

theorem newline_space {c : Char} (h : isNewline c = true) : isSpace c = true := by simp [isSpace, h]

theorem lexFrom_space {c : Char} (h : isSpace c = true) (cs : List Char) :
    lexFrom beyond .start (c :: cs) = lexFrom beyond .start cs := by
  have hstep : step .start c = (.start, []) := if_pos h
  exact lexFrom_silent hstep cs

theorem Closes.tail {c : Char} {cs : List Char} (h : Closes (c :: cs)) (hc : isSpace c = true) : Closes cs := by
  intro d hd
  exact h d (by rw [List.dropWhile_cons_of_pos hc, hd])

theorem Closes.head {c : Char} {cs : List Char} (h : Closes (c :: cs)) (hc : isSpace c = false) :
    c ≠ quote ∧ c ≠ '-' :=
  h c (by rw [List.dropWhile_cons_of_neg (by simp [hc])]; rfl)

theorem lexFrom_gap {cs : List Char} (h : Closes cs) (value : List Char) (newline : Bool) :
    lexFrom beyond (.gap value newline) cs = (lexFrom beyond .start cs).map (.literal value :: ·) := by
  induction cs generalizing newline with
  | nil => rfl
  | cons c cs ih =>
    cases hc : isSpace c with
    | true =>
      have hstep : step (.gap value newline) c = (.gap value (newline || isNewline c), []) := by
        simp [step, stepGap, hc, space_ne_quote hc]
      rw [lexFrom_silent hstep, ih (h.tail hc), lexFrom_space hc]
    | false =>
      obtain ⟨hq, hd⟩ := h.head hc
      exact lexFrom_stepAfter (by simp [step, stepGap, hc, hq, hd]) cs

theorem lexFrom_closed {cs : List Char} (h : Closes cs) (value : List Char) :
    lexFrom beyond (.closed value) cs = (lexFrom beyond .start cs).map (.literal value :: ·) := by
  cases cs with
  | nil => rfl
  | cons c cs =>
    cases hc : isSpace c with
    | true =>
      have hstep : step (.closed value) c = (.gap value (isNewline c), []) := by
        simp [step, stepGap, hc, space_ne_quote hc]
      rw [lexFrom_silent hstep, lexFrom_gap (h.tail hc), lexFrom_space hc]
    | false =>
      obtain ⟨hq, hd⟩ := h.head hc
      exact lexFrom_stepAfter (by simp [step, stepGap, hc, hq, hd]) cs

theorem run_literal {xs : List Char} (h : quote ∉ xs) (acc : List Char) :
    run (.literal acc) xs = (.literal (acc ++ xs), []) := by
  induction xs generalizing acc with
  | nil => simp [run]
  | cons c xs ih =>
    rw [List.mem_cons, not_or] at h
    have hstep : step (.literal acc) c = (.literal (acc ++ [c]), []) := if_neg (Ne.symm h.1)
    rw [run, hstep, ih h.2]
    simp

/-- **A value without a quote** is one literal. -/
theorem lexFrom_quoted {value cs : List Char} (hvalue : quote ∉ value) (h : Closes cs) :
    lexFrom beyond .start (quoted value ++ cs) = (lexFrom beyond .start cs).map (.literal value :: ·) := by
  have hopen : step .start quote = (.literal [], []) := by decide
  have hclose : step (.literal value) quote = (.closed value, []) := by simp [step]
  rw [quoted, List.cons_append, lexFrom_silent hopen, List.append_assoc,
    lexFrom_silent_append (run_literal hvalue []), List.nil_append, List.singleton_append,
    lexFrom_silent hclose, lexFrom_closed h]
/-! ## Numbers -/

theorem word_ne {c : Char} (h : isWord c = true) {d : Char} (hd : isWord d = false) : c ≠ d := by
  rintro rfl
  rw [hd] at h
  cases h

theorem word_not_space {c : Char} (h : isWord c = true) : isSpace c = false := by
  have hne : ∀ d, isWord d = false → c ≠ d := fun d => word_ne h
  simp [isSpace, isNewline, hne ' ' (by decide), hne '\t' (by decide), hne (Char.ofNat 12) (by decide),
    hne '\n' (by decide), hne '\r' (by decide)]

theorem word_not_op {c : Char} (h : isWord c = true) : isOp c = false ∧ isOtherOp c = false := by
  constructor
  · have hop : (['<', '>', '=', '*'].all fun d => !isWord d) = true := rfl
    refine decide_eq_false fun hmem => ?_
    simpa [h] using List.all_eq_true.1 hop c hmem
  · have hop : (['+', '-', '/', '~', '!', '@', '#', '%', '^', '&', '|', '?', Char.ofNat 96].all
        fun d => !isWord d) = true := rfl
    refine decide_eq_false fun hmem => ?_
    simpa [h] using List.all_eq_true.1 hop c hmem

theorem stepStart_word {c : Char} (h : isWord c = true) : stepStart c = (.word [c], []) := by
  simp [stepStart, word_not_space h, word_ne h (show isWord quote = false by decide), h]

theorem run_word {cs : List Char} (h : ∀ d ∈ cs, isWord d = true) (acc : List Char) :
    run (.word acc) cs = (.word (acc ++ cs), []) := by
  induction cs generalizing acc with
  | nil => simp [run]
  | cons c cs ih =>
    rw [List.forall_mem_cons] at h
    have hstep : step (.word acc) c = (.word (acc ++ [c]), []) := by simp [step, h.1]
    rw [run, hstep, ih h.2]
    simp

theorem run_unsigned {cs : List Char} (h : Unsigned cs) : ∃ w, run .start cs = (.word w, []) := by
  cases h with
  | word c cs h =>
    rw [List.forall_mem_cons] at h
    refine ⟨c :: cs, ?_⟩
    rw [run]
    simp only [step, stepStart_word h.1, run_word h.2]
    rfl
  | exponent c cs es sign hc hcs hsign hes =>
    have hword : isWord c = true := by simp [isWord, Char.isAlphanum, hc]
    have he : ∀ d ∈ cs ++ ['e'], isWord d = true := by
      intro d hd
      rw [List.mem_append, List.mem_singleton] at hd
      obtain hd | rfl := hd
      · exact hcs d hd
      · decide
    have hexp : isExponent ([c] ++ (cs ++ ['e'])) sign = true := by
      have hlast : ([c] ++ (cs ++ ['e'])).getLast? = some 'e' := by
        rw [← List.append_assoc, List.getLast?_concat]
      have hdec : (sign = '+' || sign = '-') = true := by simpa using hsign
      rw [isExponent, hlast, hdec]
      simp [hc]
    refine ⟨([c] ++ (cs ++ ['e']) ++ [sign]) ++ es, ?_⟩
    have hsplit : c :: (cs ++ 'e' :: sign :: es) = c :: ((cs ++ ['e']) ++ (sign :: es)) := by simp
    have hstep : step (.word ([c] ++ (cs ++ ['e']))) sign = (.word ([c] ++ (cs ++ ['e']) ++ [sign]), []) := by
      simp only [step, hexp, Bool.or_true, if_true]
    rw [hsplit, run]
    simp only [step, stepStart_word hword]
    rw [run_append, run_word he, run]
    simp only [hstep, run_word hes, List.nil_append]

theorem unsigned_head {cs : List Char} (h : Unsigned cs) : ∃ d ds, cs = d :: ds ∧ isWord d = true := by
  cases h with
  | word c cs h => exact ⟨c, cs, rfl, h c List.mem_cons_self⟩
  | exponent c cs es sign hc _ _ _ => exact ⟨c, _, rfl, by simp [isWord, Char.isAlphanum, hc]⟩

/-- A number is complete at a space. -/
theorem lexFrom_numeral {cs : List Char} (h : Numeral cs) {c : Char} (hc : isSpace c = true) (ds : List Char) :
    lexFrom beyond .start (cs ++ c :: ds) = (lexFrom beyond .start (c :: ds)).map (ownTokens cs ++ ·) := by
  obtain ⟨w, o, hrun⟩ : ∃ w o, run .start cs = (.word w, o) := by
    obtain h | ⟨es, rfl, h⟩ := h
    · obtain ⟨w, hw⟩ := run_unsigned h
      exact ⟨w, [], hw⟩
    · obtain ⟨w, hw⟩ := run_unsigned h
      obtain ⟨d, fs, rfl, hd⟩ := unsigned_head h
      have hdash : step .start '-' = (.dash, []) := by decide
      have hafter : step .dash d = stepAfter (.op ['-']) d := by
        obtain ⟨hop, hother⟩ := word_not_op hd
        simp [step, stepDash, word_ne hd (show isWord '-' = false by decide), hop, hother]
      refine ⟨w, [.op ['-']], ?_⟩
      rw [run, hdash, run_stepAfter hafter, hw]
      rfl
  have hafter : step (.word w) c = stepAfter (.word w) c := by
    have hword : isWord c = false := by
      cases hw : isWord c with
      | false => rfl
      | true =>
        rw [word_not_space hw] at hc
        cases hc
    have hne : ∀ d, isSpace d = false → c ≠ d := by
      rintro d hd rfl
      rw [hd] at hc
      cases hc
    have hexp : isExponent w c = false := by
      simp [isExponent, hne '+' (by decide), hne '-' (by decide)]
    simp [step, isPrefix, hword, hexp, hne '$' (by decide), hne '&' (by decide), space_ne_quote hc]
  rw [lexFrom_append, hrun, ownTokens, hrun, lexFrom_stepAfter hafter, Option.map_map]
  simp only [flush, Option.getD_some, List.append_assoc, List.singleton_append, Function.comp_def]

/-! ## Values with a quote -/

/-- Whatever tokens come, the first is the literal `x`. -/
def Opens (x : List Char) (r : Option (List Token)) : Prop := ∀ ts, r = some ts → ∃ ts', ts = .literal x :: ts'

theorem opens_map_literal (x : List Char) (r : Option (List Token)) : Opens x (r.map (.literal x :: ·)) := by
  intro ts hts
  obtain ⟨ts', -, rfl⟩ := Option.map_eq_some_iff.1 hts
  exact ⟨ts', rfl⟩

theorem opens_of_step {m : Mode} {c : Char} {x : List Char} (ts : List Token) (h : (step m c).2 = .literal x :: ts)
    (cs : List Char) : Opens x (lexFrom beyond m (c :: cs)) := by
  intro us hus
  rw [lexFrom_cons, h] at hus
  obtain ⟨vs, -, rfl⟩ := Option.map_eq_some_iff.1 hus
  exact ⟨ts ++ vs, rfl⟩

theorem opens_closed {cs : List Char} (h : Closes cs) (x : List Char) : Opens x (lexFrom beyond (.closed x) cs) := by
  rw [lexFrom_closed h]
  exact opens_map_literal x _

theorem opens_gap {cs : List Char} (h : Closes cs) (x : List Char) (newline : Bool) :
    Opens x (lexFrom beyond (.gap x newline) cs) := by
  rw [lexFrom_gap h]
  exact opens_map_literal x _

/-- A comment behind a literal goes on to the end of the line. -/
theorem opens_gapComment {cs : List Char} (h : LineCloses cs) (x : List Char) :
    Opens x (lexFrom beyond (.gapComment x) cs) := by
  induction cs with
  | nil =>
    rintro ts ⟨⟩
    exact ⟨[], rfl⟩
  | cons c cs ih =>
    cases hc : isNewline c with
    | true =>
      have hstep : step (.gapComment x) c = (.gap x true, []) := if_pos hc
      have hcloses : Closes cs := by
        have hdrop : (c :: cs).dropWhile (fun c => !isNewline c) = c :: cs :=
          List.dropWhile_cons_of_neg (by simp [hc])
        unfold LineCloses at h
        rw [hdrop] at h
        exact h.tail (newline_space hc)
      rw [lexFrom_silent hstep]
      exact opens_gap hcloses x true
    | false =>
      have hstep : step (.gapComment x) c = (.gapComment x, []) := if_neg (by simp [hc])
      have hline : LineCloses cs := by
        have hdrop : (c :: cs).dropWhile (fun c => !isNewline c) = cs.dropWhile fun c => !isNewline c :=
          List.dropWhile_cons_of_pos (by simp [hc])
        unfold LineCloses at h ⊢
        rw [hdrop] at h
        exact h
      rw [lexFrom_silent hstep]
      exact ih hline

theorem lineCloses_append {cs ds : List Char} (hcs : ∀ c ∈ cs, isNewline c = false) (h : LineCloses ds) :
    LineCloses (cs ++ ds) := by
  unfold LineCloses at h ⊢
  have hnil : cs.dropWhile (fun c => !isNewline c) = [] := by
    rw [List.dropWhile_eq_nil_iff]
    intro c hc
    rw [hcs c hc]
    rfl
  rw [dropWhile_append_of_eq hnil]
  exact h

/-- A literal, then a value of the program: there is no line break between
the two, so they stay two. -/
theorem opens_value {value ds : List Char} (hquote : quote ∉ value) (hline : ∀ c ∈ value, isNewline c = false)
    (hds : LineCloses ds) (x : List Char) : Opens x (lexFrom beyond (.gap x false) (value ++ quote :: ds)) := by
  induction value with
  | nil => exact opens_of_step _ rfl ds
  | cons c cs ih =>
    rw [List.mem_cons, not_or] at hquote
    rw [List.forall_mem_cons] at hline
    cases hc : isSpace c with
    | true =>
      have hstep : step (.gap x false) c = (.gap x false, []) := by simp [step, stepGap, hc, hline.1]
      rw [List.cons_append, lexFrom_silent hstep]
      exact ih hquote.2 hline.2
    | false =>
      by_cases hd : c = '-'
      · subst hd
        have hstep : step (.gap x false) '-' = (.gapDash x false, []) := by simp [step, stepGap, hc]
        rw [List.cons_append, lexFrom_silent hstep]
        cases cs with
        | nil => exact opens_of_step _ rfl ds
        | cons d cs =>
          by_cases hd : d = '-'
          · subst hd
            have hcomment : step (.gapDash x false) '-' = (.gapComment x, []) := by simp [step]
            rw [List.cons_append, lexFrom_silent hcomment]
            have hquoted : LineCloses ([quote] ++ ds) := 
              lineCloses_append (List.forall_mem_singleton.2 rfl) hds
            exact opens_gapComment
              (lineCloses_append (fun c hc => hline.2 c (List.mem_cons_of_mem _ hc)) hquoted) x
          · exact opens_of_step (stepDash d).2 (by simp [step, hd]) _
      · exact opens_of_step (stepStart c).2 (by simp [step, stepGap, stepAfter, hc, hd]) _

/-- The part of a literal that has been read of the text `s` behind an opening
quote. -/
def Within (s : List Char) : Mode → Prop
  | .literal x => x.count quote ≤ s.count quote ∧ x.length ≤ s.length ∧ (quote ∈ s → x.length < s.length)
  | .closed x => x.count quote < s.count quote ∧ x.length < s.length ∧ s.getLast? = some quote
  | .gap x _ | .gapDash x _ | .gapComment x => x.count quote < s.count quote ∧ x.length < s.length
  | _ => False

/-- What has been read of `s`: a first literal shorter than `s`, or a part of
one. -/
def Reads (s : List Char) (r : Mode × List Token) : Prop :=
  (∃ x ts, r.2 = .literal x :: ts ∧ x.length < s.length) ∨ r.2 = [] ∧ Within s r.1

theorem run_concat (m : Mode) (s : List Char) (c : Char) :
    run m (s ++ [c]) = ((step (run m s).1 c).1, (run m s).2 ++ (step (run m s).1 c).2) := by
  rw [run_append]
  simp [run]

theorem count_concat_quote (s : List Char) : (s ++ [quote]).count quote = s.count quote + 1 := by
  simp [List.count_append]

theorem count_concat_of_ne {c : Char} (h : c ≠ quote) (s : List Char) : (s ++ [c]).count quote = s.count quote := by
  simp [List.count_append, h]

theorem count_le_concat (s : List Char) (c : Char) : s.count quote ≤ (s ++ [c]).count quote := by
  simp [List.count_append]

theorem length_concat (s : List Char) (c : Char) : (s ++ [c]).length = s.length + 1 := List.length_append

/-- A literal that ends here. -/
theorem reads_done {s x : List Char} {c : Char} {m : Mode} (ts : List Token) (hlen : x.length ≤ s.length) :
    Reads (s ++ [c]) (m, .literal x :: ts) :=
  .inl ⟨x, ts, rfl, by rw [length_concat]; omega⟩

theorem within_literal {s x : List Char} {c : Char} (hc : c ≠ quote) (h : Within s (.literal x)) :
    Within (s ++ [c]) (.literal (x ++ [c])) := by
  obtain ⟨hcount, hlen, hless⟩ := h
  refine ⟨?_, ?_, fun hmem => ?_⟩
  · rw [count_concat_of_ne hc, count_concat_of_ne hc]
    exact hcount
  · rw [length_concat, length_concat]
    omega
  · have hs : quote ∈ s := by
      rw [List.mem_append, List.mem_singleton] at hmem
      exact hmem.resolve_right (Ne.symm hc)
    rw [length_concat, length_concat]
    exact Nat.succ_lt_succ (hless hs)

section
variable {s x : List Char} (hcount : x.count quote < s.count quote) (hlen : x.length < s.length) (c : Char)
include hcount hlen

/-- Between two literals, nothing is added. -/
theorem within_gap : x.count quote < (s ++ [c]).count quote ∧ x.length < (s ++ [c]).length := by
  have hle := count_le_concat s c
  rw [length_concat]
  omega

/-- The literal goes on behind the space. -/
theorem within_resumed : Within (s ++ [c]) (.literal x) := by
  obtain ⟨hcount', hlen'⟩ := within_gap hcount hlen c
  exact ⟨hcount'.le, hlen'.le, fun _ => hlen'⟩

theorem within_doubled : Within (s ++ [quote]) (.literal (x ++ [quote])) := by
  refine ⟨?_, ?_, fun _ => ?_⟩
  · rw [count_concat_quote, count_concat_quote]
    omega
  · rw [length_concat, length_concat]
    omega
  · rw [length_concat, length_concat]
    omega

theorem reads_gap (newline : Bool) : Reads (s ++ [c]) (stepGap x newline c) := by
  unfold stepGap
  split
  · exact .inr ⟨rfl, within_gap hcount hlen c⟩
  · split
    · exact .inr ⟨rfl, within_gap hcount hlen c⟩
    · exact reads_done _ hlen.le

end

theorem reads_step {s : List Char} {m : Mode} (c : Char) (h : Within s m) : Reads (s ++ [c]) (step m c) := by
  cases m with
  | literal x =>
    by_cases hc : c = quote
    · subst hc
      have hstep : step (.literal x) quote = (.closed x, []) := by simp [step]
      rw [hstep]
      refine .inr ⟨rfl, ?_, ?_, List.getLast?_concat⟩
      · rw [count_concat_quote]
        exact Nat.lt_succ_of_le h.1
      · rw [length_concat]
        exact Nat.lt_succ_of_le h.2.1
    · have hstep : step (.literal x) c = (.literal (x ++ [c]), []) := if_neg hc
      rw [hstep]
      exact .inr ⟨rfl, within_literal hc h⟩
  | closed x =>
    obtain ⟨hcount, hlen, -⟩ := h
    by_cases hc : c = quote
    · subst hc
      have hstep : step (.closed x) quote = (.literal (x ++ [quote]), []) := by simp [step]
      rw [hstep]
      exact .inr ⟨rfl, within_doubled hcount hlen⟩
    · have hstep : step (.closed x) c = stepGap x false c := if_neg hc
      rw [hstep]
      exact reads_gap hcount hlen c false
  | gap x newline =>
    obtain ⟨hcount, hlen⟩ := h
    simp only [step]
    split
    · exact .inr ⟨rfl, within_resumed hcount hlen c⟩
    · exact reads_gap hcount hlen c newline
  | gapDash x newline =>
    obtain ⟨hcount, hlen⟩ := h
    simp only [step]
    split
    · exact .inr ⟨rfl, within_gap hcount hlen c⟩
    · exact reads_done _ hlen.le
  | gapComment x =>
    obtain ⟨hcount, hlen⟩ := h
    simp only [step]
    split
    · exact .inr ⟨rfl, within_gap hcount hlen c⟩
    · exact .inr ⟨rfl, within_gap hcount hlen c⟩
  | _ => exact h.elim

theorem reads_run (s : List Char) : Reads s (run (.literal []) s) := by
  induction s using List.reverseRecOn with
  | nil => exact .inr ⟨rfl, by simp [run, Within]⟩
  | append_singleton s c ih =>
    rw [run_concat]
    obtain ⟨x, ts, hts, hlen⟩ | ⟨hts, hmode⟩ := ih
    · refine .inl ⟨x, ts ++ (step (run (.literal []) s).1 c).2, by rw [hts]; rfl, ?_⟩
      rw [length_concat]; omega
    · rw [hts, List.nil_append]
      exact reads_step c hmode

theorem lexFrom_closed_gap {c : Char} (h : c ≠ quote) (x cs : List Char) :
    lexFrom beyond (.closed x) (c :: cs) = lexFrom beyond (.gap x false) (c :: cs) := by
  have hstep : step (.closed x) c = step (.gap x false) c := by simp [step, h]
  rw [lexFrom_cons, lexFrom_cons, hstep]

/-- A literal that has swallowed the text before a value of the program ends
with it. -/
theorem opens_swallowed {sep value ds : List Char} (hsep : quote ∉ sep) (hvalue : Line value)
    (hds : LineCloses ds) (x : List Char) :
    Opens (x ++ sep) (lexFrom beyond (.literal x) (sep ++ (quoted value ++ ds))) := by
  have hclose : step (.literal (x ++ sep)) quote = (.closed (x ++ sep), []) := by simp [step]
  have hquoted : quoted value ++ ds = quote :: (value ++ quote :: ds) := by simp [quoted]
  rw [lexFrom_silent_append (run_literal hsep x), hquoted, lexFrom_silent hclose]
  obtain ⟨c, cs, rfl⟩ := List.exists_cons_of_ne_nil hvalue.nonempty
  have hc : c ≠ quote := fun hc => hvalue.plain.1 (hc ▸ List.mem_cons_self)
  rw [List.cons_append, lexFrom_closed_gap hc]
  exact opens_value hvalue.plain.1 hvalue.oneLine hds _

/-- The first literal of `'s…`, when it is known how it goes on behind `s`. -/
theorem opens_of_reads {s cs : List Char}
    (h : ∀ {m : Mode}, Within s m → ∃ x, x ≠ s ∧ Opens x (lexFrom beyond m cs)) :
    ∃ x, x ≠ s ∧ Opens x (lexFrom beyond .start (quote :: (s ++ cs))) := by
  have hopen : step .start quote = (.literal [], []) := by decide
  rw [lexFrom_silent hopen]
  obtain ⟨x, ts, hts, hlen⟩ | ⟨hts, hm⟩ := reads_run s
  · refine ⟨x, fun hx => hlen.ne (congrArg _ hx), fun us hus => ?_⟩
    rw [lexFrom_append, hts] at hus
    obtain ⟨vs, -, rfl⟩ := Option.map_eq_some_iff.1 hus
    exact ⟨ts ++ vs, rfl⟩
  · rw [lexFrom_silent_append (Prod.ext rfl hts)]
    exact h hm

section
variable {s sep value ds : List Char} (hs : quote ∈ s) (hsep : quote ∉ sep) (hne : sep ≠ [])
  (hcloses : Closes (sep ++ (quoted value ++ ds))) (hvalue : Line value)
  (hline : LineCloses (sep ++ (quoted value ++ ds))) (hds : LineCloses ds)
include hs hsep hne hcloses hvalue hline hds

/-- The quote that was to close `s`: either the text between it and the next
value becomes part of the first literal, or that literal is shorter than `s`. -/
theorem opens_of_within {m : Mode} (hm : Within s m) :
    ∃ x, x ≠ s ∧ Opens x (lexFrom beyond m (quote :: (sep ++ (quoted value ++ ds)))) := by
  have hshorter : ∀ {x : List Char}, x.length < s.length → x ≠ s := fun hlen hx => hlen.ne (congrArg _ hx)
  cases m with
  | literal x =>
    have hclose : step (.literal x) quote = (.closed x, []) := by simp [step]
    rw [lexFrom_silent hclose]
    exact ⟨x, hshorter (hm.2.2 hs), opens_closed hcloses x⟩
  | closed x =>
    -- `s` ends with a quote, the literal with the text behind it
    have hdouble : step (.closed x) quote = (.literal (x ++ [quote]), []) := by simp [step]
    rw [lexFrom_silent hdouble]
    refine ⟨x ++ [quote] ++ sep, fun hx => hsep ?_, opens_swallowed hsep hvalue hds _⟩
    have hlast := hm.2.2
    rw [← hx, List.getLast?_append, List.getLast?_eq_some_getLast hne, Option.some_or,
      ← List.getLast?_eq_some_getLast hne] at hlast
    exact List.mem_of_getLast? hlast
  | gap x newline =>
    cases newline with
    | true =>
      have hresume : step (.gap x true) quote = (.literal x, []) := by simp [step]
      have hfewer : x ++ sep ≠ s := by
        intro hx
        have hcount : s.count quote = x.count quote := by
          rw [← hx, List.count_append, List.count_eq_zero_of_not_mem hsep, Nat.add_zero]
        exact absurd hcount hm.1.ne'
      rw [lexFrom_silent hresume]
      exact ⟨x ++ sep, hfewer, opens_swallowed hsep hvalue hds x⟩
    | false => exact ⟨x, hshorter hm.2, opens_of_step (stepStart quote).2 rfl _⟩
  | gapDash x newline => exact ⟨x, hshorter hm.2, opens_of_step (stepDash quote).2 rfl _⟩
  | gapComment x =>
    have hstay : step (.gapComment x) quote = (.gapComment x, []) := rfl
    rw [lexFrom_silent hstay]
    exact ⟨x, hshorter hm.2, opens_gapComment hline x⟩
  | _ => exact hm.elim

/-- **A value with a quote** is not the literal that comes first. -/
theorem opens_other :
    ∃ x, x ≠ s ∧ Opens x (lexFrom beyond .start (quoted s ++ (sep ++ (quoted value ++ ds)))) := by
  have htext : quoted s ++ (sep ++ (quoted value ++ ds)) =
      quote :: (s ++ (quote :: (sep ++ (quoted value ++ ds)))) := by
    simp [quoted]
  rw [htext]
  exact opens_of_reads fun hm => opens_of_within hs hsep hne hcloses hvalue hline hds hm

end

/-! ### At the end of the statement -/

/-- Nothing closes a literal any more. -/
theorem lexFrom_unclosed {tail : List Char} (htail : quote ∉ tail) (x : List Char) :
    lexFrom beyond (.literal x) tail = none := by
  have hrun : run (.literal x) tail = (.literal (x ++ tail), []) := run_literal htail x
  rw [lexFrom, hrun]
  rfl

section
variable {s tail : List Char} (hs : quote ∈ s) (htail : quote ∉ tail) (hcloses : Closes tail)
  (hline : LineCloses tail)
include hs htail hcloses hline

/-- The quote that was to close `s` is the last one. -/
theorem opens_last_of_within {m : Mode} (hm : Within s m) :
    ∃ x, x ≠ s ∧ Opens x (lexFrom beyond m (quote :: tail)) := by
  have hshorter : ∀ {x : List Char}, x.length < s.length → x ≠ s := fun hlen hx => hlen.ne (congrArg _ hx)
  have hnone : ∀ x, Opens x (none : Option (List Token)) := by
    intro x ts hts
    cases hts
  cases m with
  | literal x =>
    have hclose : step (.literal x) quote = (.closed x, []) := by simp [step]
    rw [lexFrom_silent hclose]
    exact ⟨x, hshorter (hm.2.2 hs), opens_closed hcloses x⟩
  | closed x =>
    have hdouble : step (.closed x) quote = (.literal (x ++ [quote]), []) := by simp [step]
    rw [lexFrom_silent hdouble, lexFrom_unclosed htail]
    exact ⟨x, hshorter hm.2.1, hnone x⟩
  | gap x newline =>
    cases newline with
    | true =>
      have hresume : step (.gap x true) quote = (.literal x, []) := by simp [step]
      rw [lexFrom_silent hresume, lexFrom_unclosed htail]
      exact ⟨x, hshorter hm.2, hnone x⟩
    | false => exact ⟨x, hshorter hm.2, opens_of_step (stepStart quote).2 rfl _⟩
  | gapDash x newline => exact ⟨x, hshorter hm.2, opens_of_step (stepDash quote).2 rfl _⟩
  | gapComment x =>
    have hstay : step (.gapComment x) quote = (.gapComment x, []) := rfl
    rw [lexFrom_silent hstay]
    exact ⟨x, hshorter hm.2, opens_gapComment hline x⟩
  | _ => exact hm.elim

/-- **A value with a quote**, with no other value behind it. -/
theorem opens_last : ∃ x, x ≠ s ∧ Opens x (lexFrom beyond .start (quoted s ++ tail)) := by
  have htext : quoted s ++ tail = quote :: (s ++ quote :: tail) := by simp [quoted]
  rw [htext]
  exact opens_of_reads fun hm => opens_last_of_within hs htail hcloses hline hm

end

end

theorem unsigned_nul {cs : List Char} (h : Unsigned cs) : nul ∉ cs := by
  have hword : ∀ {c : Char}, isWord c = true → nul ≠ c := fun hc => (word_ne hc (by decide)).symm
  cases h with
  | word c cs h => exact fun hmem => hword (h nul hmem) rfl
  | exponent c cs es sign hc hcs hsign hes =>
    have hdigit : isWord c = true := by simp [isWord, Char.isAlphanum, hc]
    simp only [List.mem_cons, List.mem_append, not_or]
    refine ⟨hword hdigit, fun hmem => hword (hcs nul hmem) rfl, by decide, ?_,
      fun hmem => hword (hes nul hmem) rfl⟩
    rintro rfl
    exact absurd hsign (by decide)

theorem numeral_nul {cs : List Char} (h : Numeral cs) : nul ∉ cs := by
  obtain h | ⟨ds, rfl, h⟩ := h
  · exact unsigned_nul h
  · rw [List.mem_cons, not_or]
    exact ⟨by decide, unsigned_nul h⟩

theorem mem_quoted {c : Char} {value : List Char} : c ∈ quoted value ↔ c = quote ∨ c ∈ value := by
  simp only [quoted, List.mem_cons, List.mem_append, List.not_mem_nil, or_false]
  tauto
end Explorer.SqlText
