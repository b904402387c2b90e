import Explorer.Core.SqlLex

/-!
# SQL statements assembled as texts

A statement is assembled from pieces (`render`); `tokens` is what it is meant
to be. `Assembled` checks that the texts keep the tokens of the pieces apart.

* `lexFrom_piece`: a piece gives its own tokens.
* `lex_render`: values without quote and NUL stay literals.
* `sent_plain_of_literals`: no other value does.
* `lex_render_iff`: which statements are the ones that are meant.
-/
namespace Explorer.SqlText

/-- `given`, `listed` and `sent` are values between quotes: lines of the program,
values that are known to be plain, and values from outside. -/
inductive Piece where
  | sql (text : List Char)
  | numeral (cs : List Char)
  | given (value : List Char)
  | listed (value : List Char)
  | sent (value : List Char)
  deriving DecidableEq, Repr

def Piece.text : Piece → List Char
  | .sql text => text
  | .numeral cs => cs
  | .given value | .listed value | .sent value => quoted value

def render (ps : List Piece) : List Char := ps.flatMap Piece.text

def Piece.tokens : Piece → List Token
  | .sql text => ownTokens text
  | .numeral cs => ownTokens cs
  | .given value | .listed value | .sent value => [.literal value]

/-- The statement that is meant: the values are literals. -/
def tokens (ps : List Piece) : List Token := ps.flatMap Piece.tokens

def literals (ts : List Token) : List (List Char) :=
  ts.filterMap fun
    | .literal cs => some cs
    | _ => none

def Piece.Trusted : Piece → Prop
  | .sql _ | .sent _ => True
  | .numeral cs => Numeral cs
  | .given value => Line value
  | .listed value => Plain value

/-! ## Pieces that stay apart -/

/-- What follows a value does not go on with it. -/
def afterValue : List Piece → Bool
  | [] => true
  | .sql text :: ps =>
    match text.dropWhile isSpace with
    | c :: _ => c ≠ quote && c ≠ '-'
    | [] => ps.isEmpty
  | _ => false

/-- The last token of a piece is complete. -/
def separate : Mode → List Piece → Bool
  | .start, _ => true
  | .word _, [] => true
  | .op _, .given _ :: _ => true
  | .op _, .listed _ :: _ => true
  | .op _, .sent _ :: _ => true
  | _, _ => false

def spaceFollows : List Piece → Bool
  | .sql text :: _ => text.head?.any isSpace
  | _ => false

/-- Only text and values of the program stand before the end of the line, and
it closes. -/
def lineCloses : List Piece → Bool
  | [] => true
  | .sql text :: ps =>
    match text.dropWhile fun c => !isNewline c with
    | [] => lineCloses ps
    | cs =>
      match cs.dropWhile isSpace with
      | c :: _ => c ≠ quote && c ≠ '-'
      | [] => false
  | .given _ :: ps => lineCloses ps
  | _ => false

/-- A value that is sent is followed by one of the program, or by none. -/
def guarded : List Piece → Bool
  | [] => true
  | [.sql text] => quote ∉ text && lineCloses [.sql text]
  | .sql text :: .given value :: ps =>
    quote ∉ text && text ≠ [] && lineCloses (.sql text :: .given value :: ps) && lineCloses ps
  | _ => false

def Assembled : List Piece → Bool
  | [] => true
  | .sql text :: ps => nul ∉ text && separate (run .start text).1 ps && Assembled ps
  | .numeral _ :: ps => spaceFollows ps && Assembled ps
  | .given _ :: ps => afterValue ps && Assembled ps
  | .listed _ :: ps => afterValue ps && Assembled ps
  | .sent _ :: ps => afterValue ps && guarded ps && Assembled ps

/-- What `Assembled` asks of a piece and those behind it. -/
def apart : Piece → List Piece → Bool
  | .sql text, ps => separate (run .start text).1 ps
  | .numeral _, ps => spaceFollows ps
  | .given _, ps | .listed _, ps | .sent _, ps => afterValue ps

theorem render_cons (p : Piece) (ps : List Piece) : render (p :: ps) = p.text ++ render ps := rfl

theorem tokens_cons (p : Piece) (ps : List Piece) : tokens (p :: ps) = p.tokens ++ tokens ps := rfl

theorem assembled_tail {p : Piece} {ps : List Piece} (h : Assembled (p :: ps) = true) : Assembled ps = true := by
  cases p <;> simp only [Assembled, Bool.and_eq_true] at h <;> exact h.2

theorem assembled_apart {p : Piece} {ps : List Piece} (h : Assembled (p :: ps) = true) : apart p ps = true := by
  cases p with
  | sql text =>
    simp only [Assembled, Bool.and_eq_true] at h
    exact h.1.2
  | sent value =>
    simp only [Assembled, Bool.and_eq_true] at h
    exact h.1.1
  | _ =>
    simp only [Assembled, Bool.and_eq_true] at h
    exact h.1

theorem closes_of_afterValue {ps : List Piece} (h : afterValue ps = true) : Closes (render ps) := by
  cases ps with
  | nil => intro c hc; cases hc
  | cons p ps =>
    cases p with
    | sql text =>
      rw [render_cons]
      simp only [afterValue] at h
      cases hdrop : text.dropWhile isSpace with
      | nil =>
        rw [hdrop] at h
        have hps : ps = [] := by simpa using h
        subst hps
        intro c hc
        have hnil : (Piece.sql text).text ++ render [] = text := List.append_nil _
        rw [hnil, hdrop] at hc
        cases hc
      | cons c cs =>
        rw [hdrop] at h
        exact closes_append hdrop (by simpa using h) _
    | _ => cases h

section
variable {beyond : List Char → Option (List Token)}

/-! ## Plain values -/

theorem lexFrom_sql {text : List Char} {ps : List Piece} (h : separate (run .start text).1 ps = true) :
    lexFrom beyond .start (text ++ render ps) = (lexFrom beyond .start (render ps)).map (ownTokens text ++ ·) := by
  rw [lexFrom_append, ownTokens]
  cases hm : (run .start text).1 with
  | start => simp only [flush, Option.getD_some, List.append_nil]
  | word cs =>
    rw [hm] at h
    cases ps with
    | nil => simp [render, lexFrom, run, flush]
    | cons p ps => cases p <;> cases h
  | op cs =>
    rw [hm] at h
    have hstep : step (.op cs) quote = stepAfter (.op cs) quote := rfl
    have hflush : lexFrom beyond (.op cs) (render ps) = (lexFrom beyond .start (render ps)).map (.op cs :: ·) := by
      cases ps with
      | nil => cases h
      | cons p ps =>
        cases p with
        | given value => exact lexFrom_stepAfter hstep _
        | listed value => exact lexFrom_stepAfter hstep _
        | sent value => exact lexFrom_stepAfter hstep _
        | _ => cases h
    rw [hflush, Option.map_map]
    simp only [flush, Option.getD_some, List.append_assoc, List.singleton_append, Function.comp_def]
  | _ => rw [hm] at h; cases h

/-- **One piece.** -/
theorem lexFrom_piece {p : Piece} {ps : List Piece} (h : apart p ps = true) (htrusted : p.Trusted)
    (hsent : ∀ value, p = .sent value → quote ∉ value) :
    lexFrom beyond .start (render (p :: ps)) = (lexFrom beyond .start (render ps)).map (p.tokens ++ ·) := by
  cases p with
  | sql text => exact lexFrom_sql h
  | numeral cs =>
    cases ps with
    | nil => cases h
    | cons p ps =>
      cases p with
      | sql text =>
        obtain ⟨c, hhead, hc⟩ := (Option.any_eq_true _ _).1 h
        obtain ⟨ds, htext⟩ := List.head?_eq_some_iff.1 hhead
        have hrender : render (.sql text :: ps) = c :: (ds ++ render ps) := by
          rw [render_cons, Piece.text, htext, List.cons_append]
        rw [render_cons, hrender]
        exact lexFrom_numeral htrusted hc _
      | _ => cases h
  | given value => exact lexFrom_quoted htrusted.plain.1 (closes_of_afterValue h)
  | listed value => exact lexFrom_quoted htrusted.1 (closes_of_afterValue h)
  | sent value => exact lexFrom_quoted (hsent value rfl) (closes_of_afterValue h)

/-! ## Statements -/

theorem lineCloses_render {ps : List Piece} (h : lineCloses ps = true) (htrusted : ∀ p ∈ ps, p.Trusted) :
    LineCloses (render ps) := by
  induction ps with
  | nil =>
    intro c hc
    cases hc
  | cons p ps ih =>
    rw [List.forall_mem_cons] at htrusted
    cases p with
    | sql text =>
      rw [render_cons, Piece.text]
      simp only [lineCloses] at h
      cases hdrop : text.dropWhile fun c => !isNewline c with
      | nil =>
        rw [hdrop] at h
        refine lineCloses_append (fun c hc => ?_) (ih h htrusted.2)
        simpa using List.dropWhile_eq_nil_iff.1 hdrop c hc
      | cons c cs =>
        rw [hdrop] at h
        have hne : text.dropWhile (fun c => !isNewline c) ≠ [] := by
          rw [hdrop]
          exact List.cons_ne_nil _ _
        unfold LineCloses
        rw [dropWhile_append_of_ne hne, hdrop]
        cases hspace : (c :: cs).dropWhile isSpace with
        | nil =>
          simp only [hspace] at h
          cases h
        | cons d ds =>
          simp only [hspace] at h
          exact closes_append hspace (by simpa using h) _
    | given value =>
      have hquoted : ∀ c ∈ quoted value, isNewline c = false := by
        intro c hc
        simp only [quoted, List.mem_cons, List.mem_append, List.not_mem_nil, or_false] at hc
        rcases hc with rfl | hc | rfl
        · rfl
        · exact htrusted.1.oneLine c hc
        · rfl
      exact lineCloses_append hquoted (ih h htrusted.2)
    | _ => cases h

theorem guarded_cases {ps : List Piece} (h : guarded ps = true) :
    (∃ text value ps', ps = .sql text :: .given value :: ps' ∧
      ((quote ∉ text ∧ text ≠ []) ∧ lineCloses (.sql text :: .given value :: ps') = true) ∧
        lineCloses ps' = true) ∨ quote ∉ render ps ∧ lineCloses ps = true := by
  unfold guarded at h
  split at h
  · exact .inr ⟨List.not_mem_nil, rfl⟩
  · rename_i text
    simp only [Bool.and_eq_true, decide_eq_true_eq] at h
    exact .inr ⟨by simpa [render, Piece.text] using h.1, h.2⟩
  · rename_i text value ps'
    simp only [Bool.and_eq_true, decide_eq_true_eq] at h
    exact .inl ⟨text, value, ps', rfl, h⟩
  · cases h

/-- A value with a quote that stands where it is guarded. -/
theorem opens_sent {s : List Char} {ps : List Piece} (h : Assembled (.sent s :: ps) = true)
    (htrusted : ∀ p ∈ ps, p.Trusted) (hs : quote ∈ s) :
    ∃ x, x ≠ s ∧ Opens x (lexFrom beyond .start (render (.sent s :: ps))) := by
  simp only [Assembled, Bool.and_eq_true] at h
  obtain ⟨⟨hafter, hguarded⟩, -⟩ := h
  obtain ⟨text, value, ps, rfl, ⟨⟨hsep, hne⟩, hline⟩, hds⟩ | ⟨hlast, hline⟩ := guarded_cases hguarded
  · have hvalue : Line value := htrusted (.given value) (by simp)
    exact opens_other hs hsep hne (closes_of_afterValue hafter) hvalue (lineCloses_render hline htrusted)
      (lineCloses_render hds fun p hp => htrusted p (by simp [hp]))
  · exact opens_last hs hlast (closes_of_afterValue hafter) (lineCloses_render hline htrusted)

theorem literals_append (ts us : List Token) : literals (ts ++ us) = literals ts ++ literals us :=
  List.filterMap_append

/-- With the literals that are meant, no value has a quote. -/
theorem sent_quote {ps : List Piece} (h : Assembled ps = true) (htrusted : ∀ p ∈ ps, p.Trusted)
    (hlit : (lexFrom beyond .start (render ps)).map literals = some (literals (tokens ps))) :
    ∀ value, .sent value ∈ ps → quote ∉ value := by
  induction ps with
  | nil =>
    intro value hmem
    cases hmem
  | cons p ps ih =>
    rw [List.forall_mem_cons] at htrusted
    have hhead : ∀ value, p = .sent value → quote ∉ value := by
      rintro value rfl hquote
      obtain ⟨x, hx, hopens⟩ := opens_sent h htrusted.2 hquote
      obtain ⟨ts, hts, hlits⟩ := Option.map_eq_some_iff.1 hlit
      obtain ⟨us, rfl⟩ := hopens ts hts
      exact hx (List.cons.inj hlits).1
    have hrest : (lexFrom beyond .start (render ps)).map literals = some (literals (tokens ps)) := by
      rw [lexFrom_piece (assembled_apart h) htrusted.1 hhead, Option.map_map] at hlit
      obtain ⟨ts, hts, hlits⟩ := Option.map_eq_some_iff.1 hlit
      rw [Function.comp_apply, tokens_cons, literals_append, literals_append, List.append_cancel_left_eq] at hlits
      rw [hts, Option.map_some, hlits]
    intro value hmem
    obtain hp | hps := List.mem_cons.1 hmem
    · exact hhead value hp.symm
    · exact ih (assembled_tail h) htrusted.2 hrest value hps

theorem lexFrom_render {ps : List Piece} (h : Assembled ps = true) (htrusted : ∀ p ∈ ps, p.Trusted)
    (hsent : ∀ value, .sent value ∈ ps → quote ∉ value) :
    lexFrom beyond .start (render ps) = some (tokens ps) := by
  induction ps with
  | nil => rfl
  | cons p ps ih =>
    rw [List.forall_mem_cons] at htrusted
    have hhead : ∀ value, p = .sent value → quote ∉ value := by
      rintro value rfl
      exact hsent value List.mem_cons_self
    rw [lexFrom_piece (assembled_apart h) htrusted.1 hhead,
      ih (assembled_tail h) htrusted.2 fun value hmem => hsent value (List.mem_cons_of_mem _ hmem), Option.map_some]
    rfl

end

theorem nul_piece {p : Piece} {ps : List Piece} (h : Assembled (p :: ps) = true) (htrusted : p.Trusted) :
    nul ∉ p.text ↔ ∀ value, p = .sent value → nul ∉ value := by
  have hquote : nul ≠ quote := by decide
  cases p with
  | sql text =>
    simp only [Assembled, Bool.and_eq_true, decide_eq_true_eq] at h
    simp [Piece.text, h.1.1]
  | numeral cs => simp [Piece.text, numeral_nul htrusted]
  | given value => simp [Piece.text, mem_quoted, hquote, htrusted.plain.2]
  | listed value => simp [Piece.text, mem_quoted, hquote, htrusted.2]
  | sent value => simp [Piece.text, mem_quoted, hquote]

theorem nul_render {ps : List Piece} (h : Assembled ps = true) (htrusted : ∀ p ∈ ps, p.Trusted) :
    nul ∉ render ps ↔ ∀ value, .sent value ∈ ps → nul ∉ value := by
  induction ps with
  | nil => simp [render]
  | cons p ps ih =>
    rw [List.forall_mem_cons] at htrusted
    rw [render_cons, List.mem_append, not_or, nul_piece h htrusted.1, ih (assembled_tail h) htrusted.2]
    simp only [List.mem_cons]
    constructor
    · rintro ⟨hhead, hrest⟩ value (hp | hps)
      · exact hhead value hp.symm
      · exact hrest value hps
    · exact fun hall => ⟨fun value hp => hall value (.inl hp.symm), fun value hps => hall value (.inr hps)⟩

section
variable {beyond : List Char → Option (List Token)} {ps : List Piece} (h : Assembled ps = true)
  (htrusted : ∀ p ∈ ps, p.Trusted)
include h htrusted

/-- **Plain values stay literals**: the statement is the one that is meant. -/
theorem lex_render (hsent : ∀ value, .sent value ∈ ps → Plain value) :
    lex beyond (render ps) = some (tokens ps) := by
  have hnul : nul ∉ render ps := (nul_render h htrusted).2 fun value hmem => (hsent value hmem).2
  rw [lex, if_neg hnul]
  exact lexFrom_render h htrusted fun value hmem => (hsent value hmem).1

/-- **No other value does**: already the literals of the statement are not
those that are meant. -/
theorem sent_plain_of_literals (hlit : (lex beyond (render ps)).map literals = some (literals (tokens ps))) :
    ∀ value, .sent value ∈ ps → Plain value := by
  by_cases hnul : nul ∈ render ps
  · rw [lex, if_pos hnul] at hlit
    cases hlit
  · rw [lex, if_neg hnul] at hlit
    exact fun value hmem =>
      ⟨sent_quote h htrusted hlit value hmem, (nul_render h htrusted).1 hnul value hmem⟩

/-- **Which statements keep their meaning.** -/
theorem lex_render_iff :
    lex beyond (render ps) = some (tokens ps) ↔ ∀ value, .sent value ∈ ps → Plain value := by
  constructor
  · intro hlex
    apply sent_plain_of_literals h htrusted
    rw [hlex, Option.map_some]
  · exact lex_render h htrusted

end

end Explorer.SqlText
