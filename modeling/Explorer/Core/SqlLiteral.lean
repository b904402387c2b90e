import Mathlib.Data.List.Count
import Explorer.Core.SqlText

/-!
# Literals with doubled quotes

A value of any kind is one literal once its quotes are doubled; what the
tokens of a text have lost of it can be counted.

* `lexFrom_doubled`: the literal is read back.
* `lex_text`: a text is that of its tokens, or has a character that no token
  has.
* `lex_spliced`: a text in the middle of a statement.
-/
namespace Explorer.SqlText

def doubled (value : List Char) : List Char := value.flatMap fun c => if c = quote then [quote, quote] else [c]

theorem doubled_cons (c : Char) (value : List Char) :
    doubled (c :: value) = (if c = quote then [quote, quote] else [c]) ++ doubled value := rfl

theorem doubled_concat (value : List Char) (c : Char) :
    doubled (value ++ [c]) = doubled value ++ if c = quote then [quote, quote] else [c] := by
  simp [doubled]

section
variable {beyond : List Char → Option (List Token)}

theorem run_doubled (value acc : List Char) : run (.literal acc) (doubled value) = (.literal (acc ++ value), []) := by
  induction value generalizing acc with
  | nil => simp [doubled, run]
  | cons c value ih =>
    rw [doubled_cons, run_append]
    by_cases hc : c = quote
    · subst hc
      have hrun : run (.literal acc) [quote, quote] = (.literal (acc ++ [quote]), []) := by simp [run, step]
      rw [if_pos rfl, hrun, ih]
      simp
    · have hrun : run (.literal acc) [c] = (.literal (acc ++ [c]), []) := by simp [run, step, hc]
      rw [if_neg hc, hrun, ih]
      simp

/-- **A value with its quotes doubled** is one literal. -/
theorem lexFrom_doubled {value cs : List Char} (h : Closes cs) :
    lexFrom beyond .start (quoted (doubled value) ++ cs) = (lexFrom beyond .start cs).map (.literal value :: ·) := by
  have hopen : step .start quote = (.literal [], []) := by decide
  have hclose : step (.literal value) quote = (.closed value, []) := by simp [step]
  rw [quoted, List.cons_append, lexFrom_silent hopen, List.append_assoc,
    lexFrom_silent_append (run_doubled value []), List.nil_append, List.singleton_append,
    lexFrom_silent hclose, lexFrom_closed h]

end

/-! ## What is lost -/

def Token.text : Token → List Char
  | .word cs | .op cs => cs
  | .punct c => [c]
  | .literal cs => quoted (doubled cs)

/-- What has been read of the current token, without the space and the
comments behind a literal. -/
def pending : Mode → List Char
  | .start | .comment => []
  | .word cs | .op cs | .beyond cs => cs
  | .dash => ['-']
  | .plus => ['+']
  | .literal cs => quote :: doubled cs
  | .closed cs | .gap cs _ | .gapComment cs => quoted (doubled cs)
  | .gapDash cs _ => quoted (doubled cs) ++ ['-']

def textOf (ts : List Token) : List Char := ts.flatMap Token.text

/-- The characters that are no quotes. -/
def weight (cs : List Char) : Nat := cs.countP (· ≠ quote)

theorem weight_append (xs ys : List Char) : weight (xs ++ ys) = weight xs + weight ys := List.countP_append

theorem weight_singleton {c : Char} (h : c ≠ quote) : weight [c] = 1 := by simp [weight, h]

/-- The text of what has been read of `s`. -/
def readText (r : Mode × List Token) : List Char := textOf r.2 ++ pending r.1

/-- Something has been lost where these modes begin. -/
def Mode.lossy : Mode → Bool
  | .comment | .gap _ _ | .gapComment _ => true
  | _ => false

/-- Nothing of `s` is lost, or a character that is no quote. -/
def Kept (s : List Char) (r : Mode × List Token) : Prop :=
  (r.1.lossy = false ∧ readText r = s) ∨ weight (readText r) < weight s

theorem Kept.le {s : List Char} {r : Mode × List Token} (h : Kept s r) : weight (readText r) ≤ weight s := by
  rcases h with ⟨-, h⟩ | h
  · rw [h]
  · exact h.le

/-- Complete tokens before what is kept. -/
theorem Kept.after {s : List Char} {r : Mode × List Token} (h : Kept s r) (ts : List Token) :
    Kept (textOf ts ++ s) (r.1, ts ++ r.2) := by
  have htext : readText (r.1, ts ++ r.2) = textOf ts ++ readText r := by
    simp [readText, textOf]
  rcases h with ⟨hlossy, h⟩ | h
  · exact .inl ⟨hlossy, by rw [htext, h]⟩
  · refine .inr ?_
    rw [htext, weight_append, weight_append]
    omega

/-- A character that is no quote is dropped. -/
theorem kept_dropped {s : List Char} {r : Mode × List Token} {c : Char} (h : readText r = s) (hc : c ≠ quote) :
    Kept (s ++ [c]) r := by
  refine .inr ?_
  rw [h, weight_append, weight_singleton hc]
  omega

theorem kept_stepStart (c : Char) : Kept [c] (stepStart c) := by
  unfold stepStart
  split
  · rename_i hspace
    exact kept_dropped (s := []) rfl (space_ne_quote hspace)
  · split
    · rename_i hquote
      exact .inl ⟨rfl, by rw [hquote]; rfl⟩
    · split
      · exact .inl ⟨rfl, rfl⟩
      · split
        · exact .inl ⟨rfl, rfl⟩
        · split
          · rename_i hdash
            exact .inl ⟨rfl, by rw [hdash]; rfl⟩
          · split
            · rename_i hplus
              exact .inl ⟨rfl, by rw [hplus]; rfl⟩
            · split
              · exact .inl ⟨rfl, rfl⟩
              · exact .inl ⟨rfl, rfl⟩

theorem kept_stepAfter (t : Token) (c : Char) : Kept (t.text ++ [c]) (stepAfter t c) := by
  have h := (kept_stepStart c).after [t]
  simpa [textOf, stepAfter] using h

theorem kept_stepDash (c : Char) : Kept ['-', c] (stepDash c) := by
  unfold stepDash
  split
  · rename_i hdash
    refine .inr ?_
    rw [hdash]
    decide
  · split
    · exact .inl ⟨rfl, rfl⟩
    · exact kept_stepAfter (.op ['-']) c

theorem kept_stepPlus (c : Char) : Kept ['+', c] (stepPlus c) := by
  unfold stepPlus
  split
  · exact .inl ⟨rfl, rfl⟩
  · exact kept_stepAfter (.op ['+']) c

theorem kept_stepGap (cs : List Char) (newline : Bool) (c : Char) :
    Kept (quoted (doubled cs) ++ [c]) (stepGap cs newline c) := by
  unfold stepGap
  split
  · rename_i hspace
    exact kept_dropped rfl (space_ne_quote hspace)
  · split
    · rename_i hdash
      exact .inl ⟨rfl, by rw [hdash]; rfl⟩
    · exact kept_stepAfter (.literal cs) c

theorem kept_step {m : Mode} (hm : m.lossy = false) (c : Char) : Kept (pending m ++ [c]) (step m c) := by
  cases m with
  | start => exact kept_stepStart c
  | word cs =>
    simp only [step]
    split
    · exact .inl ⟨rfl, rfl⟩
    · split
      · exact .inl ⟨rfl, rfl⟩
      · exact kept_stepAfter (.word cs) c
  | op cs =>
    simp only [step]
    split
    · exact .inl ⟨rfl, rfl⟩
    · split
      · exact .inl ⟨rfl, rfl⟩
      · exact kept_stepAfter (.op cs) c
  | dash => exact kept_stepDash c
  | plus => exact kept_stepPlus c
  | literal cs =>
    simp only [step]
    split
    · rename_i hquote
      exact .inl ⟨rfl, by rw [hquote]; rfl⟩
    · rename_i hquote
      refine .inl ⟨rfl, ?_⟩
      simp [readText, textOf, pending, doubled_concat, hquote]
  | closed cs =>
    simp only [step]
    split
    · rename_i hquote
      refine .inl ⟨rfl, ?_⟩
      simp [readText, textOf, pending, doubled_concat, hquote, quoted]
    · exact kept_stepGap cs false c
  | gapDash cs newline =>
    simp only [step]
    split
    · rename_i hdash
      refine .inr ?_
      rw [hdash]
      simp only [readText, textOf, pending, weight_append, List.flatMap_nil, List.nil_append,
        weight_singleton (show '-' ≠ quote by decide)]
      omega
    · have h := (kept_stepDash c).after [.literal cs]
      simpa [textOf, pending, Token.text] using h
  | beyond cs => exact .inl ⟨rfl, rfl⟩
  | _ => cases hm

/-- Behind what is lost, nothing is added. -/
theorem weight_step {m : Mode} (hm : m.lossy = true) (c : Char) :
    weight (readText (step m c)) ≤ weight (pending m ++ [c]) := by
  cases m with
  | comment =>
    simp only [step]
    split
    · exact Nat.zero_le _
    · exact Nat.zero_le _
  | gap cs newline =>
    simp only [step]
    split
    · rw [weight_append]
      simp [readText, textOf, pending, quoted, weight]
    · exact (kept_stepGap cs newline c).le
  | gapComment cs =>
    simp only [step, weight_append]
    split
    · exact Nat.le_add_right _ _
    · exact Nat.le_add_right _ _
  | _ => cases hm

theorem kept_run (s : List Char) : Kept s (run .start s) := by
  induction s using List.reverseRecOn with
  | nil => exact .inl ⟨rfl, rfl⟩
  | append_singleton s c ih =>
    rw [run_concat]
    have hsplit : readText ((step (run .start s).1 c).1, (run .start s).2 ++ (step (run .start s).1 c).2) =
        textOf (run .start s).2 ++ readText (step (run .start s).1 c) := by
      simp [readText, textOf]
    have hle : weight (readText (step (run .start s).1 c)) ≤ weight (pending (run .start s).1 ++ [c]) := by
      cases hm : (run .start s).1.lossy with
      | true => exact weight_step hm c
      | false => exact (kept_step hm c).le
    rcases ih with ⟨hm, hs⟩ | hless
    · have hstep := (kept_step hm c).after (run .start s).2
      rw [← List.append_assoc] at hstep
      rwa [show textOf (run .start s).2 ++ pending (run .start s).1 = s from hs] at hstep
    · refine .inr ?_
      rw [hsplit, weight_append]
      rw [weight_append] at hle
      rw [readText, weight_append] at hless
      rw [weight_append]
      omega

/-- **Nothing is lost** of a text whose tokens have all its characters that
are no quotes: the text is theirs. -/
theorem lex_text {s : List Char} {ts : List Token} (h : lex (fun _ => none) s = some ts)
    (hweight : weight (textOf ts) = weight s) : textOf ts = s := by
  unfold lex at h
  split at h
  · cases h
  · have hread : textOf ts = readText (run .start s) := by
      unfold lexFrom at h
      obtain ⟨us, hus, rfl⟩ := Option.map_eq_some_iff.1 h
      unfold flush at hus
      split at hus <;> cases hus <;> rename_i hm <;> simp [readText, hm, textOf, pending, Token.text]
    rw [hread] at hweight ⊢
    rcases kept_run s with ⟨-, hs⟩ | hless
    · exact hs
    · omega

/-! ## A text in the middle of a statement -/

/-- The pieces `pre` are apart from each other and from `ps`. -/
def joined : List Piece → List Piece → Bool
  | [], _ => true
  | p :: pre, ps => apart p (pre ++ ps) && joined pre ps

theorem render_append (ps qs : List Piece) : render (ps ++ qs) = render ps ++ render qs := List.flatMap_append

theorem tokens_append (ps qs : List Piece) : tokens (ps ++ qs) = tokens ps ++ tokens qs := List.flatMap_append

section
variable {beyond : List Char → Option (List Token)} {pre : List Piece}

theorem lexFrom_joined {ps : List Piece} (h : joined pre ps = true) (htrusted : ∀ p ∈ pre, p.Trusted)
    (hsent : ∀ value, .sent value ∈ pre → quote ∉ value) :
    lexFrom beyond .start (render (pre ++ ps)) = (lexFrom beyond .start (render ps)).map (tokens pre ++ ·) := by
  induction pre with
  | nil => simp [tokens]
  | cons p pre ih =>
    simp only [joined, Bool.and_eq_true] at h
    rw [List.forall_mem_cons] at htrusted
    have hhead : ∀ value, p = .sent value → quote ∉ value := by
      rintro value rfl
      exact hsent value List.mem_cons_self
    rw [List.cons_append, lexFrom_piece h.1 htrusted.1 hhead,
      ih h.2 htrusted.2 fun value hmem => hsent value (List.mem_cons_of_mem p hmem), Option.map_map]
    simp only [tokens_cons, Function.comp_def, List.append_assoc]

/-- **Spliced text.** A text that has the tokens `ts` in front of any rest has
them in the statement. -/
theorem lex_spliced {post : List Piece} {text : List Char} {ts : List Token} (hpre : Assembled pre = true)
    (hjoined : ∀ rest, joined pre [.sql rest] = true) (hafter : afterValue post = true)
    (hpost : Assembled post = true) (htrusted : ∀ p ∈ pre ++ post, p.Trusted)
    (hsent : ∀ value, .sent value ∈ pre ++ post → Plain value) (hnul : nul ∉ text)
    (htext : ∀ rest, Closes rest →
      lexFrom beyond .start (text ++ rest) = (lexFrom beyond .start rest).map (ts ++ ·)) :
    lex beyond (render (pre ++ [.sql text] ++ post)) = some (tokens pre ++ ts ++ tokens post) := by
  rw [List.forall_mem_append] at htrusted
  have hsentPre : ∀ value, .sent value ∈ pre → Plain value := fun value hmem =>
    hsent value (List.mem_append_left post hmem)
  have hsentPost : ∀ value, .sent value ∈ post → Plain value := fun value hmem =>
    hsent value (List.mem_append_right pre hmem)
  have hnulPre : nul ∉ render pre := (nul_render hpre htrusted.1).2 fun value hmem => (hsentPre value hmem).2
  have hnulPost : nul ∉ render post := (nul_render hpost htrusted.2).2 fun value hmem => (hsentPost value hmem).2
  have hrest : lexFrom beyond .start (render post) = some (tokens post) :=
    lexFrom_render hpost htrusted.2 fun value hmem => (hsentPost value hmem).1
  have hsplit : render (pre ++ [.sql text] ++ post) = render (pre ++ [.sql (text ++ render post)]) := by
    simp [render, Piece.text]
  have hnulAll : nul ∉ render (pre ++ [.sql text] ++ post) := by
    simp [render_append, render_cons, Piece.text, hnulPre, hnul, hnulPost]
  rw [lex, if_neg hnulAll, hsplit,
    lexFrom_joined (hjoined _) htrusted.1 fun value hmem => (hsentPre value hmem).1]
  have hone : render [.sql (text ++ render post)] = text ++ render post := List.append_nil _
  rw [hone, htext _ (closes_of_afterValue hafter), hrest]
  simp

end

end Explorer.SqlText
