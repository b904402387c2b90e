import Explorer.Core.SqlLiteral
import Explorer.Fabric.Statements

/-!
# `orgsArrayToString`

The organisations of a request are joined with commas, split at the commas and
put between quotes (`spread`). A comma in a name becomes `','` and a quote is
not doubled, so that a name is read back where the two come together: the text
`','` in a name becomes a quote that is doubled, a comma and another one.

* `lexFrom_listed`: a list of literals is read back.
* `together_of_spread`: where spreading a name doubles its quotes.
* `orgs_filter_iff`: the names that the filter means.
-/
namespace Explorer.Fabric.OrgFilter

open SqlText Statements Query

/-! ## The text -/

/-- `req.query`: a key with one value has a string, one with several an array. -/
abbrev Params := List (String × List String)

/-- The package `query-string`. -/
structure QueryString where
  stringify : Params → String
  parse : String → Params

/-- The organisations that are written are read back. -/
structure QueryString.RoundTrips (Q : QueryString) (reqQuery : Params) : Prop where
  written : Q.stringify reqQuery ≠ ""
  read : (Q.parse (Q.stringify reqQuery)).lookup "orgs" = reqQuery.lookup "orgs"

/-- `orgs.toString().split(',')` -/
def orgsArray (orgs : List String) : List (List Char) :=
  (List.intercalate [','] (orgs.map String.toList)).splitOn ','

/-- An empty string is no list of organisations.
mirrors app/rest/requestutils.js:92-117 -/
def orgsArrayToString (Q : QueryString) (reqQuery : Params) : List Char :=
  if Q.stringify reqQuery = "" then []
  else
    match (Q.parse (Q.stringify reqQuery)).lookup "orgs" with
    | none => []
    | some orgs => if orgs = [""] then [] else List.intercalate [','] ((orgsArray orgs).map quoted)

/-- What becomes of a name inside the quotes. -/
def spread (name : List Char) : List Char := name.flatMap fun c => if c = ',' then [quote, ',', quote] else [c]

theorem spread_cons (c : Char) (name : List Char) :
    spread (c :: name) = (if c = ',' then [quote, ',', quote] else [c]) ++ spread name := rfl

/-- Between two names. -/
def separator : List Char := [quote, ',', quote]

theorem intercalate_splitOn (cs : List Char) :
    List.intercalate [','] ((cs.splitOn ',').map quoted) = quoted (spread cs) := by
  induction cs with
  | nil => rfl
  | cons c cs ih =>
    obtain ⟨ys, yss, hsplit⟩ := List.exists_cons_of_ne_nil (List.splitOn_ne_nil ',' cs)
    rw [List.splitOn_cons_eq_if_modifyHead]
    rw [hsplit] at ih ⊢
    by_cases hc : c = ','
    · rw [if_pos (by simpa using hc), List.map_cons, List.map_cons, List.intercalate_cons_cons, ← List.map_cons, ih,
        spread_cons, if_pos hc]
      rfl
    · rw [if_neg (by simpa using hc), List.modifyHead_cons, spread_cons, if_neg hc]
      cases yss with
      | nil =>
        simp only [List.map_cons, List.map_nil, List.intercalate_singleton, quoted] at ih ⊢
        rw [List.cons_append, (List.cons.inj ih).2]
        rfl
      | cons zs zss =>
        simp only [List.map_cons, List.intercalate_cons_cons, quoted, List.cons_append] at ih ⊢
        rw [(List.cons.inj ih).2]
        rfl

theorem intercalate_map_cons_cons {α β : Type} (sep : List β) (f : α → List β) (a b : α) (as : List α) :
    List.intercalate sep ((a :: b :: as).map f) = f a ++ sep ++ List.intercalate sep ((b :: as).map f) :=
  List.intercalate_cons_cons

/-- Spreading goes name by name. -/
theorem spread_intercalate (names : List (List Char)) :
    spread (List.intercalate [','] names) = List.intercalate separator (names.map spread) := by
  induction names with
  | nil => rfl
  | cons name names ih =>
    cases names with
    | nil => simp
    | cons next names =>
      have happend : ∀ xs ys, spread (xs ++ ys) = spread xs ++ spread ys := fun _ _ => List.flatMap_append
      rw [List.intercalate_cons_cons, happend, happend, ih, intercalate_map_cons_cons]
      rfl

/-! ## The list that is meant -/

/-- The names as literals, with commas between them. -/
def listed (names : List (List Char)) : List Piece := (names.map Piece.listed).intersperse (.sql [','])

theorem listed_cons_cons (name next : List Char) (names : List (List Char)) :
    tokens (listed (name :: next :: names)) = .literal name :: .punct ',' :: tokens (listed (next :: names)) := rfl

/-- A list of well-formed literals. -/
theorem lexFrom_listed {beyond : List Char → Option (List Token)} {names : List (List Char)} (hne : names ≠ [])
    {rest : List Char} (hrest : Closes rest) :
    lexFrom beyond .start (List.intercalate [','] (names.map fun name => quoted (doubled name)) ++ rest) =
      (lexFrom beyond .start rest).map (tokens (listed names) ++ ·) := by
  induction names with
  | nil => exact absurd rfl hne
  | cons name names ih =>
    cases names with
    | nil =>
      rw [List.map_singleton, List.intercalate_singleton, lexFrom_doubled hrest]
      rfl
    | cons next names =>
      have hcomma : step .start ',' = (.start, [.punct ',']) := by decide
      have hcloses : ∀ cs, Closes (',' :: cs) := fun cs => closes_append (rfl : [','].dropWhile isSpace = [','])
        ⟨by decide, by decide⟩ cs
      rw [intercalate_map_cons_cons, List.append_assoc, List.append_assoc, List.singleton_append,
        lexFrom_doubled (hcloses _), lexFrom_cons, hcomma, ih (List.cons_ne_nil next names), listed_cons_cons,
        Option.map_map, Option.map_map]
      rfl

/-- The quotes that are doubled are those between the names too. -/
theorem intercalate_quoted {names : List (List Char)} (hne : names ≠ []) :
    List.intercalate [','] (names.map fun name => quoted (doubled name)) =
      quoted (List.intercalate separator (names.map doubled)) := by
  induction names with
  | nil => exact absurd rfl hne
  | cons name names ih =>
    cases names with
    | nil => simp [quoted]
    | cons next names =>
      rw [intercalate_map_cons_cons, ih (List.cons_ne_nil next names), intercalate_map_cons_cons]
      simp [quoted, separator]

theorem textOf_listed (names : List (List Char)) :
    textOf (tokens (listed names)) = List.intercalate [','] (names.map fun name => quoted (doubled name)) := by
  induction names with
  | nil => rfl
  | cons name names ih =>
    cases names with
    | nil => simp [listed, tokens, Piece.tokens, textOf, Token.text]
    | cons next names =>
      rw [listed_cons_cons, intercalate_map_cons_cons, ← ih]
      simp [textOf, Token.text]

/-! ## Names that are read back -/

/-- Quotes and commas come only together, a comma between two quotes. -/
inductive Together : List Char → Prop where
  | nil : Together []
  | cons (c : Char) (cs : List Char) : c ≠ quote → c ≠ ',' → Together cs → Together (c :: cs)
  | comma (cs : List Char) : Together cs → Together (quote :: ',' :: quote :: cs)

theorem Together.spread_eq {name : List Char} (h : Together name) : spread name = doubled name := by
  induction h with
  | nil => rfl
  | cons c cs hquote hcomma _ ih => rw [spread_cons, doubled_cons, if_neg hcomma, if_neg hquote, ih]
  | comma cs _ ih =>
    simp [spread_cons, doubled_cons, ih, show quote ≠ ',' by decide, show ',' ≠ quote by decide]

/-- What follows a name in the two texts. -/
def Tails (xs ys : List Char) : Prop :=
  (xs = [] ∧ ys = []) ∨ ∃ xs' ys', xs = separator ++ xs' ∧ ys = separator ++ ys'

theorem comma_ne_quote : (',' : Char) ≠ quote := by decide

/-- The doubled text is ahead by quotes: it must be one, in front of a comma
and another quote. -/
theorem ahead {xs ys : List Char} (htails : Tails xs ys) {cs : List Char} {k : Nat}
    (h : spread cs ++ xs = List.replicate (k + 1) quote ++ (doubled cs ++ ys)) :
    ∃ es, k = 0 ∧ cs = ',' :: quote :: es ∧ spread es ++ xs = doubled es ++ ys := by
  induction cs generalizing k with
  | nil =>
    exfalso
    rcases htails with ⟨rfl, rfl⟩ | ⟨xs', ys', rfl, rfl⟩
    · cases h
    · have htail := (List.cons.inj h).2
      cases k with
      | zero => exact comma_ne_quote (List.cons.inj htail).1
      | succ k => exact comma_ne_quote (List.cons.inj htail).1
  | cons c cs ih =>
    by_cases hquote : c = quote
    · subst hquote
      have hnext : spread cs ++ xs = List.replicate (k + 1 + 1) quote ++ (doubled cs ++ ys) := by
        have hhead : spread (quote :: cs) ++ xs = quote :: (spread cs ++ xs) := rfl
        rw [hhead, List.replicate_succ, List.cons_append, doubled_cons, if_pos rfl] at h
        have htail := (List.cons.inj h).2
        rw [htail, List.replicate_succ', List.replicate_succ']
        simp
      obtain ⟨es, hk, -⟩ := ih hnext
      cases hk
    · by_cases hcomma : c = ','
      · subst hcomma
        have htail := (List.cons.inj h).2
        cases k with
        | zero =>
          have hbehind : quote :: (spread cs ++ xs) = doubled cs ++ ys := (List.cons.inj htail).2
          cases cs with
          | nil =>
            exfalso
            rcases htails with ⟨rfl, rfl⟩ | ⟨xs', ys', rfl, rfl⟩
            · cases hbehind
            · exact comma_ne_quote (List.cons.inj (List.cons.inj hbehind).2).1.symm
          | cons e es =>
            by_cases he : e = quote
            · subst he
              refine ⟨es, rfl, rfl, ?_⟩
              exact (List.cons.inj (List.cons.inj hbehind).2).2
            · rw [doubled_cons, if_neg he] at hbehind
              exact absurd (List.cons.inj hbehind).1.symm he
        | succ k => exact absurd (List.cons.inj htail).1 comma_ne_quote
      · rw [spread_cons, if_neg hcomma] at h
        exact absurd (List.cons.inj h).1 hquote

/-- **Where spreading a name doubles its quotes**, and nothing else. -/
theorem together_of_spread {xs ys : List Char} (htails : Tails xs ys) {name : List Char}
    (h : spread name ++ xs = doubled name ++ ys) : Together name ∧ xs = ys := by
  induction hn : name.length using Nat.strong_induction_on generalizing name with
  | _ n ih =>
    subst hn
    cases name with
    | nil => exact ⟨.nil, h⟩
    | cons c cs =>
      by_cases hquote : c = quote
      · subst hquote
        have hahead : spread cs ++ xs = List.replicate (0 + 1) quote ++ (doubled cs ++ ys) :=
          (List.cons.inj h).2
        obtain ⟨es, -, rfl, hsync⟩ := ahead htails hahead
        obtain ⟨htogether, htail⟩ := ih es.length (by simp only [List.length_cons]; omega) hsync rfl
        exact ⟨.comma es htogether, htail⟩
      · by_cases hcomma : c = ','
        · subst hcomma
          exact absurd (List.cons.inj h).1.symm comma_ne_quote
        · rw [spread_cons, doubled_cons, if_neg hcomma, if_neg hquote] at h
          obtain ⟨htogether, htail⟩ := ih cs.length (by simp) (List.cons.inj h).2 rfl
          exact ⟨.cons c cs hquote hcomma htogether, htail⟩

theorem together_of_intercalate {names : List (List Char)}
    (h : List.intercalate separator (names.map spread) = List.intercalate separator (names.map doubled)) :
    ∀ name ∈ names, Together name := by
  induction names with
  | nil => exact fun name hname => by cases hname
  | cons name names ih =>
    rw [List.forall_mem_cons]
    cases names with
    | nil =>
      have hone : spread name ++ [] = doubled name ++ [] := by simpa using h
      exact ⟨(together_of_spread (.inl ⟨rfl, rfl⟩) hone).1, fun name hname => by cases hname⟩
    | cons next names =>
      rw [intercalate_map_cons_cons, intercalate_map_cons_cons, List.append_assoc, List.append_assoc] at h
      obtain ⟨htogether, htail⟩ := together_of_spread (.inr ⟨_, _, rfl, rfl⟩) h
      exact ⟨htogether, ih (List.append_cancel_left htail)⟩

/-- A name that is read back. -/
structure Faithful (name : List Char) : Prop where
  together : Together name
  nul : nul ∉ name

theorem mem_spread {c : Char} (h : c ≠ quote) {name : List Char} : c ∈ spread name ↔ c ∈ name := by
  simp only [spread, List.mem_flatMap]
  constructor
  · rintro ⟨d, hd, hc⟩
    split at hc
    · rename_i hcomma
      simp only [List.mem_cons, h, List.not_mem_nil, or_false, false_or] at hc
      rwa [hc, ← hcomma]
    · rwa [List.mem_singleton.1 hc]
  · intro hc
    refine ⟨c, hc, ?_⟩
    split
    · rename_i hcomma
      simp [hcomma]
    · exact List.mem_singleton_self c

theorem nul_intercalate (names : List (List Char)) :
    nul ∉ List.intercalate separator (names.map spread) ↔ ∀ name ∈ names, nul ∉ name := by
  have hnul : ∀ name, nul ∈ spread name ↔ nul ∈ name := fun name => mem_spread (by decide)
  have hseparator : nul ∉ separator := by decide
  induction names with
  | nil => simp [List.intercalate_nil]
  | cons name names ih =>
    cases names with
    | nil => simp [hnul]
    | cons next names =>
      rw [intercalate_map_cons_cons, List.mem_append, List.mem_append, not_or, not_or, List.forall_mem_cons, hnul]
      exact and_congr (and_iff_left hseparator) ih

theorem weight_quoted (value : List Char) : weight (quoted value) = weight value := by simp [weight, quoted]

theorem weight_flatMap {f : Char → List Char} (h : ∀ c, weight (f c) = weight [c]) (name : List Char) :
    weight (name.flatMap f) = weight name := by
  induction name with
  | nil => rfl
  | cons c name ih =>
    rw [List.flatMap_cons, weight_append, h, ih, ← weight_append]
    rfl

/-- Neither writes a character that is no quote. -/
theorem weight_intercalate (names : List (List Char)) :
    weight (List.intercalate separator (names.map doubled)) =
      weight (List.intercalate separator (names.map spread)) := by
  have hspread : ∀ name, weight (spread name) = weight name := weight_flatMap fun c => by
    split
    · rename_i hcomma
      rw [hcomma]
      decide
    · rfl
  have hdoubled : ∀ name, weight (doubled name) = weight name := weight_flatMap fun c => by
    split
    · rename_i hquote
      rw [hquote]
      decide
    · rfl
  induction names with
  | nil => rfl
  | cons name names ih =>
    cases names with
    | nil => simp [hspread, hdoubled]
    | cons next names =>
      rw [intercalate_map_cons_cons, intercalate_map_cons_cons, weight_append, weight_append, weight_append,
        weight_append, ih, hspread, hdoubled]

/-- The text between the quotes of the list. -/
def inner (names : List (List Char)) : List Char := List.intercalate separator (names.map spread)

theorem Faithful.inner_eq {names : List (List Char)} (h : ∀ name ∈ names, Faithful name) :
    inner names = List.intercalate separator (names.map doubled) := by
  rw [inner, List.map_congr_left fun name hname => (h name hname).together.spread_eq]

theorem nul_inner (names : List (List Char)) : nul ∉ quoted (inner names) ↔ ∀ name ∈ names, nul ∉ name := by
  rw [mem_quoted, not_or, inner, nul_intercalate]
  exact and_iff_right (by decide)

theorem lexFrom_inner {beyond : List Char → Option (List Token)} {names : List (List Char)} (hne : names ≠ [])
    (h : ∀ name ∈ names, Faithful name) {rest : List Char} (hrest : Closes rest) :
    lexFrom beyond .start (quoted (inner names) ++ rest) =
      (lexFrom beyond .start rest).map (tokens (listed names) ++ ·) := by
  rw [Faithful.inner_eq h, ← intercalate_quoted hne, lexFrom_listed hne hrest]

/-- **The names that are read back** from the text. -/
theorem lex_inner_iff {names : List (List Char)} (hne : names ≠ []) :
    (∀ beyond, lex beyond (quoted (inner names)) = some (tokens (listed names))) ↔
      ∀ name ∈ names, Faithful name := by
  constructor
  · intro h
    have hlex := h fun _ => none
    have hplain : nul ∉ quoted (inner names) := by
      intro hmem
      rw [lex, if_pos hmem] at hlex
      cases hlex
    have hmeant : textOf (tokens (listed names)) = quoted (List.intercalate separator (names.map doubled)) := by
      rw [textOf_listed, intercalate_quoted hne]
    have hweight : weight (textOf (tokens (listed names))) = weight (quoted (inner names)) := by
      rw [hmeant, weight_quoted, weight_quoted, weight_intercalate, inner]
    have htext := lex_text hlex hweight
    rw [hmeant] at htext
    have hsame : inner names = List.intercalate separator (names.map doubled) :=
      (List.append_cancel_right (List.cons.inj htext).2).symm
    exact fun name hname => ⟨together_of_intercalate hsame name hname, (nul_inner names).1 hplain name hname⟩
  · intro h beyond
    have hplain : nul ∉ quoted (inner names) := (nul_inner names).2 fun name hname => (h name hname).nul
    have hclose : Closes [] := fun c hc => by cases hc
    have hlex : lexFrom beyond .start (quoted (inner names) ++ []) = _ := lexFrom_inner hne h hclose
    rw [List.append_nil] at hlex
    rw [lex, if_neg hplain, hlex]
    simp [lexFrom, run, flush]

/-! ## The statements -/

/-- A request for one of the two lists. -/
inductive OrgRequest where
  | txList (channelGenesisHash blocknum txid : String)
  | blockAndTxList (channelGenesisHash : String)
  deriving DecidableEq, Repr

def OrgRequest.channelGenesisHash : OrgRequest → String
  | .txList hash _ _ | .blockAndTxList hash => hash

section
variable (J : Script) (V : Server) (networkName : String) (dates : Int × Int)

/-- mirrors app/rest/dbroutes.js:112-148, 217-251 -/
def OrgRequest.statement (orgs : List Piece) : OrgRequest → List Piece
  | .txList hash blocknum txid =>
    getTxList networkName hash (J.print (J.parseInt blocknum)) (J.print (txidOrZero J txid))
      (J.toISOString dates.1) (J.toISOString dates.2) orgs
  | .blockAndTxList hash =>
    getBlockAndTxList networkName hash (J.toISOString dates.1) (J.toISOString dates.2) orgs

/-- The answer to the statement for `orgs`, unfiltered for none. -/
def OrgRequest.meant (orgs : List String) (db : Tables) : OrgRequest → Answer
  | .txList hash blocknum txid =>
    match V.number (J.print (J.parseInt blocknum)), V.number (J.print (txidOrZero J txid)) with
    | some blockNum, some txid =>
      during dates fun «from» «to» =>
        Reads.getTxList networkName db hash blockNum.toNat txid.toNat «from» «to» orgs
    | _, _ => .rejected "column does not exist"
  | .blockAndTxList hash =>
    during dates fun «from» «to» => Reads.getBlockAndTxList networkName db hash «from» «to» orgs

/-- The parameter `orgs` of the two functions. -/
def spliced (orgs : List Char) : List Piece := if orgs = [] then [] else [.sql orgs]

/-- What PostgreSQL answers to the statement with the text `orgs`. -/
def OrgRequest.answer (orgs : List Char) (names : List String) (db : Tables) (r : OrgRequest) : Answer :=
  let text := render (r.statement J networkName dates (spliced orgs))
  if lex V.beyond text = some (tokens (r.statement J networkName dates (listed (names.map String.toList)))) then
    r.meant J V networkName dates names db
  else V.elsewhere (lex V.beyond text) db

/-- The database with the transactions of `names` alone. -/
def createdBy (names : List String) (db : Tables) : Tables :=
  { db with transactions := db.transactions.filter fun t => t.creatorMspId ∈ names }

end

/-- The text is a list of literals for `names`, and the statement with it
answers what the unfiltered one answers about their transactions. -/
structure FiltersBy (orgs : List Char) (names : List String) : Prop where
  literals : ∀ beyond, lex beyond orgs = some (tokens (listed (names.map String.toList)))
  rows : ∀ (J : Script) (V : Server) (networkName : String) (dates : Int × Int) (r : OrgRequest) (db : Tables),
    Line networkName.toList → Plain r.channelGenesisHash.toList →
      r.answer J V networkName dates orgs names db = r.meant J V networkName dates [] (createdBy names db)

/-! ## What the statements answer -/

theorem transactionsIn_createdBy (networkName : String) (names : List String) (db : Tables) (hash : String) :
    Reads.transactionsIn networkName (createdBy names db) hash =
      (Reads.transactionsIn networkName db hash).filter fun t => t.creatorMspId ∈ names := by
  simp only [Reads.transactionsIn, createdBy, List.filter_filter]
  exact List.filter_congr fun t _ => Bool.and_comm _ _

theorem byOrgs_of_ne_nil {names : List String} (hne : names ≠ []) (t : TransactionRecord) :
    Reads.byOrgs names t = decide (t.creatorMspId ∈ names) := by
  simp [Reads.byOrgs, hne]

/-- The condition `creator_msp_id in (…)` leaves the transactions of `names`. -/
theorem meant_createdBy (J : Script) (V : Server) (networkName : String) (dates : Int × Int)
    {names : List String} (hne : names ≠ []) (r : OrgRequest) (db : Tables) :
    r.meant J V networkName dates names db = r.meant J V networkName dates [] (createdBy names db) := by
  have hunfiltered : ∀ t, Reads.byOrgs [] t = true := fun t => rfl
  cases r with
  | txList hash blocknum txid =>
    have hchannel : (createdBy names db).channel = db.channel := rfl
    have hrows : ∀ blockNum txid «from» «to» : Nat,
        ((Reads.transactionsIn networkName db hash).filter fun t =>
          t.blockid ≥ blockNum ∧ t.id ≥ txid ∧ Reads.byOrgs names t ∧ «from» ≤ t.createdt ∧ t.createdt ≤ «to») =
        (Reads.transactionsIn networkName (createdBy names db) hash).filter fun t =>
          t.blockid ≥ blockNum ∧ t.id ≥ txid ∧ Reads.byOrgs [] t ∧ «from» ≤ t.createdt ∧ t.createdt ≤ «to» := by
      intro blockNum txid «from» «to»
      rw [transactionsIn_createdBy, List.filter_filter]
      refine List.filter_congr fun t _ => ?_
      rw [byOrgs_of_ne_nil hne, hunfiltered]
      by_cases hname : t.creatorMspId ∈ names <;> simp [hname]
    simp only [OrgRequest.meant, Reads.getTxList, Reads.withChannel, hchannel, hrows]
  | blockAndTxList hash =>
    have hrows : ∀ «from» «to» : Nat,
        ((Reads.transactionsIn networkName db hash).filter fun t =>
          Reads.byOrgs names t ∧ «from» ≤ t.createdt ∧ t.createdt ≤ «to») =
        (Reads.transactionsIn networkName (createdBy names db) hash).filter fun t =>
          Reads.byOrgs [] t ∧ «from» ≤ t.createdt ∧ t.createdt ≤ «to» := by
      intro «from» «to»
      rw [transactionsIn_createdBy, List.filter_filter]
      refine List.filter_congr fun t _ => ?_
      rw [byOrgs_of_ne_nil hne, hunfiltered]
      by_cases hname : t.creatorMspId ∈ names <;> simp [hname]
    have hchannel : Reads.channelIn networkName (createdBy names db) hash = Reads.channelIn networkName db hash := rfl
    have hblocks : Reads.blocksIn networkName (createdBy names db) hash = Reads.blocksIn networkName db hash := rfl
    simp only [OrgRequest.meant, Reads.getBlockAndTxList, hchannel, hblocks, hrows]

section
set_option maxRecDepth 4000
variable {J : Script} {networkName : String} (hnetwork : Line networkName.toList) {hash : String}
  (hhash : Plain hash.toList) {beyond : List Char → Option (List Token)} {orgs : List Char} {ts : List Piece}
  (hnul : nul ∉ orgs)
  (horgs : ∀ rest, Closes rest →
    lexFrom beyond .start (orgs ++ rest) = (lexFrom beyond .start rest).map (tokens ts ++ ·))
include hnetwork hhash hnul horgs

theorem lex_sqlTxListByOrgs {blockNum txid «from» «to» : List Char} (hblockNum : Numeral blockNum)
    (htxid : Numeral txid) (hfrom : Line «from») (hto : Line «to») :
    lex beyond (render (sqlTxListByOrgs networkName hash blockNum txid «from» «to» [.sql orgs])) =
      some (tokens (sqlTxListByOrgs networkName hash blockNum txid «from» «to» ts)) := by
  unfold sqlTxListByOrgs
  rw [tokens_append, tokens_append]
  refine lex_spliced ?_ (fun rest => ?_) ?_ ?_ ?_ ?_ hnul horgs
  · repeat rw [String.toList_ofList]
    rfl
  · repeat rw [String.toList_ofList]
    rfl
  · repeat rw [String.toList_ofList]
    rfl
  · repeat rw [String.toList_ofList]
    rfl
  · rw [List.forall_mem_append]
    simp only [List.forall_mem_cons, Piece.Trusted, hnetwork, hfrom, hto,
      hblockNum, htxid, List.not_mem_nil, IsEmpty.forall_iff, implies_true, true_and]
  · intro value hmem
    simp only [List.mem_append, List.mem_cons, Piece.sent.injEq, reduceCtorEq, List.not_mem_nil, false_or,
      or_false] at hmem
    exact hmem ▸ hhash

theorem lex_sqlBlockTxListByOrgs {«from» «to» : List Char} (hfrom : Line «from») (hto : Line «to») :
    lex beyond (render (sqlBlockTxListByOrgs networkName hash «from» «to» [.sql orgs])) =
      some (tokens (sqlBlockTxListByOrgs networkName hash «from» «to» ts)) := by
  unfold sqlBlockTxListByOrgs
  rw [tokens_append, tokens_append]
  refine lex_spliced ?_ (fun rest => ?_) ?_ ?_ ?_ ?_ hnul horgs
  · repeat rw [String.toList_ofList]
    rfl
  · repeat rw [String.toList_ofList]
    rfl
  · repeat rw [String.toList_ofList]
    rfl
  · repeat rw [String.toList_ofList]
    rfl
  · rw [List.forall_mem_append]
    simp only [List.forall_mem_cons, Piece.Trusted, hnetwork, hfrom, hto, List.not_mem_nil, IsEmpty.forall_iff,
      implies_true, true_and]
  · intro value hmem
    simp only [List.mem_append, List.mem_cons, Piece.sent.injEq, reduceCtorEq, List.not_mem_nil, false_or,
      or_false, or_self] at hmem
    exact hmem ▸ hhash

/-- The statement with `orgs` is the one with the literals of `names`. -/
theorem lex_statement (J : Script) (dates : Int × Int) {names : List (List Char)} (hne : names ≠ [])
    (hlisted : ts = listed names) (horgsNe : orgs ≠ []) (r : OrgRequest)
    (hr : r.channelGenesisHash = hash) :
    lex beyond (render (r.statement J networkName dates (spliced orgs))) =
      some (tokens (r.statement J networkName dates ts)) := by
  have hspliced : spliced orgs = [.sql orgs] := if_neg horgsNe
  have htsNe : ts ≠ [] := by
    obtain ⟨name, names, rfl⟩ := List.exists_cons_of_ne_nil hne
    rw [hlisted]
    cases names <;> exact List.cons_ne_nil _ _
  subst hr
  rw [hspliced]
  cases r with
  | txList hash blocknum txid =>
    simp only [OrgRequest.statement, getTxList, if_neg htsNe, if_neg (List.cons_ne_nil _ _)]
    exact lex_sqlTxListByOrgs hnetwork hhash hnul horgs (J.numeral _) (J.numeral _) (J.line _) (J.line _)
  | blockAndTxList hash =>
    simp only [OrgRequest.statement, getBlockAndTxList, if_neg htsNe, if_neg (List.cons_ne_nil _ _)]
    exact lex_sqlBlockTxListByOrgs hnetwork hhash hnul horgs (J.line _) (J.line _)

end

theorem orgsArrayToString_eq {Q : QueryString} {reqQuery : Params} (hround : Q.RoundTrips reqQuery)
    {names : List String} (horgs : reqQuery.lookup "orgs" = some names) (hnames : ∀ name ∈ names, name ≠ "") :
    orgsArrayToString Q reqQuery = quoted (inner (names.map String.toList)) := by
  have hnotEmpty : names ≠ [""] := by
    rintro rfl
    exact hnames "" (List.mem_singleton_self _) rfl
  rw [orgsArrayToString, if_neg hround.written, hround.read, horgs]
  show (if names = [""] then [] else _) = _
  rw [if_neg hnotEmpty, orgsArray, intercalate_splitOn, spread_intercalate, inner]

/-- **What the organisation filter means.** For every list of names: if and
only if each is without NUL and has quotes and commas only as `','`. -/
theorem orgs_filter_iff (Q : QueryString) (reqQuery : Params) (hround : Q.RoundTrips reqQuery)
    (names : List String) (horgs : reqQuery.lookup "orgs" = some names) (hne : names ≠ [])
    (hnames : ∀ name ∈ names, name ≠ "") :
    FiltersBy (orgsArrayToString Q reqQuery) names ↔ ∀ name ∈ names, Faithful name.toList := by
  have hlists : names.map String.toList ≠ [] := by simpa using hne
  have hfaithful : (∀ name ∈ names.map String.toList, Faithful name) ↔ ∀ name ∈ names, Faithful name.toList := by
    simp
  rw [orgsArrayToString_eq hround horgs hnames, ← hfaithful]
  constructor
  · intro h
    exact (lex_inner_iff hlists).1 h.literals
  · intro h
    refine ⟨(lex_inner_iff hlists).2 h, fun J V networkName dates r db hnetwork hhash => ?_⟩
    have hnul : nul ∉ quoted (inner (names.map String.toList)) :=
      (nul_inner _).2 fun name hname => (h name hname).nul
    have hlex : lex V.beyond (render (r.statement J networkName dates
        (spliced (quoted (inner (names.map String.toList)))))) =
          some (tokens (r.statement J networkName dates (listed (names.map String.toList)))) :=
      lex_statement hnetwork hhash hnul (fun rest hrest => lexFrom_inner hlists h hrest) J dates hlists rfl
        (List.cons_ne_nil _ _) r rfl
    rw [OrgRequest.answer, if_pos hlex, meant_createdBy J V networkName dates hne]

/-! ## Requests -/

/-- `?orgs=Org1MSP&orgs=Org2MSP` -/
def twoOrgs : QueryString where
  stringify _ := "orgs=Org1MSP&orgs=Org2MSP"
  parse _ := [("orgs", ["Org1MSP", "Org2MSP"])]

theorem orgs_filter_iff_twoOrgs :
    FiltersBy (orgsArrayToString twoOrgs [("orgs", ["Org1MSP", "Org2MSP"])]) ["Org1MSP", "Org2MSP"] := by
  refine (orgs_filter_iff twoOrgs [("orgs", ["Org1MSP", "Org2MSP"])] ⟨by decide, rfl⟩ ["Org1MSP", "Org2MSP"] rfl
    (by decide) (by decide)).2 fun name hname => ?_
  have htogether : ∀ cs : List Char, (cs.all fun c => c ≠ quote && c ≠ ',') = true → Together cs := by
    intro cs hcs
    induction cs with
    | nil => exact .nil
    | cons c cs ih =>
      simp only [List.all_cons, Bool.and_eq_true, decide_eq_true_eq] at hcs
      exact .cons c cs hcs.1.1 hcs.1.2 (ih hcs.2)
  rcases List.mem_pair.1 hname with rfl | rfl
  · exact ⟨htogether _ (by decide), by decide⟩
  · exact ⟨htogether _ (by decide), by decide⟩

/-- `?orgs=x') or ('a'='a` -/
def allOrgs : QueryString where
  stringify _ := "orgs=x%27%29%20or%20%28%27a%27%3D%27a"
  parse _ := [("orgs", ["x') or ('a'='a"])]

/-- The condition is `creator_msp_id in ('x') or ('a'='a')`. -/
theorem orgs_filter_allOrgs :
    lex (fun _ => none) (orgsArrayToString allOrgs [("orgs", ["x') or ('a'='a"])]) =
      some [.literal ['x'], .punct ')', .word "or".toList, .punct '(', .literal ['a'], .op ['='], .literal ['a']] ∧
    ¬ ∀ (Q : QueryString) (reqQuery : Params) (names : List String), Q.RoundTrips reqQuery →
      reqQuery.lookup "orgs" = some names → names ≠ [] → (∀ name ∈ names, name ≠ "") →
        FiltersBy (orgsArrayToString Q reqQuery) names := by
  have hlex : lex (fun _ => none) (orgsArrayToString allOrgs [("orgs", ["x') or ('a'='a"])]) =
      some [.literal ['x'], .punct ')', .word "or".toList, .punct '(', .literal ['a'], .op ['='], .literal ['a']] := by
    decide +kernel
  refine ⟨hlex, fun h => ?_⟩
  have hfilters := h allOrgs [("orgs", ["x') or ('a'='a"])] ["x') or ('a'='a"] ⟨by decide, rfl⟩ rfl (by decide)
    (by decide)
  have hliterals := hfilters.literals fun _ => none
  rw [hlex] at hliterals
  exact absurd hliterals (by decide +kernel)

end Explorer.Fabric.OrgFilter
