import ObjectTransfer.Proofs.Token.Lexical
import Mathlib.Tactic.SplitIfs

/-!
# Reserved words

The notations differ in the words that they reserve and in nothing else that concerns tokens. A scan
asks for the notation only when a word is complete, so two notations that differ in what they make of
words scan a text in step: they find tokens at the same places, or the same error
(`Cursor.tokensAfter_classified`). Request and response do not differ at all, and a schema has reserved
words where the others have three identifiers (`tokenize_inSchema`).
-/

namespace ObjectTransfer

/-! ## Two notations that differ in words -/

/-- The token with another kind. -/
def Token.mapKind (f : Token.Kind → Token.Kind) (t : Token) : Token := { t with kind := f t.kind }

/-- The tokens with other kinds, at the same places. -/
def Tokens.mapKind (f : Token.Kind → Token.Kind) (tokens : Tokens) : Tokens :=
  ⟨tokens.list.map (·.mapKind f), tokens.finish⟩

/-- The scan with another kind of token; an error and an end have none. -/
def Scan.mapKind (f : Token.Kind → Token.Kind) : Scan → Scan
  | .token t next => .token (t.mapKind f) next
  | .ended finish => .ended finish
  | .failed e next => .failed e next

/-- What the notation `d` makes of words is what `d'` makes of them, put through `f`, which leaves alone
what is no word. -/
structure Classifies (f : Token.Kind → Token.Kind) (d d' : Dialect) : Prop where
  word : ∀ word, Token.Kind.ofWord d' word = f (.ofWord d word)
  literal : ∀ value, f (.literal value) = .literal value
  mark : ∀ m, f (.mark m) = .mark m

namespace Cursor

variable {f : Token.Kind → Token.Kind} {d d' : Dialect}

theorem tokenUpTo_mapKind (f : Token.Kind → Token.Kind) (c next : Cursor) (kind : Token.Kind) :
    (c.tokenUpTo next kind).mapKind f = c.tokenUpTo next (f kind) := rfl

theorem scanString_mapKind (h : ∀ value, f (.literal value) = .literal value) (c : Cursor) :
    c.scanString.mapKind f = c.scanString := by
  unfold scanString
  split
  · rw [tokenUpTo_mapKind, h]
  · rfl

theorem scanNumber_mapKind (h : ∀ value, f (.literal value) = .literal value) (c : Cursor) :
    c.scanNumber.mapKind f = c.scanNumber := by
  dsimp only [scanNumber]
  split
  · rfl
  · split
    · rfl
    · rw [tokenUpTo_mapKind, h]

/-- One token is scanned in step. -/
theorem scan_classified (h : Classifies f d d') (c : Cursor) :
    c.scan d' = (c.scan d).mapKind f := by
  unfold scan
  split
  · rfl
  · split
    · rw [tokenUpTo_mapKind, h.mark]
    · -- Only the last but one of these branches asks for the notation.
      split_ifs
      · rw [scanString_mapKind h.literal]
      · rw [scanNumber_mapKind h.literal]
      · rw [scanWord, scanWord, tokenUpTo_mapKind, h.word]
      · rfl

theorem nextToken_classified (h : Classifies f d d') (c : Cursor) :
    c.nextToken d' = (c.nextToken d).mapKind f := by
  unfold nextToken
  split
  · exact scan_classified h _
  · rfl

/-- A whole run is in step: it has the same tokens up to their kinds, or the same error, and ends at the
same place. -/
theorem tokensAfter_classified (h : Classifies f d d') (seen : List Token) (c : Cursor) :
    c.tokensAfter d' (seen.map (·.mapKind f)) =
      ((c.tokensAfter d seen).1.map (·.mapKind f), (c.tokensAfter d seen).2) := by
  have hnext := nextToken_classified h
  fun_induction tokensAfter d seen c with
  | case1 seen c t next hscan ih =>
    rw [tokensAfter.eq_def, hnext c, hscan]
    exact ih
  | case2 seen c finish hscan =>
    rw [tokensAfter.eq_def, hnext c, hscan]
    simp [Scan.mapKind, Except.map, Tokens.mapKind]
  | case3 seen c e next hscan =>
    rw [tokensAfter.eq_def, hnext c, hscan]
    rfl

end Cursor

/-- Notations that differ in words have the same tokens, up to these, at the same places. -/
theorem tokenize_classified {f : Token.Kind → Token.Kind} {d d' : Dialect} (h : Classifies f d d')
    (source : String) : tokenize d' source = (tokenize d source).map (·.mapKind f) := by
  have hrun := Cursor.tokensAfter_classified h [] (Cursor.ofString source)
  rw [List.map_nil] at hrun
  exact congrArg Prod.fst hrun

/-! ## The three notations -/

/-- The kind of a token in a schema, from its kind where no word is reserved. -/
def Token.Kind.inSchema : Token.Kind → Token.Kind
  | .identifier name =>
    if name = "Model" then .keyword .modelWord
    else if name = "extends" then .keyword .extendsWord
    else if name = "type" then .keyword .typeWord
    else .identifier name
  | kind => kind

theorem Dialect.keyword?_schema (word : String) :
    Dialect.schema.keyword? word =
      if word = "Model" then some .modelWord
      else if word = "extends" then some .extendsWord
      else if word = "type" then some .typeWord
      else none := by
  simp only [keyword?, keywords, Keyword.all, List.find?_cons, List.find?_nil, Keyword.text,
    eq_comm (b := word)]
  split_ifs <;> simp_all

/-- A name in a schema is the reserved word that it spells, if it spells one. -/
theorem classifies_inSchema : Classifies Token.Kind.inSchema .request .schema where
  word word := by
    have hfree : Dialect.request.keyword? word = none := rfl
    unfold Token.Kind.ofWord
    rw [hfree, Dialect.keyword?_schema]
    split_ifs <;> simp_all [Token.Kind.inSchema]
  literal _ := rfl
  mark _ := rfl

/-- Neither a request nor a response reserves a word. -/
theorem classifies_response : Classifies id .request .response where
  word _ := rfl
  literal _ := rfl
  mark _ := rfl

theorem Tokens.mapKind_id (tokens : Tokens) : tokens.mapKind id = tokens := by
  have hlist : tokens.list.map (·.mapKind id) = tokens.list := List.map_id _
  rw [mapKind, hlist]

/-- Where no word is reserved there are no reserved words among the tokens, and none of the words that
are literals is an identifier anywhere. -/
theorem words_of_tokenize {d : Dialect} {source : String} {tokens : Tokens}
    (h : tokenize d source = .ok tokens) :
    (∀ t ∈ tokens.list, ∀ word, t.kind = .keyword word → d = .schema) ∧
      ∀ t ∈ tokens.list, ∀ name, t.kind = .identifier name →
        name ≠ "true" ∧ name ≠ "false" ∧ name ≠ "null" := by
  have hlexical := lexical_of_tokenize h
  constructor
  · intro t ht word hkind
    have hword := hlexical t.kind (List.mem_map_of_mem ht)
    rw [hkind] at hword
    cases d with
    | schema => rfl
    | request => exact absurd hword List.not_mem_nil
    | response => exact absurd hword List.not_mem_nil
  · intro t ht name hkind
    have hname := hlexical t.kind (List.mem_map_of_mem ht)
    rw [hkind] at hname
    exact hname.1.2

/-- Requests and responses have the same tokens or the same error. A schema has the same error, or the
same tokens at the same places, but for three identifiers that are reserved words there. Only in a schema
is there a reserved word, and nowhere is one of the words that are literals an identifier. -/
theorem tokenize_inSchema (source : String) :
    tokenize .response source = tokenize .request source ∧
    tokenize .schema source =
      (tokenize .request source).map (·.mapKind Token.Kind.inSchema) ∧
    ∀ d tokens, tokenize d source = .ok tokens →
      (∀ t ∈ tokens.list, ∀ word, t.kind = .keyword word → d = .schema) ∧
      ∀ t ∈ tokens.list, ∀ name, t.kind = .identifier name →
        name ≠ "true" ∧ name ≠ "false" ∧ name ≠ "null" := by
  refine ⟨?_, tokenize_classified classifies_inSchema source, fun d tokens => words_of_tokenize⟩
  rw [tokenize_classified classifies_response source]
  cases tokenize .request source with
  | error e => rfl
  | ok tokens => exact congrArg Except.ok tokens.mapKind_id

end ObjectTransfer
