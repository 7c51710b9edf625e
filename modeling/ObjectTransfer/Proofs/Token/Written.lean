import ObjectTransfer.Proofs.Phrase.Repetition
import ObjectTransfer.Proofs.Token.Spelling

/-!
# Texts written piece by piece

A piece of text writes tokens if it spells them wherever it stands, as long as what follows does not
prolong its last token (`Writes`). Pieces are put together by `Writes.append`, lists of pieces by
`writes_join` and `writes_intercalate`; names, literals and punctuation are the pieces to start from.
-/

namespace ObjectTransfer

/-- In front of whatever spells further tokens and satisfies `Follow`, the text spells the tokens
`kinds` and then those. -/
def Writes (d : Dialect) (Follow : List Char → Prop) (text : String) (kinds : List Token.Kind) :
    Prop :=
  ∀ ⦃rest : List Char⦄ ⦃others : List Token.Kind⦄, Follow rest → Spells d rest others →
    Spells d (text.toList ++ rest) (kinds ++ others)

/-- Whatever follows. -/
def Anything (_ : List Char) : Prop := True

variable {d : Dialect} {Follow Follow' : List Char → Prop} {text text' : String}
  {kinds kinds' : List Token.Kind}

theorem Writes.spells (h : Writes d Follow text kinds) (hend : Follow []) :
    Spells d text.toList kinds := by
  have hspells := h hend .ended
  rwa [List.append_nil, List.append_nil] at hspells

theorem Writes.mono (h : Writes d Follow text kinds) (hfollow : ∀ rest, Follow' rest → Follow rest) :
    Writes d Follow' text kinds := fun _ _ hrest hothers => h (hfollow _ hrest) hothers

theorem Writes.of_eq (h : Writes d Follow text kinds) (hkinds : kinds = kinds') :
    Writes d Follow text kinds' := hkinds ▸ h

/-- Two pieces, if the second can follow the first. -/
theorem Writes.append (h : Writes d Follow text kinds) (h' : Writes d Follow' text' kinds')
    (hfollow : ∀ rest, Follow' rest → Follow (text'.toList ++ rest)) :
    Writes d Follow' (text ++ text') (kinds ++ kinds') := by
  intro rest others hrest hothers
  rw [String.toList_append, List.append_assoc, List.append_assoc]
  exact h (hfollow rest hrest) (h' hrest hothers)

theorem writes_empty : Writes d Anything "" [] := fun _ _ _ hothers => hothers

/-! ## Words and literals -/

theorem writes_token (kind : Token.Kind) (hkind : kind.IsLexical d) :
    Writes d (kind.EndsBefore ·) kind.text [kind] :=
  fun _ _ hrest hothers => .token hkind hrest hothers

theorem writes_literal {value : Literal} (hvalue : (Token.Kind.literal value).IsLexical d) :
    Writes d Apart value.text [.literal value] :=
  (writes_token (.literal value) hvalue).mono fun _ hrest => Token.Kind.endsBefore _ hrest

theorem writes_quote (s : String) : Writes d Anything (Literal.quote s) [.literal (.string s)] :=
  writes_token (.literal (.string s)) trivial

theorem writes_identifier {name : String} (hname : IsName name) (hfree : d.keyword? name = none) :
    Writes d WordEnds name [.identifier name] :=
  writes_token (.identifier name) ⟨hname, hfree⟩

theorem writes_keyword {word : Keyword} (hword : word ∈ d.keywords) :
    Writes d WordEnds word.text [.keyword word] :=
  writes_token (.keyword word) hword

/-! ## Punctuation -/

/-- The marks of a text that has nothing but marks and blanks. -/
def marksOf (text : String) : List Token.Kind :=
  (text.toList.filterMap Mark.ofChar?).map Token.Kind.mark

theorem Mark.ofChar?_of_isBlank {c : Char} (h : isBlank c) : Mark.ofChar? c = none := by
  simp only [isBlank, Bool.or_eq_true, decide_eq_true_eq] at h
  rcases h with ((rfl | rfl) | rfl) | rfl <;> rfl

/-- Marks and blanks write the marks. -/
theorem writes_marks (text : String)
    (htext : text.toList.all fun c => isBlank c || (Mark.ofChar? c).isSome) :
    Writes d Anything text (marksOf text) := by
  intro rest others _ hothers
  unfold marksOf
  -- By induction on the characters: a blank is passed over, any other is a mark.
  generalize text.toList = chars at htext
  induction chars with
  | nil => exact hothers
  | cons c cs ih =>
    rw [List.all_cons, Bool.and_eq_true, Bool.or_eq_true] at htext
    have htail := ih htext.2
    rcases htext.1 with hblank | hmark
    · rw [List.filterMap_cons_none (Mark.ofChar?_of_isBlank hblank)]
      exact .blank hblank htail
    · obtain ⟨m, hm⟩ := Option.isSome_iff_exists.mp hmark
      have hchar : c :: (cs ++ rest) = (Token.Kind.mark m).text.toList ++ (cs ++ rest) := by
        rw [← Mark.char_of_ofChar? hm]
        simp [Token.Kind.text]
      rw [List.filterMap_cons_some hm, List.cons_append, hchar]
      exact .token trivial trivial htail

theorem writes_colon : Writes d Anything ": " [.mark .colon] := writes_marks _ (by decide)

theorem writes_comma : Writes d Anything ", " [.mark .comma] := writes_marks _ (by decide)

theorem apart_colon (rest : List Char) : Apart (": ".toList ++ rest) :=
  apart_cons (by decide) (by decide) _

theorem apart_comma (rest : List Char) : Apart (", ".toList ++ rest) :=
  apart_cons (by decide) (by decide) _

/-- A piece on a line of its own. -/
theorem writes_line (h : Writes d Apart text kinds) :
    Writes d Anything ("    " ++ text ++ "\n") kinds := by
  have hindent : Writes d Anything "    " [] := writes_marks _ (by decide)
  have hbreak : Writes d Anything "\n" [] := writes_marks _ (by decide)
  -- The break keeps the last token of the line apart from what the next line starts with.
  have hall := (hindent.append h fun _ _ => trivial).append hbreak
    fun _ _ => apart_cons (by decide) (by decide) _
  exact hall.of_eq (List.append_nil _)

/-- Lines that are left out if there is nothing on them. -/
theorem writes_lines {empty : Prop} [Decidable empty] (h : Writes d Anything text kinds)
    (hempty : empty → kinds = []) :
    Writes d Anything (if empty then "" else "\n" ++ text) kinds := by
  by_cases hc : empty
  · rw [if_pos hc, hempty hc]
    exact writes_empty
  · have hbreak : Writes d Anything "\n" [] := writes_marks _ (by decide)
    rw [if_neg hc]
    exact hbreak.append h fun _ _ => trivial

/-! ## Lists of pieces -/

/-- If every value is that of an item, the list of values is that of a list of items. -/
theorem exists_items_of_forall {α β : Type} {value : α → β} {Good : α → Prop} {values : List β}
    (h : ∀ v ∈ values, ∃ t, value t = v ∧ Good t) :
    ∃ items : List α, items.map value = values ∧ ∀ t ∈ items, Good t := by
  induction values with
  | nil => exact ⟨[], rfl, List.forall_mem_nil _⟩
  | cons v vs ih =>
    rw [List.forall_mem_cons] at h
    obtain ⟨⟨t, rfl, ht⟩, htail⟩ := h
    obtain ⟨ts, rfl, hts⟩ := ih htail
    exact ⟨t :: ts, rfl, List.forall_mem_cons.mpr ⟨ht, hts⟩⟩

variable {τ : Type} {pieceText : τ → String} {pieceKinds : τ → List Token.Kind}

theorem lexical_separated {separator : Mark} {first : τ} {others : List τ} :
    Lexical d (Phrase.separated separator pieceKinds first others) ↔
      ∀ t ∈ first :: others, Lexical d (pieceKinds t) := by
  have hmark : (Token.Kind.mark separator).IsLexical d := trivial
  rw [Phrase.separated, lexical_append, lexical_flatMap, List.forall_mem_cons]
  simp only [lexical_cons, hmark, true_and]

theorem writes_join {items : List τ}
    (hitems : ∀ t ∈ items, Writes d Anything (pieceText t) (pieceKinds t)) :
    Writes d Anything (String.join (items.map pieceText)) (items.flatMap pieceKinds) := by
  induction items with
  | nil => exact writes_empty
  | cons t ts ih =>
    rw [List.map_cons, String.join_cons, List.flatMap_cons]
    exact (hitems t List.mem_cons_self).append
      (ih fun u hu => hitems u (List.mem_cons_of_mem t hu)) fun _ _ => trivial

/-- Pieces with something between them that ends any of them. -/
theorem writes_intercalate {between : String} {betweenKinds : List Token.Kind}
    (hbetween : Writes d Anything between betweenKinds)
    (hends : ∀ rest, Follow (between.toList ++ rest)) {first : τ} {others : List τ}
    (hitems : ∀ t ∈ first :: others, Writes d Follow (pieceText t) (pieceKinds t)) :
    Writes d Follow (between.intercalate ((first :: others).map pieceText))
      (pieceKinds first ++ others.flatMap fun t => betweenKinds ++ pieceKinds t) := by
  -- By induction on the further pieces; the second piece is the first of the others.
  induction others generalizing first with
  | nil =>
    rw [List.map_singleton, String.intercalate_singleton, List.flatMap_nil, List.append_nil]
    exact hitems first List.mem_cons_self
  | cons second others ih =>
    have htail := ih fun t ht => hitems t (List.mem_cons_of_mem first ht)
    have hfirst := hitems first List.mem_cons_self
    rw [List.map_cons, List.map_cons, String.intercalate_cons_cons, ← List.map_cons]
    have hall := (hfirst.append hbetween fun rest _ => hends rest).append htail fun _ _ => trivial
    exact hall.of_eq (by simp)

end ObjectTransfer
