import ObjectTransfer.Json.Basic

/-!
# Reading back what was written

A record is written as an object whose members have names of their own, and so each part is found
under its name, whatever else the object tells of its kind (`Json.fields?_object`). A part that is not
read back leaves the whole unread: `ReadsBack` says when a value is read back and that nothing is read
otherwise, and it is closed under what records are made of.
-/

namespace ObjectTransfer

/-- Reading gives `a` back if `Good` holds, and it gives nothing if not. -/
structure ReadsBack {α : Type} (read : Option α) (a : α) (Good : Prop) : Prop where
  found : Good → read = some a
  missed : ¬ Good → read = none

section

variable {α β : Type} {read : Option α} {a : α} {b : β} {Good Good' : Prop}

theorem readsBack_of_eq (h : read = some a) : ReadsBack read a True :=
  ⟨fun _ => h, fun hnot => absurd trivial hnot⟩

theorem ReadsBack.congr (h : ReadsBack read a Good) (hiff : Good ↔ Good') :
    ReadsBack read a Good' :=
  ⟨fun hgood => h.found (hiff.mpr hgood), fun hbad => h.missed fun hgood => hbad (hiff.mp hgood)⟩

/-- One part after the other. -/
theorem ReadsBack.bind {next : α → Option β} (h : ReadsBack read a Good)
    (h' : ReadsBack (next a) b Good') : ReadsBack (read.bind next) b (Good ∧ Good') := by
  constructor
  · rintro ⟨hgood, hgood'⟩
    rw [h.found hgood]
    exact h'.found hgood'
  · intro hbad
    by_cases hgood : Good
    · rw [h.found hgood]
      exact h'.missed fun hgood' => hbad ⟨hgood, hgood'⟩
    · rw [h.missed hgood]
      rfl

theorem ReadsBack.bind_pure (f : α → β) (h : ReadsBack read a Good) :
    ReadsBack (read.bind fun x => pure (f x)) (f a) Good := by
  have hall : ReadsBack (read.bind fun x => pure (f x)) (f a) (Good ∧ True) :=
    h.bind (readsBack_of_eq rfl)
  exact hall.congr (and_iff_left trivial)

theorem ReadsBack.map (f : α → β) (h : ReadsBack read a Good) :
    ReadsBack (f <$> read) (f a) Good := by
  constructor
  · intro hgood
    rw [h.found hgood]
    rfl
  · intro hbad
    rw [h.missed hbad]
    rfl

end

namespace Json

/-! ## Members -/

/-- What has a name of its own is found under it. -/
theorem lookup?_of_mem {members : List (String × Json)} (hdistinct : (members.map (·.1)).Nodup)
    {member : String × Json} (h : member ∈ members) :
    lookup? members member.1 = some member.2 := by
  induction members with
  | nil => exact absurd h List.not_mem_nil
  | cons first others ih =>
    rw [List.map_cons, List.nodup_cons] at hdistinct
    unfold lookup? at ih ⊢
    rcases List.mem_cons.mp h with rfl | hothers
    · rw [List.find?_cons_of_pos (by simp)]
      rfl
    · have hname : first.1 ≠ member.1 := by
        intro hname
        rw [hname] at hdistinct
        exact hdistinct.1 (List.mem_map_of_mem hothers)
      rw [List.find?_cons_of_neg (by simpa using hname)]
      exact ih hdistinct.2 hothers

/-- The parts of a record are found under their names, also behind members that tell its kind. -/
theorem members?_object (tags members : List (String × Json)) {names : List String}
    (hnames : members.map (·.1) = names) (hdistinct : (tags.map (·.1) ++ names).Nodup) :
    (object (tags ++ members)).members? names = some (members.map fun member => some member.2) := by
  subst hnames
  rw [← List.map_append] at hdistinct
  show some ((members.map (·.1)).map (lookup? (tags ++ members))) = _
  rw [List.map_map]
  congr 1
  apply List.map_congr_left
  intro member hmember
  exact lookup?_of_mem hdistinct (List.mem_append_right tags hmember)

theorem fields?_object (tags members : List (String × Json)) {names : List String}
    (hnames : members.map (·.1) = names) (hdistinct : (tags.map (·.1) ++ names).Nodup) :
    (object (tags ++ members)).fields? names = some (members.map fun member => some member.2) :=
  members?_object tags members hnames hdistinct

/-! ## Parts -/

variable {α : Type} {decode : Json → Option α} {encode : α → Json} {Good : α → Prop}

theorem readsBack_mapM (as : List α) (h : ∀ a ∈ as, ReadsBack (decode (encode a)) a (Good a)) :
    ReadsBack ((as.map encode).mapM decode) as (∀ a ∈ as, Good a) := by
  induction as with
  | nil => exact (readsBack_of_eq rfl).congr (by simp)
  | cons a as ih =>
    have hothers := ih fun b hb => h b (List.mem_cons_of_mem a hb)
    have hall : ReadsBack (((a :: as).map encode).mapM decode) (a :: as)
        (Good a ∧ ∀ b ∈ as, Good b) := by
      rw [List.map_cons, List.mapM_cons]
      exact (h a List.mem_cons_self).bind (hothers.bind_pure (a :: ·))
    exact hall.congr (by simp)

/-- A list is read back if its items are. -/
theorem readsBack_list (as : List α) (h : ∀ a ∈ as, ReadsBack (decode (encode a)) a (Good a)) :
    ReadsBack ((ofList encode as).list? decode) as (∀ a ∈ as, Good a) := readsBack_mapM as h

theorem list?_ofList (as : List α) (h : ∀ a ∈ as, decode (encode a) = some a) :
    (ofList encode as).list? decode = some as :=
  (readsBack_list as fun a ha => readsBack_of_eq (h a ha)).found fun _ _ => trivial

/-- What may be missing is read back if what is there is, since nothing there is written as null. -/
theorem readsBack_optional (a? : Option α) (hvalue : ∀ a, encode a ≠ .null)
    (h : ∀ a ∈ a?, ReadsBack (decode (encode a)) a (Good a)) :
    ReadsBack (optional? decode (some (a?.elim .null encode))) a? (∀ a ∈ a?, Good a) := by
  cases a? with
  | none => exact (readsBack_of_eq rfl).congr (by simp)
  | some a =>
    have hread : optional? decode (some (encode a)) = some <$> decode (encode a) := by
      rw [optional?]
      exact hvalue a
    rw [Option.elim_some, hread]
    exact ((h a rfl).map some).congr (by simp)

theorem optional?_string (text? : Option String) :
    optional? string? (some (ofString? text?)) = some text? := by
  cases text? <;> rfl

/-- A count that fits into a word. -/
def FitsWord (n : Nat) : Prop := n < Nat.pow 2 64

instance : DecidablePred FitsWord := fun n => inferInstanceAs (Decidable (n < Nat.pow 2 64))

theorem natural?_ofNat {n : Nat} (h : FitsWord n) : (ofNat n).natural? = some n := by
  have hlt : (n : Int) < Nat.pow 2 64 := Int.ofNat_lt.mpr h
  show (if 0 ≤ (n : Int) ∧ (n : Int) < Nat.pow 2 64 then some (n : Int).toNat else none) = some n
  rw [if_pos ⟨Int.natCast_nonneg n, hlt⟩, Int.toNat_natCast]

end Json
end ObjectTransfer
