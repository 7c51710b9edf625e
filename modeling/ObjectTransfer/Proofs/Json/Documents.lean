import ObjectTransfer.Document
import ObjectTransfer.Proofs.Json.Records
import ObjectTransfer.Proofs.Token.Lexical

/-!
# Documents read back from JSON

A document whose positions fit into words is read back from what it is written as exactly if its
numbers are finite (`Dialect.readsBack_document`): a number that is not finite is written as null, and
null is read as no number. All other parts are always read back.
-/

namespace ObjectTransfer

open Json (FitsWord fields?_object lookup? natural?_ofNat string?)

/-! ## Places -/

/-- A position whose counts fit into words. -/
structure Position.FitsWords (p : Position) : Prop where
  offset : FitsWord p.offset
  line : FitsWord p.line
  column : FitsWord p.column

instance (p : Position) : Decidable p.FitsWords :=
  decidable_of_iff (FitsWord p.offset ∧ FitsWord p.line ∧ FitsWord p.column)
    ⟨fun h => ⟨h.1, h.2.1, h.2.2⟩, fun h => ⟨h.offset, h.line, h.column⟩⟩

/-- A location whose counts fit into words. -/
structure Location.FitsWords (l : Location) : Prop where
  start : l.start.FitsWords
  finish : l.finish.FitsWords

instance (l : Location) : Decidable l.FitsWords :=
  decidable_of_iff (l.start.FitsWords ∧ l.finish.FitsWords)
    ⟨fun h => ⟨h.1, h.2⟩, fun h => ⟨h.start, h.finish⟩⟩

theorem Position.decode?_of_fields {json offset line column : Json}
    (h : json.fields? ["offset", "line", "column"] = some [some offset, some line, some column]) :
    decode? json = do return ⟨← offset.natural?, ← line.natural?, ← column.natural?⟩ := by
  unfold decode?
  rw [h]
  rfl

theorem Position.decode?_encode {p : Position} (h : p.FitsWords) : decode? p.encode = some p := by
  have hfields : p.encode.fields? ["offset", "line", "column"] =
      some [some (.ofNat p.offset), some (.ofNat p.line), some (.ofNat p.column)] :=
    fields?_object [] _ rfl (by decide)
  rw [decode?_of_fields hfields, natural?_ofNat h.offset, natural?_ofNat h.line,
    natural?_ofNat h.column]
  rfl

theorem Location.decode?_of_fields {json start finish : Json} {source : String}
    (h : json.fields? ["source", "start", "end"] =
      some [some (.string source), some start, some finish]) :
    decode? json = do return ⟨source, ← Position.decode? start, ← Position.decode? finish⟩ := by
  unfold decode?
  rw [h]
  rfl

theorem Location.decode?_encode {l : Location} (h : l.FitsWords) : decode? l.encode = some l := by
  have hfields : l.encode.fields? ["source", "start", "end"] =
      some [some (.string l.source), some l.start.encode, some l.finish.encode] :=
    fields?_object [] _ rfl (by decide)
  rw [decode?_of_fields hfields, Position.decode?_encode h.start, Position.decode?_encode h.finish]
  rfl

/-! ## Literals -/

theorem Literal.Kind.ofName?_name (kind : Literal.Kind) : ofName? kind.name = some kind := by
  cases kind <;> decide

/-- A number is read back if it is finite. Else it is written as null, which is no number. -/
theorem Json.readsBack_double (x : Double) : ReadsBack (ofDouble x).double? x x.isFinite := by
  unfold ofDouble
  by_cases hfinite : x.isFinite
  · rw [if_pos hfinite]
    exact (readsBack_of_eq rfl).congr (by simp [hfinite])
  · rw [if_neg hfinite]
    exact ⟨fun h => absurd h hfinite, fun _ => rfl⟩

/-- The record of a literal tells its kind and its value, in both ways of reading. -/
theorem Literal.decodeAs?_encode (reading : Json.Reading) (l : Literal) :
    decodeAs? reading l.encode = ofKind? l.kind l.value? := by
  have hkind : Kind.ofMember? reading (.string l.kind.name) = some l.kind := l.kind.ofName?_name
  have hread : decodeAs? reading l.encode = (Kind.ofMember? reading (.string l.kind.name)).bind
      fun kind => ofKind? kind l.value? := by
    cases l <;> rfl
  rw [hread, hkind]
  rfl

theorem Literal.readsBack (reading : Json.Reading) (l : Literal) :
    ReadsBack (decodeAs? reading l.encode) l l.IsFinite := by
  rw [decodeAs?_encode]
  cases l with
  | number x => exact (Json.readsBack_double x).map Literal.number
  | string s => exact readsBack_of_eq rfl
  | boolean b => exact readsBack_of_eq rfl
  | null => exact readsBack_of_eq rfl

/-! ## Entries -/

theorem Entry.decode?_of_fields {json value location : Json} {key : String}
    (h : json.fields? ["key", "value", "location"] =
      some [some (.string key), some value, some location]) :
    decode? json = do return ⟨key, ← Literal.decode? value, ← Location.decode? location⟩ := by
  unfold decode?
  rw [h]
  rfl

theorem Entry.readsBack {e : Entry} (h : e.location.FitsWords) :
    ReadsBack (decode? e.encode) e e.value.IsFinite := by
  have hfields : e.encode.fields? ["key", "value", "location"] =
      some [some (.string e.key), some e.value.encode, some e.location.encode] :=
    fields?_object [] _ rfl (by decide)
  rw [decode?_of_fields hfields, Location.decode?_encode h]
  exact (e.value.readsBack .strict).bind_pure fun value => (⟨e.key, value, e.location⟩ : Entry)

theorem Entry.readsBack_list {entries : List Entry} (h : ∀ e ∈ entries, e.location.FitsWords) :
    ReadsBack ((Json.ofList encode entries).list? decode?) entries
      (∀ e ∈ entries, e.value.IsFinite) :=
  Json.readsBack_list entries fun e he => readsBack (h e he)

/-! ## Schemas -/

namespace Schema

theorem Attribute.decode?_of_fields {json : Json} {name type : String} {required : Bool}
    {default? : Option Json} (h : json.fields? ["name", "type", "required", "default"] =
      some [some (.string name), some (.string type), some (.boolean required), default?]) :
    decode? json = do
      return ⟨name, type, required,
        ← Json.optional? (Literal.decodeAs? .lenient) default?⟩ := by
  unfold decode?
  rw [h]
  rfl

theorem Attribute.readsBack (a : Attribute) :
    ReadsBack (decode? a.encode) a (∀ l ∈ a.default?, l.IsFinite) := by
  have hfields : a.encode.fields? ["name", "type", "required", "default"] =
      some [some (.string a.name), some (.string a.type), some (.boolean a.required),
        some (a.default?.elim .null Literal.encode)] := fields?_object [] _ rfl (by decide)
  have hdefault := Json.readsBack_optional a.default? (fun l => by simp [Literal.encode])
    fun l _ => l.readsBack .lenient
  rw [decode?_of_fields hfields]
  exact hdefault.bind_pure fun default? => (⟨a.name, a.type, a.required, default?⟩ : Attribute)

theorem Parameter.decode?_encode (p : Parameter) : decode? p.encode = some p := by
  have hfields : p.encode.fields? ["name", "type", "optional"] =
      some [some (.string p.name), some (.string p.type), some (.boolean p.optional)] :=
    fields?_object [] _ rfl (by decide)
  unfold decode?
  rw [hfields]
  rfl

theorem Action.decode?_of_fields {json parameters : Json} {name returnType : String}
    (h : json.fields? ["name", "params", "returnType"] =
      some [some (.string name), some parameters, some (.string returnType)]) :
    decode? json = do return ⟨name, ← parameters.list? Parameter.decode?, returnType⟩ := by
  unfold decode?
  rw [h]
  rfl

theorem Action.decode?_encode (a : Action) : decode? a.encode = some a := by
  have hfields : a.encode.fields? ["name", "params", "returnType"] =
      some [some (.string a.name), some (.ofList Parameter.encode a.parameters),
        some (.string a.returnType)] := fields?_object [] _ rfl (by decide)
  have hparameters := Json.list?_ofList a.parameters fun p _ => p.decode?_encode
  rw [decode?_of_fields hfields, hparameters]
  rfl

theorem Model.decode?_of_fields {json attributes actions : Json} {name : String}
    {parent? : Option Json} (h : json.fields? ["name", "extends", "attributes", "actions"] =
      some [some (.string name), parent?, some attributes, some actions]) :
    decode? json = do
      return ⟨name, ← Json.optional? string? parent?, ← attributes.list? Attribute.decode?,
        ← actions.list? Action.decode?⟩ := by
  unfold decode?
  rw [h]
  rfl

/-- The literals in a model. -/
def Model.literals (m : Model) : List Literal := m.attributes.flatMap (·.default?.toList)

/-- A model is read back behind the member that tells that it is one. -/
theorem Model.readsBack (m : Model) (kind : Json) :
    ReadsBack (decode? (.object (("type", kind) :: m.members))) m
      (∀ l ∈ m.literals, l.IsFinite) := by
  have hfields : (Json.object (("type", kind) :: m.members)).fields?
      ["name", "extends", "attributes", "actions"] =
      some [some (.string m.name), some (.ofString? m.parent?),
        some (.ofList Attribute.encode m.attributes), some (.ofList Action.encode m.actions)] :=
    fields?_object [("type", kind)] m.members rfl (by simp)
  have hattributes := Json.readsBack_list m.attributes fun a _ => a.readsBack
  have hactions := Json.list?_ofList m.actions fun a _ => a.decode?_encode
  rw [decode?_of_fields hfields, Json.optional?_string, hactions]
  refine (hattributes.bind_pure fun attributes =>
    (⟨m.name, m.parent?, attributes, m.actions⟩ : Model)).congr ?_
  unfold literals
  rw [List.forall_mem_flatMap]
  simp

theorem Union.decode?_encode (u : Union) (kind : Json) :
    decode? (.object (("type", kind) :: u.members)) = some u := by
  have hfields : (Json.object (("type", kind) :: u.members)).fields? ["name", "values"] =
      some [some (.string u.name), some (.ofList .string u.values)] :=
    fields?_object [("type", kind)] u.members rfl (by simp)
  have hvalues : (Json.ofList .string u.values).list? string? = some u.values :=
    Json.list?_ofList u.values fun _ _ => rfl
  unfold decode?
  rw [hfields]
  show (do return ⟨u.name, ← (Json.ofList .string u.values).list? string?⟩) = some u
  rw [hvalues]
  rfl

/-- The literals in a definition. -/
def Definition.literals : Definition → List Literal
  | .model m => m.literals
  | .union _ => []

theorem Definition.readsBack (definition : Definition) :
    ReadsBack (decode? definition.encode) definition (∀ l ∈ definition.literals, l.IsFinite) := by
  cases definition with
  | model m => exact (m.readsBack _).map Definition.model
  | union u =>
    have hread : decode? (encode (.union u)) = some (.union u) :=
      congrArg (Definition.union <$> ·) (u.decode?_encode _)
    exact (readsBack_of_eq hread).congr (by simp [literals])

/-- The literals in a schema. -/
def Document.literals (doc : Document) : List Literal := doc.flatMap Definition.literals

theorem Document.readsBack (doc : Document) :
    ReadsBack (decode? (encode doc)) doc (∀ l ∈ literals doc, l.IsFinite) :=
  (Json.readsBack_list doc fun definition _ => definition.readsBack).congr
    List.forall_mem_flatMap.symm

end Schema

/-! ## Requests -/

namespace Request

theorem Step.decode?_of_fields {json filters location : Json} {relation : String}
    {method? : Option Json} (h : json.fields? ["relation", "filters", "method", "location"] =
      some [some (.string relation), some filters, method?, some location]) :
    decode? json = do
      return ⟨relation, ← filters.list? Entry.decode?, ← Json.optional? string? method?,
        ← Location.decode? location⟩ := by
  unfold decode?
  rw [h]
  rfl

/-- The literals in a step. -/
def Step.literals (s : Step) : List Literal := s.filters.map (·.value)

/-- The locations in a step. -/
def Step.locations (s : Step) : List Location := s.location :: s.filters.map (·.location)

theorem Step.readsBack {s : Step} (h : ∀ l ∈ s.locations, l.FitsWords) :
    ReadsBack (decode? s.encode) s (∀ l ∈ s.literals, l.IsFinite) := by
  obtain ⟨hlocation, hfilters⟩ := List.forall_mem_cons.mp h
  have hfields : s.encode.fields? ["relation", "filters", "method", "location"] =
      some [some (.string s.relation), some (.ofList Entry.encode s.filters),
        some (.ofString? s.method?), some s.location.encode] := fields?_object [] _ rfl (by decide)
  have hread := Entry.readsBack_list (List.forall_mem_map.mp hfilters)
  rw [decode?_of_fields hfields, Json.optional?_string, Location.decode?_encode hlocation]
  exact (hread.bind_pure fun filters =>
    (⟨s.relation, filters, s.method?, s.location⟩ : Step)).congr List.forall_mem_map.symm

theorem decode?_of_fields {json filters steps location : Json} {model : String}
    (h : json.fields? ["model", "filters", "chain", "location"] =
      some [some (.string model), some filters, some steps, some location]) :
    decode? json = do
      return ⟨model, ← filters.list? Entry.decode?, ← steps.list? Step.decode?,
        ← Location.decode? location⟩ := by
  unfold decode?
  rw [h]
  rfl

/-- The literals in a request. -/
def literals (r : Request) : List Literal :=
  r.filters.map (·.value) ++ r.steps.flatMap Step.literals

/-- The locations in a request. -/
def locations (r : Request) : List Location :=
  r.location :: (r.filters.map (·.location) ++ r.steps.flatMap Step.locations)

theorem readsBack {r : Request} (h : ∀ l ∈ r.locations, l.FitsWords) :
    ReadsBack (decode? r.encode) r (∀ l ∈ r.literals, l.IsFinite) := by
  obtain ⟨hlocation, hparts⟩ := List.forall_mem_cons.mp h
  obtain ⟨hfilters, hsteps⟩ := List.forall_mem_append.mp hparts
  have hfields : r.encode.fields? ["model", "filters", "chain", "location"] =
      some [some (.string r.model), some (.ofList Entry.encode r.filters),
        some (.ofList Step.encode r.steps), some r.location.encode] :=
    fields?_object [] _ rfl (by decide)
  have hread := Entry.readsBack_list (List.forall_mem_map.mp hfilters)
  have hread' := Json.readsBack_list r.steps fun s hs =>
    Step.readsBack (List.forall_mem_flatMap.mp hsteps s hs)
  rw [decode?_of_fields hfields, Location.decode?_encode hlocation]
  have hall : ReadsBack (do return ⟨r.model,
      ← (Json.ofList Entry.encode r.filters).list? Entry.decode?,
      ← (Json.ofList Step.encode r.steps).list? Step.decode?, ← some r.location⟩) r
      ((∀ e ∈ r.filters, e.value.IsFinite) ∧ ∀ s ∈ r.steps, ∀ l ∈ s.literals, l.IsFinite) :=
    hread.bind (hread'.bind_pure fun steps => (⟨r.model, r.filters, steps, r.location⟩ : Request))
  refine hall.congr ?_
  unfold literals
  rw [List.forall_mem_append, List.forall_mem_map, List.forall_mem_flatMap]

end Request

/-! ## Responses -/

namespace Response

theorem decode?_of_fields {json fields location : Json} {type : String}
    (h : json.fields? ["type", "fields", "location"] =
      some [some (.string type), some fields, some location]) :
    decode? json = do
      return ⟨type, ← fields.list? Entry.decode?, ← Location.decode? location⟩ := by
  unfold decode?
  rw [h]
  rfl

/-- The literals in a response. -/
def literals (r : Response) : List Literal := r.fields.map (·.value)

/-- The locations in a response. -/
def locations (r : Response) : List Location := r.location :: r.fields.map (·.location)

theorem readsBack {r : Response} (h : ∀ l ∈ r.locations, l.FitsWords) :
    ReadsBack (decode? r.encode) r (∀ l ∈ r.literals, l.IsFinite) := by
  obtain ⟨hlocation, hfields⟩ := List.forall_mem_cons.mp h
  have hparts : r.encode.fields? ["type", "fields", "location"] =
      some [some (.string r.type), some (.ofList Entry.encode r.fields),
        some r.location.encode] := fields?_object [] _ rfl (by decide)
  have hread := Entry.readsBack_list (List.forall_mem_map.mp hfields)
  rw [decode?_of_fields hparts, Location.decode?_encode hlocation]
  exact (hread.bind_pure fun fields => (⟨r.type, fields, r.location⟩ : Response)).congr
    List.forall_mem_map.symm

end Response

/-! ## Documents -/

namespace Dialect

/-- The literals in a document. -/
def literals (d : Dialect) (document : d.Document) : List Literal :=
  match d, document with
  | .schema, doc => Schema.Document.literals doc
  | .request, r => Request.literals r
  | .response, r => Response.literals r

/-- The locations in a document. -/
def locations (d : Dialect) (document : d.Document) : List Location :=
  match d, document with
  | .schema, _ => []
  | .request, r => Request.locations r
  | .response, r => Response.locations r

theorem readsBack_document {d : Dialect} {document : d.Document}
    (h : ∀ l ∈ d.locations document, l.FitsWords) :
    ReadsBack (d.decode? (d.encode document)) document
      (∀ l ∈ d.literals document, l.IsFinite) := by
  cases d with
  | schema => exact Schema.Document.readsBack document
  | request => exact Request.readsBack h
  | response => exact Response.readsBack h

end Dialect
end ObjectTransfer
