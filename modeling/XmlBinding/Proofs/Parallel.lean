import XmlBinding.Proofs.InUse
import XmlBinding.Proofs.Sketch

/-! Writing in parallel. Two ways of writing that give the same output, or that both fail with errors that correspond,
do so too inside a record, a map or a sequence. Nothing that is written depends on what has been asked for before. -/
namespace XmlBinding

/-- Two results that are the same, or errors that correspond. -/
inductive Outcome (related : Error → Error → Prop) : Except Error α → Except Error α → Prop where
  | ok (a : α) : Outcome related (.ok a) (.ok a)
  | error (errors : related e e') : Outcome related (.error e) (.error e')

/-- Errors correspond to themselves, and as well as what they are about when they say where it stands. -/
structure Error.Contextual (related : Error → Error → Prop) : Prop where
  refl (e : Error) : related e e
  inField (name : String) (errors : related e e') : related (.inField name e) (.inField name e')
  inKey (key : String) (errors : related e e') : related (.inKey key e) (.inKey key e')
  atIndex (index : Nat) (errors : related e e') : related (.atIndex index e) (.atIndex index e')

theorem Error.contextual_eq : Error.Contextual Eq where
  refl _ := rfl
  inField _ := congrArg _
  inKey _ := congrArg _
  atIndex _ := congrArg _

theorem Outcome.eq {x y : Except Error α} (outcome : Outcome Eq x y) : x = y := by
  cases outcome with
  | ok => rfl
  | error errors => rw [errors]

theorem Outcome.refl {related : Error → Error → Prop} (contextual : Error.Contextual related) (x : Except Error α) :
    Outcome related x x := by
  cases x with
  | ok a => exact .ok a
  | error e => exact .error (contextual.refl e)

namespace Writing
variable {related : Error → Error → Prop}

/-- Two ends of writing with the same output, or with errors that correspond. -/
inductive Ends (related : Error → Error → Prop) :
    EStateM.Result Error (Marshalling Demand) Unit → EStateM.Result Error (Marshalling Demand) Unit → Prop where
  | ok : Ends related (.ok () ⟨demand, w⟩) (.ok () ⟨demand', w⟩)
  | error (errors : related e e') : Ends related (.error e state) (.error e' state')

/-- Writing that ends alike whatever the output so far, and whatever each side has asked for. -/
def Parallel (related : Error → Error → Prop) (x y : Writing Demand Unit) : Prop :=
  ∀ demand demand' w, Ends related (x ⟨demand, w⟩) (y ⟨demand', w⟩)

theorem parallel_pure : Parallel related (pure ()) (pure ()) := fun _ _ _ => .ok

theorem parallel_put (f : Writer → Writer) : Parallel related (put f) (put f) := fun _ _ _ => .ok

theorem parallel_throw (errors : related e e') : Parallel related (throw e) (throw e') := fun _ _ _ => .error errors

theorem Parallel.seq {x x' y y' : Writing Demand Unit} (first : Parallel related x y)
    (second : Parallel related x' y') : Parallel related (x >>= fun _ => x') (y >>= fun _ => y') := by
  intro demand demand' w
  have here := first demand demand' w
  show Ends related (EStateM.bind x _ _) (EStateM.bind y _ _)
  rw [EStateM.bind, EStateM.bind]
  generalize x ⟨demand, w⟩ = one at here
  generalize y ⟨demand', w⟩ = two at here
  cases here with
  | error errors => exact .error errors
  | ok => exact second _ _ _

theorem Parallel.adapt {x y : Writing Demand Unit} (parallel : Parallel related x y) {wrap : Error → Error}
    (kept : ∀ {e e'}, related e e' → related (wrap e) (wrap e')) :
    Parallel related (x.adaptExcept wrap) (y.adaptExcept wrap) := by
  intro demand demand' w
  have here := parallel demand demand' w
  show Ends related (EStateM.adaptExcept wrap x _) (EStateM.adaptExcept wrap y _)
  rw [EStateM.adaptExcept, EStateM.adaptExcept]
  generalize x ⟨demand, w⟩ = one at here
  generalize y ⟨demand', w⟩ = two at here
  cases here with
  | error errors => exact .error (kept errors)
  | ok => exact .ok

theorem parallel_ofExcept {result result' : Except Error α} {x y : α → Writing Demand Unit}
    (outcome : Outcome related result result') (done : ∀ a, Parallel related (x a) (y a)) :
    Parallel related (ofExcept result >>= x) (ofExcept result' >>= y) := by
  cases outcome with
  | ok a => exact done a
  | error errors => exact parallel_throw errors

/-- Asking for a type changes nothing but what has been asked for. -/
theorem Parallel.request {write write' : ElementWriting Demand Ty} (schema schema' : Schema)
    (parallel : Parallel related (write type name) (write' type' name')) :
    Parallel related (Writing.request schema type >>= fun link => write link name)
      (Writing.request schema' type' >>= fun link => write' link name') :=
  fun demand demand' w => parallel { demand with requested := demand.requested ++ [type] }
    { demand' with requested := demand'.requested ++ [type'] } w

theorem Parallel.request_right {x : Writing Demand Unit} {write : ElementWriting Demand Ty} (schema : Schema)
    (parallel : Parallel related x (write type name)) :
    Parallel related x (Writing.request schema type >>= fun link => write link name) :=
  fun demand demand' w => parallel demand { demand' with requested := demand'.requested ++ [type] } w

theorem parallel_forM {x : α → Writing Demand Unit} {y : β → Writing Demand Unit} {as : List α} {bs : List β}
    (pairs : List.Forall₂ (fun a b => Parallel related (x a) (y b)) as bs) :
    Parallel related (as.forM x) (bs.forM y) := by
  induction pairs with
  | nil => exact parallel_pure
  | cons here rest ih => exact here.seq ih

/-- Fields of two records whose texts are written in parallel. -/
structure TextsMatch (related : Error → Error → Prop) (schema schema' : Schema) (a b : Keyed Data)
    (planned planned' : PlannedField) : Prop where
  name : planned.tag.name = planned'.tag.name
  text : Outcome related (schema.fieldText planned a) (schema'.fieldText planned' b)

variable {schema schema' : Schema} {a b : Keyed Data}

theorem parallel_fieldText {planned planned' : PlannedField}
    (same : TextsMatch related schema schema' a b planned planned') (write : String → String → Writer → Writer) :
    Parallel related (fieldText schema a planned (write planned.tag.name))
      (fieldText schema' b planned' (write planned'.tag.name)) := by
  rw [← same.name]
  refine parallel_ofExcept same.text fun text? => ?_
  cases text? with
  | none => exact parallel_pure
  | some text => exact parallel_put _

theorem parallel_texts {planned? planned?' : Option PlannedField}
    (same : Option.Rel (TextsMatch related schema schema' a b) planned? planned?') (write : String → Writer → Writer) :
    Parallel related (planned?.forM fun planned => fieldText schema a planned write)
      (planned?'.forM fun planned => fieldText schema' b planned write) := by
  cases same with
  | none => exact parallel_pure
  | some same => exact parallel_fieldText same fun _ => write

theorem parallel_child (contextual : Error.Contextual related) {x y : Keyed (ElementWriting Demand Ty)}
    {one other : ChildField Ty} (names : one.field.name = other.field.name) (tags : one.tag = other.tag)
    (empty : one.tag.omitEmpty = true → one.field.type.isEmpty ((a.get? one.field.name).getD .absent) =
      other.field.type.isEmpty ((b.get? other.field.name).getD .absent))
    (content : Option.Rel (fun write write' => Parallel related (write one.link one.tag.name)
      (write' other.link one.tag.name)) (x.get? one.field.name) (y.get? one.field.name)) :
    Parallel related (child a x one) (child b y other) := by
  have skipped : (one.tag.omitEmpty && one.field.type.isEmpty ((a.get? one.field.name).getD .absent)) =
      (other.tag.omitEmpty && other.field.type.isEmpty ((b.get? other.field.name).getD .absent)) := by
    rw [← tags]
    cases left : one.tag.omitEmpty with
    | false => rfl
    | true => rw [empty left]
  unfold child
  dsimp only
  rw [← skipped, ← names, ← tags]
  split
  · exact parallel_pure
  · generalize x.get? one.field.name = write? at content ⊢
    generalize y.get? one.field.name = write?' at content ⊢
    cases content with
    | none => exact parallel_pure
    | some parallel => exact parallel.adapt (contextual.inField _)

/-- Two records whose fields are written in parallel, one by one. -/
structure FormsMatch (related : Error → Error → Prop) (schema schema' : Schema) (a b : Keyed Data)
    (x y : Keyed (ElementWriting Demand Ty)) (form form' : RecordForm Ty) : Prop where
  attributes : List.Forall₂ (TextsMatch related schema schema' a b) form.attributes form'.attributes
  characters? : Option.Rel (TextsMatch related schema schema' a b) form.characters? form'.characters?
  cdata? : Option.Rel (TextsMatch related schema schema' a b) form.cdata? form'.cdata?
  children : List.Forall₂ (fun one other => Parallel related (child a x one) (child b y other)) form.children
    form'.children

theorem parallel_record {x y : Keyed (ElementWriting Demand Ty)} {form form' : RecordForm Ty}
    (same : FormsMatch related schema schema' a b x y form form') (name : String) :
    Parallel related (record schema form a x name) (record schema' form' b y name) := by
  refine (parallel_put (·.start name)).seq (Parallel.seq ?_ ((parallel_texts same.characters? _).seq
    ((parallel_texts same.cdata? _).seq ((parallel_forM same.children).seq (parallel_put _)))))
  exact parallel_forM (same.attributes.imp fun _ _ here =>
    parallel_fieldText here fun name text w => w.putAttribute name text)

theorem parallel_map (contextual : Error.Contextual related) {x y : Keyed (ElementWriting Demand Ty)} {type type' : Ty}
    (pairs : Keyed.Pairs (fun write write' => ∀ key, Parallel related (write type key) (write' type' key)) x y)
    (name : String) : Parallel related (map type x name) (map type' y name) := by
  refine (parallel_put (·.start name)).seq (Parallel.seq (parallel_forM (pairs.sort.imp fun one other pair => ?_))
    (parallel_put _))
  obtain ⟨key, write⟩ := one
  obtain ⟨_, write'⟩ := other
  obtain ⟨rfl, parallel⟩ := pair
  show Parallel related (entry type key write) (entry type' key write')
  rw [entry, entry]
  split
  · exact (parallel key).adapt (contextual.inKey key)
  · exact parallel_throw (contextual.refl _)

theorem parallel_items (contextual : Error.Contextual related) {x y : List (ElementWriting Demand Ty)}
    {type type' : Ty} {name : String}
    (pairs : List.Forall₂ (fun write write' => Parallel related (write type name) (write' type' name)) x y)
    (index : Nat) : Parallel related (items type name index x) (items type' name index y) := by
  induction pairs generalizing index with
  | nil => exact parallel_pure
  | cons here rest ih => exact (here.adapt (contextual.atIndex index)).seq (ih (index + 1))

end Writing

namespace Schema
open Writing
variable {schema : Schema}

theorem parallel_noMap {parts : PartWritings Demand Ty} {key value : Ty}
    (none : ∀ entries, data = .map entries → key ≠ .string) :
    Parallel Eq (schema.writeWith data parts (.map family key value) name)
      (schema.writeWith data parts (.map family key value) name) := by
  obtain ⟨e, failed⟩ := writeWith_noMap none
  rw [failed]
  exact parallel_throw rfl

/-- Writing a value does not depend on what has been asked for. -/
theorem write_parallel (data : Data) (type : Ty) (name : String) :
    Parallel Eq (schema.write data type name) (schema.write data type name) := by
  induction data using Data.induction generalizing type name with
  | step data ih =>
  cases type with
  | scalar =>
    cases data with
    | scalar value => exact parallel_put (·.textElement name value.format)
    | _ => exact parallel_throw rfl
  | option target | box target =>
    cases data with
    | present data => exact ih data (List.mem_singleton_self _) target name
    | absent => exact parallel_put fun w => (w.start name).close name
    | _ => exact parallel_throw rfl
  | dynamic =>
    cases data with
    | dynamic type data => exact .request schema schema (ih data (List.mem_singleton_self _) type name)
    | absent => exact parallel_put fun w => (w.start name).close name
    | _ => exact parallel_throw rfl
  | native =>
    cases data with
    | native value => exact parallel_put (·.value name value)
    | _ => exact parallel_throw rfl
  | custom =>
    cases data <;> exact parallel_ofExcept (.refl Error.contextual_eq _) fun custom =>
      parallel_ofExcept (.refl Error.contextual_eq _) fun xml => parallel_put (·.raw xml)
  | unsupported => cases data <;> exact parallel_throw rfl
  | sequence element | array element length =>
    cases data with
    | list items =>
      show Parallel Eq (Writing.items element name 0 (schema.writeItems items))
        (Writing.items element name 0 (schema.writeItems items))
      rw [writeItems_eq_map]
      refine parallel_items Error.contextual_eq (List.forall₂_same.2 fun write member => ?_) 0
      obtain ⟨item, held, rfl⟩ := List.mem_map.1 member
      exact ih item held element name
    | _ => exact parallel_throw rfl
  | record record =>
    cases data with
    | record fields =>
      have texts (planned : PlannedField) : TextsMatch Eq schema schema fields fields planned planned :=
        ⟨rfl, .refl Error.contextual_eq _⟩
      have single (planned? : Option PlannedField) :
          Option.Rel (TextsMatch Eq schema schema fields fields) planned? planned? := by
        cases planned? with
        | none => exact .none
        | some planned => exact .some (texts planned)
      refine parallel_record ⟨List.forall₂_same.2 fun planned _ => texts planned, single _, single _,
        List.forall₂_same.2 fun child _ => parallel_child Error.contextual_eq rfl rfl (fun _ => rfl) ?_⟩ name
      rw [writeEntries_eq_map, Keyed.get?_map]
      cases found : Keyed.get? fields child.field.name with
      | none => exact .none
      | some data => exact .some (ih data (List.mem_map_of_mem (Keyed.mem_of_get? found)) _ _)
    | _ => exact parallel_throw rfl
  | map family key value =>
    by_cases text : key = .string
    · subst text
      cases data with
      | map entries =>
        rw [write_map, writeEntries_eq_map]
        refine parallel_map Error.contextual_eq (List.forall₂_same.2 fun entry member => ⟨rfl, fun key => ?_⟩) name
        obtain ⟨entry, held, rfl⟩ := List.mem_map.1 member
        exact ih entry.2 (List.mem_map_of_mem held) value key
      | _ => exact parallel_noMap fun _ same => by cases same
    · cases data <;> exact parallel_noMap fun _ _ => text

/-- What is written in parallel, under the same name, gives documents that correspond. -/
theorem marshal_outcome {schema' : Schema} {related : Error → Error → Prop} {type type' : Ty} {a b : Data}
    {settings : Settings} (names : schema.rootName settings.rootTag type a =
      schema'.rootName settings.rootTag type' b)
    (parallel : ∀ name, Parallel related (schema.write a type name) (schema'.write b type' name)) :
    Outcome related (schema.marshal type a settings ({} : Demand)).1
      (schema'.marshal type' b settings ({} : Demand)).1 := by
  have ends : Ends related (schema.marshalWith type a settings #[] ({} : Demand))
      (schema'.marshalWith type' b settings #[] ({} : Demand)) := by
    unfold marshalWith
    rw [← names]
    exact Parallel.request schema schema' (parallel _) {} {} { layout? := settings.layout? }
  unfold marshal
  generalize schema.marshalWith type a settings #[] ({} : Demand) = one at ends ⊢
  generalize schema'.marshalWith type' b settings #[] ({} : Demand) = two at ends ⊢
  cases ends with
  | ok => exact .ok _
  | error errors => exact .error errors

end Schema

end XmlBinding
