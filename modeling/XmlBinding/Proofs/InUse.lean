import XmlBinding.Proofs.Assigning
import XmlBinding.Proofs.Coherent
import XmlBinding.Proofs.Pieces
import XmlBinding.Typed.Marshal

/-! Registries in use. Whatever a registry knows, writing and reading with it go the same way as without one: the output,
the target and the error are the same, and what the registry knows in the end is what it knew and what has been asked
for. -/
namespace XmlBinding

theorem Error.OfReading.cause {e : Error} (ofReading : e.OfReading) : e.cause = e := by
  cases ofReading <;> rfl

namespace Schema
variable {schema : Schema}

/-- An error with which some custom type fails. -/
inductive Refuses (schema : Schema) (e : Error) : Prop where
  | marshal {type : Custom} (known : schema.custom name = .ok type) (failed : type.marshal data element = .error e)
  | unmarshal {type : Custom} (known : schema.custom name = .ok type) (failed : (type.unmarshal xml target).2 = some e)

/-- An error does not say that a routine is missing, unless a custom type says so. -/
def Accounts (schema : Schema) (e : Error) : Prop :=
  ∀ type, e.cause = .unresolved type → ∃ refusal, schema.Refuses refusal ∧ refusal.cause = .unresolved type

theorem accounts_of_ne (other : ∀ type, e.cause ≠ .unresolved type) : schema.Accounts e :=
  fun type same => absurd same (other type)

/-- A path in front of an error makes no difference. -/
theorem Accounts.of_cause (accounts : schema.Accounts e) (same : e'.cause = e.cause) : schema.Accounts e' :=
  fun type unresolved => accounts type (same.symm.trans unresolved)

theorem Refuses.accounts (refuses : schema.Refuses e) : schema.Accounts e :=
  fun _ same => ⟨e, refuses, same⟩

theorem custom_accounts (failed : schema.custom name = .error e) : schema.Accounts e := by
  rw [custom] at failed
  split at failed
  · cases failed
  · cases failed
    exact accounts_of_ne fun _ same => by cases same

theorem textOf_accounts {type : Ty} {data : Data} (failed : schema.textOf type data = .error e) :
    schema.Accounts e := by
  induction type, data using Schema.textOf.induct with
  | case2 target data ih | case4 target data ih | case5 type data ih => exact ih failed
  | case1 | case3 | case6 | case7 => cases failed
  | case8 type data =>
    rw [textOf] at failed
    · cases failed
      exact accounts_of_ne fun _ same => by cases same
    all_goals assumption

theorem fieldText_accounts {planned : PlannedField} {fields : Keyed Data}
    (failed : schema.fieldText planned fields = .error e) : schema.Accounts e := by
  rw [fieldText] at failed
  split at failed
  · cases failed
  · split at failed
    · cases failed
    · rename_i inside
      cases failed
      exact (textOf_accounts inside).of_cause rfl

end Schema

/-- A registry that has answered a demand: it knows what it knew in the beginning and what it was asked for, and it has
not changed if all of this was known. -/
structure Registry.Answers (schema : Schema) (base registry : Registry) (demand : Demand) : Prop where
  coherent : registry.Coherent schema
  grows : base.view.Grows registry.view
  knows (type : Ty) : registry.Knows type ↔
    base.Knows type ∨ ∃ root ∈ demand.requested, schema.Leads root type
  plans (name : String) : (∃ plan, registry.plans.get? name = some plan) ↔
    (∃ plan, base.plans.get? name = some plan) ∨ registry.Knows (.record name) ∨ name ∈ demand.decoded
  idle : (∀ root ∈ demand.requested, base.Knows root) →
    (∀ name ∈ demand.decoded, ∃ plan, base.plans.get? name = some plan) → registry = base

namespace Registry
variable {schema : Schema} {base registry : Registry} {demand : Demand}

theorem Coherent.answers (coherent : base.Coherent schema) : Answers schema base base {} where
  coherent := coherent
  grows := .refl _
  knows type := by simp
  plans name := by
    refine ⟨.inl, fun either => either.elim id fun either => ?_⟩
    exact either.elim coherent.planned fun member => absurd member List.not_mem_nil
  idle _ _ := rfl

/-- A type that is asked for is known, with all that it leads to. -/
theorem Answers.link (answers : Answers schema base registry demand) (type : Ty) :
    Answers schema base (registry.link schema type).2 { demand with requested := demand.requested ++ [type] } := by
  have made := answers.coherent.link type
  have known : (registry.link schema type).2.Knows type :=
    (View.reached_iff.1 ⟨_, made.leads⟩).resolve_right fun ⟨_, waits⟩ => by cases waits
  refine ⟨made.coherent, answers.grows.trans made.grows, fun other => ⟨fun knows => ?_, ?_⟩,
    fun name => ⟨?_, ?_⟩, fun requested decoded => ?_⟩
  · rcases made.learnt knows with knows | leads
    · refine ((answers.knows other).1 knows).imp_right ?_
      rintro ⟨root, member, leads⟩
      exact ⟨root, List.mem_append_left _ member, leads⟩
    · exact .inr ⟨type, List.mem_append_right _ (List.mem_singleton_self _), leads⟩
  · rintro (knows | ⟨root, member, leads⟩)
    · exact made.grows.knows ((answers.knows other).2 (.inl knows))
    · rcases List.mem_append.1 member with member | here
      · exact made.grows.knows ((answers.knows other).2 (.inr ⟨root, member, leads⟩))
      · rw [List.mem_singleton.1 here] at leads
        exact made.coherent.closed known leads
  · rintro ⟨plan, found⟩
    rcases made.planned found with there | knows
    · exact ((answers.plans name).1 there).imp_right (Or.imp_left made.grows.knows)
    · exact .inr (.inl knows)
  · rintro (there | knows | member)
    · exact ((answers.plans name).2 (.inl there)).imp fun _ => made.grows.plans
    · exact made.coherent.planned knows
    · exact ((answers.plans name).2 (.inr (.inr member))).imp fun _ => made.grows.plans
  · obtain ⟨before, here⟩ := List.forall_mem_append.1 requested
    obtain rfl := answers.idle before decoded
    obtain ⟨link, same⟩ : ∃ link, registry.link schema type = (link, registry) :=
      link_of_known (here type (List.mem_singleton_self _))
    rw [same]

/-- A plan that is asked for is there. -/
theorem Answers.plan (answers : Answers schema base registry demand) (name : String) :
    Answers schema base (registry.plan schema name).2 { demand with decoded := demand.decoded ++ [name] } := by
  have view := (answers.coherent.plan_eq name).2
  have grows : registry.view.Grows (registry.plan schema name).2.view := view ▸ answers.coherent.learn_grows name
  have knows (type : Ty) : (registry.plan schema name).2.Knows type ↔ registry.Knows type := by
    rw [Registry.Knows, view]
    rfl
  have plans (other : String) : (registry.plan schema name).2.plans.get? other =
      if other = name then some (schema.plan name) else registry.plans.get? other :=
    congrFun (congrArg View.plan? view) other
  refine ⟨answers.coherent.plan name, answers.grows.trans grows, fun type => (knows type).trans (answers.knows type),
    fun other => ?_, fun requested decoded => ?_⟩
  · rw [plans, knows, List.mem_append, List.mem_singleton]
    split
    · rename_i same
      simp [same]
    · rename_i differs
      rw [answers.plans, or_iff_left differs]
  · obtain ⟨before, here⟩ := List.forall_mem_append.1 decoded
    obtain rfl := answers.idle requested before
    obtain ⟨plan, found⟩ := here name (List.mem_singleton_self _)
    rw [Registry.plan, found]

end Registry

namespace Keyed
variable {same : α → β → Prop} {xs : Keyed α} {ys : Keyed β}

/-- Collections with the same keys whose values correspond. -/
abbrev Pairs (same : α → β → Prop) (xs : Keyed α) (ys : Keyed β) : Prop :=
  List.Forall₂ (fun x y => x.1 = y.1 ∧ same x.2 y.2) xs ys

theorem Pairs.get? (pairs : Pairs same xs ys) (key : String) : Option.Rel same (xs.get? key) (ys.get? key) := by
  induction pairs with
  | nil => exact .none
  | @cons x y xs ys pair rest ih =>
    obtain ⟨k, x⟩ := x
    obtain ⟨k', y⟩ := y
    obtain ⟨rfl, here⟩ := pair
    rw [get?_cons, get?_cons]
    split
    · exact .some here
    · exact ih

theorem Pairs.sort (pairs : Pairs same xs ys) : Pairs same xs.sort ys.sort := by
  have insert {x : String × α} {y : String × β} (here : x.1 = y.1 ∧ same x.2 y.2) {xs : Keyed α} {ys : Keyed β}
      (pairs : Pairs same xs ys) : Pairs same (insertSorted x xs) (insertSorted y ys) := by
    induction pairs with
    | nil => exact .cons here .nil
    | @cons x' y' xs ys pair rest ih =>
      rw [insertSorted, insertSorted, here.1, pair.1]
      split
      · exact .cons here (.cons pair rest)
      · exact .cons pair ih
  induction pairs with
  | nil => exact .nil
  | cons pair rest ih => exact insert pair ih

end Keyed

namespace Writing
variable {schema : Schema} {base registry : Registry}

/-- Two ends of writing that are the same, with a registry that has grown and has answered what has been asked for. -/
inductive Alike (schema : Schema) (base registry : Registry) :
    EStateM.Result Error (Marshalling Registry) Unit → EStateM.Result Error (Marshalling Demand) Unit → Prop where
  | ok (answers : Registry.Answers schema base after demand) (grows : registry.view.Grows after.view) :
      Alike schema base registry (.ok () ⟨after, w⟩) (.ok () ⟨demand, w⟩)
  | error (answers : Registry.Answers schema base after demand) (grows : registry.view.Grows after.view)
      (accounts : schema.Accounts e) : Alike schema base registry (.error e ⟨after, w⟩) (.error e ⟨demand, w⟩)

/-- Writing with a registry that goes the same way as writing without one, whatever the output so far. -/
def Mirrors (schema : Schema) (base registry : Registry) (x : Writing Registry Unit) (y : Writing Demand Unit) : Prop :=
  ∀ demand w, Registry.Answers schema base registry demand →
    Alike schema base registry (x ⟨registry, w⟩) (y ⟨demand, w⟩)

theorem mirrors_pure : Mirrors schema base registry (pure ()) (pure ()) :=
  fun _ _ answers => .ok answers (.refl _)

theorem mirrors_throw (accounts : schema.Accounts e) : Mirrors schema base registry (throw e) (throw e) :=
  fun _ _ answers => .error answers (.refl _) accounts

theorem mirrors_put (f : Writer → Writer) : Mirrors schema base registry (put f) (put f) :=
  fun _ _ answers => .ok answers (.refl _)

theorem Mirrors.seq {x x' : Writing Registry Unit} {y y' : Writing Demand Unit}
    (first : Mirrors schema base registry x y)
    (second : ∀ later, registry.view.Grows later.view → Mirrors schema base later x' y') :
    Mirrors schema base registry (x >>= fun _ => x') (y >>= fun _ => y') := by
  intro demand w answers
  have here := first demand w answers
  show Alike schema base registry (EStateM.bind x _ _) (EStateM.bind y _ _)
  rw [EStateM.bind, EStateM.bind]
  generalize x ⟨registry, w⟩ = one at here
  generalize y ⟨demand, w⟩ = two at here
  cases here with
  | error answers grows accounts => exact .error answers grows accounts
  | @ok after demand w answers grows =>
    have there := second after grows demand w answers
    show Alike schema base registry (x' ⟨after, w⟩) (y' ⟨demand, w⟩)
    generalize x' ⟨after, w⟩ = one at there
    generalize y' ⟨demand, w⟩ = two at there
    cases there with
    | ok answers more => exact .ok answers (grows.trans more)
    | error answers more accounts => exact .error answers (grows.trans more) accounts

theorem Mirrors.adapt {x : Writing Registry Unit} {y : Writing Demand Unit} (mirrors : Mirrors schema base registry x y)
    (wrap : Error → Error) (kept : ∀ e, (wrap e).cause = e.cause) :
    Mirrors schema base registry (x.adaptExcept wrap) (y.adaptExcept wrap) := by
  intro demand w answers
  have here := mirrors demand w answers
  show Alike schema base registry (EStateM.adaptExcept wrap x _) (EStateM.adaptExcept wrap y _)
  rw [EStateM.adaptExcept, EStateM.adaptExcept]
  generalize x ⟨registry, w⟩ = one at here
  generalize y ⟨demand, w⟩ = two at here
  cases here with
  | ok answers grows => exact .ok answers grows
  | error answers grows accounts => exact .error answers grows (accounts.of_cause (kept _))

theorem mirrors_ofExcept {result : Except Error α} {x : α → Writing Registry Unit} {y : α → Writing Demand Unit}
    (failed : ∀ e, result = .error e → schema.Accounts e)
    (done : ∀ a, result = .ok a → Mirrors schema base registry (x a) (y a)) :
    Mirrors schema base registry (ofExcept result >>= x) (ofExcept result >>= y) := by
  cases result with
  | error e => exact mirrors_throw (failed e rfl)
  | ok a => exact fun demand w answers => done a rfl demand w answers

/-- A type that is asked for is handed out as a link that leads to it. -/
theorem mirrors_request {type : Ty} {x : Link → Writing Registry Unit} {y : Ty → Writing Demand Unit}
    (rest : ∀ (later : Registry) link, later.view.LinksTo type link → Mirrors schema base later (x link) (y type)) :
    Mirrors schema base registry (request schema type >>= x) (request schema type >>= y) := by
  intro demand w answers
  have made := answers.coherent.link type
  have there := rest _ _ made.leads _ w (answers.link type)
  show Alike schema base registry (x (registry.link schema type).1 ⟨(registry.link schema type).2, w⟩) (y type ⟨_, w⟩)
  generalize x (registry.link schema type).1 ⟨(registry.link schema type).2, w⟩ = one at there
  generalize y type ⟨_, w⟩ = two at there
  cases there with
  | ok answers more => exact .ok answers (made.grows.trans more)
  | error answers more accounts => exact .error answers (made.grows.trans more) accounts

/-- A link to a type leads to the routine of the type. -/
theorem mirrors_encoder {type : Ty} {link : Link} (leads : registry.view.LinksTo type link)
    {x : Encoder Link → Writing Registry Unit} {y : Encoder Ty → Writing Demand Unit}
    (rest : ∀ routine, (schema.routine type).Like registry.view.LinksTo routine →
      Mirrors schema base registry (x ⟨type, routine⟩) (y ⟨type, schema.routine type⟩)) :
    Mirrors schema base registry (encoder schema link >>= x) (encoder schema type >>= y) := by
  intro demand w answers
  obtain ⟨routine, found, like⟩ := answers.coherent.follow leads
  have run : (encoder schema link >>= x) ⟨registry, w⟩ = x ⟨type, routine⟩ ⟨registry, w⟩ := by
    show EStateM.bind (ofExcept (registry.follow schema link)) x _ = _
    rw [found]
    rfl
  rw [run]
  exact rest routine like demand w answers

/-- Parts that correspond one by one, each of which is written alike whatever has been learnt since the start. -/
theorem mirrors_forM {start : Registry} {x : α → Writing Registry Unit} {y : β → Writing Demand Unit} {as : List α}
    {bs : List β} (pairs : List.Forall₂ (fun a b => ∀ later : Registry, start.view.Grows later.view →
      Mirrors schema base later (x a) (y b)) as bs) (grows : start.view.Grows registry.view) :
    Mirrors schema base registry (as.forM x) (bs.forM y) := by
  induction pairs generalizing registry with
  | nil => exact mirrors_pure
  | cons here rest ih => exact (here registry grows).seq fun later more => ih (grows.trans more)

theorem mirrors_fieldText (fields : Keyed Data) (planned : PlannedField) (write : String → Writer → Writer) :
    Mirrors schema base registry (fieldText schema fields planned write) (fieldText schema fields planned write) := by
  refine mirrors_ofExcept (fun _ => Schema.fieldText_accounts) fun text? _ => ?_
  cases text? with
  | none => exact mirrors_pure
  | some text => exact mirrors_put _

theorem mirrors_texts (fields : Keyed Data) (planned? : Option PlannedField) (write : String → Writer → Writer) :
    Mirrors schema base registry (planned?.forM fun planned => fieldText schema fields planned write)
      (planned?.forM fun planned => fieldText schema fields planned write) := by
  cases planned? with
  | none => exact mirrors_pure
  | some planned => exact mirrors_fieldText fields planned write

/-- Ways of writing a value that mirror each other for any type, given a link that leads to it. -/
def AllMirror (schema : Schema) (base : Registry) (x : ElementWriting Registry Link) (y : ElementWriting Demand Ty) :
    Prop :=
  ∀ (registry : Registry) type link name, registry.view.LinksTo type link →
    Mirrors schema base registry (x link name) (y type name)

theorem mirrors_child {fields : Keyed Data} {xs : Keyed (ElementWriting Registry Link)}
    {ys : Keyed (ElementWriting Demand Ty)} (pairs : Keyed.Pairs (AllMirror schema base) xs ys)
    {planned : PlannedField} {type : Ty} {link : Link} (leads : registry.view.LinksTo type link) :
    Mirrors schema base registry (child fields xs ⟨planned, link⟩) (child fields ys ⟨planned, type⟩) := by
  unfold child
  dsimp only
  split
  · exact mirrors_pure
  · have found := pairs.get? planned.field.name
    generalize xs.get? planned.field.name = x? at found ⊢
    generalize ys.get? planned.field.name = y? at found ⊢
    cases found with
    | none => exact mirrors_pure
    | some mirror => exact (mirror _ _ _ _ leads).adapt _ fun _ => rfl

theorem mirrors_record {fields : Keyed Data} {xs : Keyed (ElementWriting Registry Link)}
    {ys : Keyed (ElementWriting Demand Ty)} (pairs : Keyed.Pairs (AllMirror schema base) xs ys)
    {linked : List (ChildField Link)} {children : List (ChildField Ty)}
    (alike : List.Forall₂ (fun a b => a.toPlannedField = b.toPlannedField ∧ registry.view.LinksTo a.link b.link)
      children linked) (attributes : List PlannedField) (characters? cdata? : Option PlannedField) (name : String) :
    Mirrors schema base registry (record schema ⟨attributes, characters?, cdata?, linked⟩ fields xs name)
      (record schema ⟨attributes, characters?, cdata?, children⟩ fields ys name) := by
  have each : List.Forall₂ (fun a b => ∀ later : Registry, registry.view.Grows later.view →
      Mirrors schema base later (child fields xs a) (child fields ys b)) linked children := by
    refine alike.flip.imp fun a b pair later grows => ?_
    obtain ⟨planned, link⟩ := a
    obtain ⟨_, type⟩ := b
    obtain ⟨rfl, leads⟩ := pair
    exact mirrors_child pairs (grows.links leads)
  refine (mirrors_put (·.start name)).seq fun opened grows => ?_
  refine (mirrors_forM (List.forall₂_same.2 fun planned _ _ _ => mirrors_fieldText _ _ _) (.refl _)).seq
    fun tagged more => (mirrors_texts _ _ _).seq fun texts more' => (mirrors_texts _ _ _).seq fun sections more'' => ?_
  exact (mirrors_forM each (grows.trans (more.trans (more'.trans more'')))).seq fun _ _ => mirrors_put _

theorem mirrors_map {xs : Keyed (ElementWriting Registry Link)} {ys : Keyed (ElementWriting Demand Ty)}
    (pairs : Keyed.Pairs (AllMirror schema base) xs ys) {type : Ty} {link : Link}
    (leads : registry.view.LinksTo type link) (name : String) :
    Mirrors schema base registry (map link xs name) (map type ys name) := by
  refine (mirrors_put (·.start name)).seq fun opened grows => ?_
  refine (mirrors_forM (pairs.sort.imp fun x y pair later more => ?_) grows).seq fun _ _ => mirrors_put _
  obtain ⟨key, x⟩ := x
  obtain ⟨_, y⟩ := y
  obtain ⟨rfl, mirror⟩ := pair
  show Mirrors schema base later (entry link key x) (entry type key y)
  rw [entry, entry]
  split
  · exact (mirror _ _ _ _ (more.links leads)).adapt _ fun _ => rfl
  · exact mirrors_throw (Schema.accounts_of_ne fun _ same => by cases same)

theorem mirrors_items {xs : List (ElementWriting Registry Link)} {ys : List (ElementWriting Demand Ty)}
    (pairs : List.Forall₂ (AllMirror schema base) xs ys) {type : Ty} {link : Link}
    (leads : registry.view.LinksTo type link) (name : String) (index : Nat) :
    Mirrors schema base registry (items link name index xs) (items type name index ys) := by
  induction pairs generalizing registry index with
  | nil => exact mirrors_pure
  | cons mirror rest ih =>
    exact ((mirror _ _ _ _ leads).adapt (.atIndex index) fun _ => rfl).seq fun later grows =>
      ih (grows.links leads) (index + 1)

/-- Ways of writing the parts of a value that mirror each other. -/
structure PartsMirror (schema : Schema) (base : Registry) (x : PartWritings Registry Link)
    (y : PartWritings Demand Ty) : Prop where
  content : AllMirror schema base x.content y.content
  entries : Keyed.Pairs (AllMirror schema base) x.entries y.entries
  items : List.Forall₂ (AllMirror schema base) x.items y.items

end Writing

namespace Schema
open Writing
variable {schema : Schema} {base registry : Registry}

theorem writeBy_mirrors {x : PartWritings Registry Link} {y : PartWritings Demand Ty}
    (parts : PartsMirror schema base x y)
    {outline : Routine Ty} {routine : Routine Link} (like : outline.Like registry.view.LinksTo routine) (type : Ty)
    (data : Data) (name : String) :
    Mirrors schema base registry (schema.writeBy ⟨type, routine⟩ data x name)
      (schema.writeBy ⟨type, outline⟩ data y name) := by
  have mismatch : Mirrors schema base registry (throw (.mismatch .otherType (schema.typeName type)))
      (throw (.mismatch .otherType (schema.typeName type))) :=
    mirrors_throw (accounts_of_ne fun _ same => by cases same)
  cases like with
  | scalar =>
    cases data with
    | scalar value => exact mirrors_put (·.textElement name value.format)
    | _ => exact mismatch
  | pointer leads =>
    cases data with
    | present data => exact parts.content _ _ _ _ leads
    | absent => exact mirrors_put fun w => (w.start name).close name
    | _ => exact mismatch
  | dynamic =>
    cases data with
    | dynamic content data => exact mirrors_request fun later link leads => parts.content _ _ _ _ leads
    | absent => exact mirrors_put fun w => (w.start name).close name
    | _ => exact mismatch
  | native =>
    cases data with
    | native value => exact mirrors_put (·.value name value)
    | _ => exact mismatch
  | record children =>
    cases data with
    | record fields => exact mirrors_record parts.entries children _ _ _ _
    | _ => exact mismatch
  | map leads =>
    cases data with
    | map entries => exact mirrors_map parts.entries leads _
    | _ => exact mismatch
  | keyedMap => exact mirrors_throw (accounts_of_ne fun _ same => by cases same)
  | items leads =>
    cases data with
    | list items => exact mirrors_items parts.items leads _ _
    | _ => exact mismatch
  | custom =>
    refine mirrors_ofExcept (fun _ => custom_accounts) fun custom known => ?_
    refine mirrors_ofExcept (fun _ failed => (Refuses.marshal known failed).accounts) fun xml _ => ?_
    exact mirrors_put _
  | unsupported => exact mirrors_throw (accounts_of_ne fun _ same => by cases same)

theorem writeWith_mirrors {x : PartWritings Registry Link} {y : PartWritings Demand Ty}
    (parts : PartsMirror schema base x y) (data : Data) :
    AllMirror schema base (schema.writeWith data x) (schema.writeWith data y) :=
  fun _ type _ name leads => mirrors_encoder leads fun _ like => writeBy_mirrors parts like type data name

/-- Writing goes the same way with a registry as without one. -/
theorem write_mirrors (data : Data) : AllMirror schema base (schema.write data) (schema.write data) := by
  have nothing : AllMirror schema base ({} : PartWritings Registry Link).content ({} : PartWritings Demand Ty).content :=
    fun _ _ _ _ _ => mirrors_pure
  have entries {list : Keyed Data}
      (each : ∀ part ∈ list.map Prod.snd, AllMirror schema base (schema.write part) (schema.write part)) :
      Keyed.Pairs (AllMirror schema base) (schema.writeEntries list) (schema.writeEntries list) := by
    induction list with
    | nil => exact .nil
    | cons entry rest ih =>
      obtain ⟨here, later⟩ := List.forall_mem_cons.1 each
      exact .cons ⟨rfl, here⟩ (ih later)
  have items {list : List Data} (each : ∀ part ∈ list, AllMirror schema base (schema.write part) (schema.write part)) :
      List.Forall₂ (AllMirror schema base) (schema.writeItems list) (schema.writeItems list) := by
    induction list with
    | nil => exact .nil
    | cons item rest ih =>
      obtain ⟨here, later⟩ := List.forall_mem_cons.1 each
      exact .cons here (ih later)
  induction data using Data.induction with
  | step data ih =>
  cases data with
  | scalar | absent | native | sealed => exact writeWith_mirrors ⟨nothing, .nil, .nil⟩ _
  | present | dynamic => exact writeWith_mirrors ⟨ih _ (List.mem_singleton_self _), .nil, .nil⟩ _
  | record list | map list =>
    exact writeWith_mirrors (x := { entries := schema.writeEntries list })
      (y := { entries := schema.writeEntries list }) ⟨nothing, entries ih, .nil⟩ _
  | list list =>
    exact writeWith_mirrors (x := { items := schema.writeItems list }) (y := { items := schema.writeItems list })
      ⟨nothing, .nil, items ih⟩ _

end Schema

/-- Whatever a registry knows, marshaling with it gives what it gives without one. -/
theorem Registry.Coherent.marshal {schema : Schema} {base : Registry} (coherent : base.Coherent schema) (type : Ty)
    (data : Data) (settings : Settings) :
    (base.marshal schema type data settings).1 = (schema.marshal type data settings ({} : Demand)).1 ∧
      Answers schema base (base.marshal schema type data settings).2 (schema.marshal type data settings ({} : Demand)).2 ∧
      ∀ e, (base.marshal schema type data settings).1 = .error e → schema.Accounts e := by
  have alike : Writing.Alike schema base base (schema.marshalWith type data settings #[] base)
      (schema.marshalWith type data settings #[] ({} : Demand)) :=
    Writing.mirrors_request (fun _ _ leads => schema.write_mirrors data _ _ _ _ leads) _ _ coherent.answers
  unfold Registry.marshal Schema.marshal
  generalize schema.marshalWith type data settings #[] base = one at alike
  generalize schema.marshalWith type data settings #[] ({} : Demand) = two at alike
  cases alike with
  | ok answers grows => exact ⟨rfl, answers, fun _ failed => by cases failed⟩
  | error answers grows accounts =>
    refine ⟨rfl, answers, fun e failed => ?_⟩
    cases failed
    exact accounts

/-- Two ends of an assignment that are the same, with a registry that has answered what has been asked for. -/
structure Assigned.Alike (schema : Schema) (base : Registry) (x : Assigned Registry) (y : Assigned Demand) : Prop where
  target : x.target = y.target
  error? : x.error? = y.error?
  answers : Registry.Answers schema base x.registry y.registry
  accounts : ∀ e ∈ x.error?, schema.Accounts e

namespace Assigned.Alike
variable {schema : Schema} {base registry : Registry} {demand : Demand} {x : Assigned Registry} {y : Assigned Demand}

theorem done (answers : Registry.Answers schema base registry demand) (target : Data) :
    Alike schema base { target, registry } { target, registry := demand } :=
  ⟨rfl, rfl, answers, fun _ failed => by cases failed⟩

theorem failed (answers : Registry.Answers schema base registry demand) (target : Data)
    (accounts : schema.Accounts e) : Alike schema base (.failed target registry e) (.failed target demand e) :=
  ⟨rfl, rfl, answers, fun _ same => by cases same; exact accounts⟩

theorem part (alike : Alike schema base x y) (whole : Data → Data) (wrap : Error → Error)
    (kept : ∀ e, (wrap e).cause = e.cause) : Alike schema base (x.part whole wrap) (y.part whole wrap) where
  target := congrArg whole alike.target
  error? := congrArg (Option.map wrap) alike.error?
  answers := alike.answers
  accounts e failed := by
    obtain ⟨inner, held, rfl⟩ := Option.map_eq_some_iff.1 failed
    exact (alike.accounts inner held).of_cause (kept inner)

theorem andThen (alike : Alike schema base x y) {f : Registry → Data → Assigned Registry}
    {g : Demand → Data → Assigned Demand}
    (rest : ∀ target, Alike schema base (f x.registry target) (g y.registry target)) :
    Alike schema base (x.andThen f) (y.andThen g) := by
  unfold Assigned.andThen
  rw [← alike.error?, ← alike.target]
  split
  · exact alike
  · exact rest _

end Assigned.Alike

namespace Assignment
variable {schema : Schema} {base registry : Registry} {demand : Demand}

/-- An assignment with a registry that goes the same way as one without. -/
def Mirrors (schema : Schema) (base : Registry) (x : Assignment Registry) (y : Assignment Demand) : Prop :=
  ∀ type name registry demand target, Registry.Answers schema base registry demand →
    Assigned.Alike schema base (x type name registry target) (y type name demand target)

theorem fields_mirror {xs : Keyed (Assignment Registry)} {ys : Keyed (Assignment Demand)}
    (pairs : Keyed.Pairs (Mirrors schema base) xs ys) (plan : Plan)
    (answers : Registry.Answers schema base registry demand) (target : Data) :
    Assigned.Alike schema base (fields schema plan xs registry target) (fields schema plan ys demand target) := by
  induction pairs generalizing registry demand target with
  | nil => exact .done answers target
  | @cons x y xs ys pair rest ih =>
    obtain ⟨key, x⟩ := x
    obtain ⟨_, y⟩ := y
    obtain ⟨rfl, mirror⟩ := pair
    unfold fields
    cases plan.find? key with
    | none => exact ih answers _
    | some planned =>
      cases target with
      | record slots =>
        have here := mirror planned.field.type planned.tag.name registry demand
          ((Keyed.get? slots planned.field.name).getD (schema.blank planned.field.type)) answers
        exact (here.part (fun data => .record (Keyed.put slots planned.field.name data)) (.inField planned.field.name)
          fun _ => rfl).andThen fun target => ih here.answers target
      | _ => exact ih answers _

theorem entries_mirror {xs : Keyed (Assignment Registry)} {ys : Keyed (Assignment Demand)}
    (pairs : Keyed.Pairs (Mirrors schema base) xs ys) (key : ScalarType) (type : Ty)
    (answers : Registry.Answers schema base registry demand) (target : Data) :
    Assigned.Alike schema base (entries schema key type xs registry target)
      (entries schema key type ys demand target) := by
  induction pairs generalizing registry demand target with
  | nil => exact .done answers target
  | @cons x y xs ys pair rest ih =>
    obtain ⟨name, x⟩ := x
    obtain ⟨_, y⟩ := y
    obtain ⟨rfl, mirror⟩ := pair
    unfold entries
    cases key.read? name with
    | none =>
      refine .failed answers target ?_
      exact Schema.accounts_of_ne fun _ same => by cases same
    | some key =>
      have here := mirror type name registry demand (schema.blank type) answers
      dsimp only at here ⊢
      rw [← here.error?]
      exact (here.part _ (.inKey name) fun _ => rfl).andThen fun target => ih here.answers target

theorem items_mirror {xs : List (Assignment Registry)} {ys : List (Assignment Demand)}
    (pairs : List.Forall₂ (Mirrors schema base) xs ys) (type : Ty) (name : String) (before : List Data)
    (answers : Registry.Answers schema base registry demand) :
    Assigned.Alike schema base (items schema type name xs before registry)
      (items schema type name ys before demand) := by
  induction pairs generalizing registry demand before with
  | nil => exact .done answers _
  | cons mirror rest ih =>
    have here := mirror type name registry demand (schema.blank type) answers
    unfold items
    dsimp only
    rw [← here.error?, ← here.target]
    split
    · rename_i e failed
      exact .failed here.answers _ ((here.accounts e failed).of_cause rfl)
    · exact ih _ here.answers

theorem inPlace_mirrors {xs : List (Assignment Registry)} {ys : List (Assignment Demand)}
    (pairs : List.Forall₂ (Mirrors schema base) xs ys) (type : Ty) (name : String) (before after : List Data)
    (answers : Registry.Answers schema base registry demand) :
    Assigned.Alike schema base (inPlace type name xs before after registry)
      (inPlace type name ys before after demand) := by
  induction pairs generalizing registry demand before after with
  | nil => exact .done answers _
  | cons mirror rest ih =>
    cases after with
    | nil => exact .done answers _
    | cons old after =>
      have here := mirror type name registry demand old answers
      unfold inPlace
      dsimp only
      rw [← here.error?, ← here.target]
      split
      · rename_i e failed
        exact .failed here.answers _ ((here.accounts e failed).of_cause rfl)
      · exact ih _ _ here.answers

end Assignment

namespace Schema
variable {schema : Schema} {base registry : Registry} {demand : Demand}

theorem assignCustom_mirrors (value : Value) (custom element : String)
    (answers : Registry.Answers schema base registry demand) (target : Data) :
    Assigned.Alike schema base (schema.assignCustom value custom element registry target)
      (schema.assignCustom value custom element demand target) := by
  unfold assignCustom
  split
  · rename_i type known
    exact ⟨rfl, rfl, answers, fun e failed => (Refuses.unmarshal known failed).accounts⟩
  · rename_i failed
    exact .failed answers _ (custom_accounts failed)

theorem misfit_mirrors (value : Value) (type : Ty) (answers : Registry.Answers schema base registry demand)
    (target : Data) :
    Assigned.Alike schema base (schema.misfit value type registry target) (schema.misfit value type demand target) :=
  .failed answers _ (accounts_of_ne fun _ same => by cases same)

theorem assignWith_mirrors (value : Value) {xs : Keyed (Assignment Registry)} {ys : Keyed (Assignment Demand)}
    {items : List (Assignment Registry)} {items' : List (Assignment Demand)}
    (inEntries : Keyed.Pairs (Assignment.Mirrors schema base) xs ys)
    (inItems : List.Forall₂ (Assignment.Mirrors schema base) items items') :
    (schema.assignWith value xs items).Mirrors schema base (schema.assignWith value ys items') := by
  intro type
  induction type with
  | scalar type =>
    intro name registry demand target answers
    unfold assignWith
    split
    · exact misfit_mirrors _ _ answers _
    · unfold assignScalar
      split
      · exact .done answers _
      · exact .failed answers _ (accounts_of_ne fun _ same => by cases same)
  | option type ih =>
    intro name registry demand target answers
    unfold assignWith
    split
    · exact .done answers _
    · exact (ih name registry demand _ answers).part _ id fun _ => rfl
  | box type ih =>
    exact fun name registry demand target answers => (ih name registry demand _ answers).part _ id fun _ => rfl
  | dynamic | native => exact fun name registry demand target answers => .done answers _
  | unsupported => exact fun name registry demand target answers => misfit_mirrors _ _ answers _
  | record record =>
    intro name registry demand target answers
    unfold assignWith
    split
    · have same : (registry.plan schema record).1 = schema.plan record := (answers.coherent.plan_eq record).1
      show Assigned.Alike schema base (Assignment.fields schema (registry.plan schema record).1 _ _ _) _
      rw [same]
      exact Assignment.fields_mirror inEntries _ (answers.plan record) target
    · exact misfit_mirrors _ _ answers _
  | map family key type =>
    intro name registry demand target answers
    unfold assignWith
    split
    · exact Assignment.entries_mirror inEntries _ _ answers target
    · exact .failed answers _ (accounts_of_ne fun _ same => by cases same)
    · exact misfit_mirrors _ _ answers _
  | sequence type ih =>
    intro name registry demand target answers
    exact Assignment.items_mirror (value.forall₂_listed inItems fun _ => ih) type name [] answers
  | array type length ih =>
    intro name registry demand target answers
    exact Assignment.inPlace_mirrors (List.forall₂_take length (value.forall₂_listed inItems fun _ => ih)) type name []
      _ answers
  | custom custom =>
    exact fun name registry demand target answers => assignCustom_mirrors value custom name answers target

mutual

/-- Assigning goes the same way with a registry as without one. -/
theorem assign_mirrors : ∀ value : Value, (schema.assign value).Mirrors schema base (schema.assign value)
  | .string _ => assignWith_mirrors _ .nil .nil
  | .map entries => assignWith_mirrors _ (assignEntries_mirror entries) .nil
  | .list items => assignWith_mirrors _ .nil (assignItems_mirror items)

theorem assignEntries_mirror : ∀ entries : List (String × Value),
    Keyed.Pairs (Assignment.Mirrors schema base) (schema.assignEntries entries) (schema.assignEntries entries)
  | [] => .nil
  | (_, value) :: rest => .cons ⟨rfl, assign_mirrors value⟩ (assignEntries_mirror rest)

theorem assignItems_mirror : ∀ items : List Value,
    List.Forall₂ (Assignment.Mirrors schema base) (schema.assignItems items) (schema.assignItems items)
  | [] => .nil
  | value :: rest => .cons (assign_mirrors value) (assignItems_mirror rest)

end

end Schema

/-- Whatever a registry knows, unmarshaling with it does what it does without one. -/
theorem Registry.Coherent.unmarshal {schema : Schema} {base : Registry} (coherent : base.Coherent schema) (type : Ty)
    (xml : List UInt8) (target : Data) :
    Assigned.Alike schema base (base.unmarshal schema type xml target)
      (schema.unmarshal type xml target ({} : Demand)) := by
  unfold Registry.unmarshal Schema.unmarshal
  split
  · split
    · rename_i known
      exact ⟨rfl, rfl, coherent.answers, fun e failed => (Schema.Refuses.unmarshal known failed).accounts⟩
    · rename_i failed
      exact .failed coherent.answers _ (Schema.custom_accounts failed)
  · split
    · exact schema.assign_mirrors _ _ _ _ _ _ coherent.answers
    · rename_i e failed
      refine .failed coherent.answers _ (Schema.accounts_of_ne fun type same => ?_)
      have refused : Reading.document .entries (.ofBytes xml) = .error e := by
        rw [Value.ofStream] at failed
        cases read : Reading.document .entries (.ofBytes xml) with
        | ok made => rw [read] at failed; cases failed
        | error e' => rw [read] at failed; exact congrArg Except.error (Except.error.inj failed)
      have ofReading := Reading.document_error .entries (Stream.ofBytes_fresh xml) refused
      rw [ofReading.cause] at same
      subst same
      cases ofReading

/-- A call of writing or of reading. -/
inductive Call where
  | marshal (type : Ty) (data : Data) (settings : Settings)
  | unmarshal (type : Ty) (xml : List UInt8) (target : Data)

/-- What a call leaves of what is known about types, or of what has been asked for. -/
def Call.run [Directory σ ρ] (schema : Schema) (registry : σ) : Call → σ
  | marshal type data settings => (schema.marshal type data settings registry).2
  | unmarshal type xml target => (schema.unmarshal type xml target registry).registry

/-- What a call asks for. -/
def Call.demand (schema : Schema) (call : Call) : Demand :=
  call.run schema {}

/-- The registry that comes about when a new one is used for some calls. -/
def Registry.after (schema : Schema) (calls : List Call) : Registry :=
  calls.foldl (Call.run schema) {}

namespace Registry
variable {schema : Schema} {base mid last : Registry} {demand more : Demand}

/-- A registry that answers one demand and then another answers both. -/
theorem Answers.trans (first : Answers schema base mid demand) (second : Answers schema mid last more) :
    Answers schema base last
      { requested := demand.requested ++ more.requested, decoded := demand.decoded ++ more.decoded } where
  coherent := second.coherent
  grows := first.grows.trans second.grows
  knows type := by
    rw [second.knows, first.knows, or_assoc]
    simp only [List.mem_append, or_and_right, exists_or]
  plans name := by
    rw [second.plans, first.plans, List.mem_append]
    constructor
    · rintro ((there | known | member) | known | member)
      · exact .inl there
      · exact .inr (.inl (second.grows.knows known))
      · exact .inr (.inr (.inl member))
      · exact .inr (.inl known)
      · exact .inr (.inr (.inr member))
    · rintro (there | known | member | member)
      · exact .inl (.inl there)
      · exact .inr (.inl known)
      · exact .inl (.inr (.inr member))
      · exact .inr (.inr member)
  idle requested decoded := by
    obtain ⟨requested, requested'⟩ := List.forall_mem_append.1 requested
    obtain ⟨decoded, decoded'⟩ := List.forall_mem_append.1 decoded
    obtain rfl := first.idle requested decoded
    exact second.idle requested' decoded'

theorem Coherent.call (coherent : base.Coherent schema) (call : Call) :
    Answers schema base (call.run schema base) (call.demand schema) := by
  cases call with
  | marshal type data settings => exact (coherent.marshal type data settings).2.1
  | unmarshal type xml target => exact (coherent.unmarshal type xml target).answers

/-- Some calls one after another leave a registry that has answered all of them. -/
theorem Coherent.calls (coherent : base.Coherent schema) (calls : List Call) :
    Answers schema base (calls.foldl (Call.run schema) base)
      { requested := calls.flatMap fun call => (call.demand schema).requested
        decoded := calls.flatMap fun call => (call.demand schema).decoded } := by
  induction calls generalizing base with
  | nil => exact coherent.answers
  | cons call rest ih =>
    have first := coherent.call call
    exact first.trans (ih first.coherent)

theorem after_answers (schema : Schema) (calls : List Call) : Answers schema {} (after schema calls)
    { requested := calls.flatMap fun call => (call.demand schema).requested
      decoded := calls.flatMap fun call => (call.demand schema).decoded } :=
  (empty_coherent schema).calls calls

end Registry

end XmlBinding
