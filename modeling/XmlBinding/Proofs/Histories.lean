import XmlBinding.Proofs.Decoding

/-! Registries after any number of calls. What a registry has learnt does not show in what it writes or reads; and what
it has learnt is what the types that were asked for lead to, and nothing else. -/
namespace XmlBinding

namespace Registry
variable {schema : Schema} {registry : Registry}

/-- A link in an encoder leads to the type it stands for. -/
theorem Coherent.inside (coherent : registry.Coherent schema) {encoder : Encoder Link}
    (member : encoder ∈ registry.memory.encoders) {link : Link} (inside : link ∈ encoder.routine.links) :
    ∃ type, schema.Step encoder.type type ∧ registry.view.LinksTo type link := by
  obtain ⟨address, held⟩ := Array.getElem?_of_mem member
  obtain ⟨routine, held', like⟩ := coherent.encoders (coherent.kept held)
  have same : encoder = ⟨encoder.type, routine⟩ := Option.some.inj (held.symm.trans held')
  rw [same] at inside
  obtain ⟨type, needed, leads⟩ := exists_of_forall₂ like.links.flip inside
  exact ⟨type, Schema.step_iff.2 needed, leads⟩

/-- A stub that stands in an encoder has been told the place of the encoder of its type. -/
theorem Coherent.stub (coherent : registry.Coherent schema) {encoder : Encoder Link}
    (member : encoder ∈ registry.memory.encoders) {type : Ty} {cell : Nat}
    (inside : .stub type cell ∈ encoder.routine.links) :
    ∃ address, registry.memory.told.lookup cell = some address ∧ registry.routine? type = some address := by
  obtain ⟨other, -, leads⟩ := coherent.inside member inside
  cases leads with
  | waiting pending => cases pending
  | told told found => exact ⟨_, told, found⟩

/-- A record that may hold another of its kind: what is in the option leads back to the record through a stub. -/
example :
    let node : RecordType := ⟨"Node", [⟨"next", .option (.record "Node"), ""⟩], .record [("next", .absent)]⟩
    let schema : Schema := ⟨[("Node", node)], [], fun _ => ""⟩
    let (link, registry) := ({} : Registry).link schema (.record "Node")
    registry.memory.encoders.toList.map (·.routine.links) = [[.stub (.record "Node") 0], [.built 0]] ∧
      link = .built 1 ∧ registry.memory.told.lookup 0 = some 1 := by
  decide +kernel

/-- What a registry has been used for makes no difference to the next call: it writes the same or fails with the same
error as on a new registry, and reads the same into the target. An error says that a routine is missing only if a custom
type has made it; for every stub in an encoder has been told where the encoder of its type is, and leads there. -/
theorem after_invisible (schema : Schema) (calls : List Call) :
    (∀ type data settings,
      ((after schema calls).marshal schema type data settings).1 =
          (({} : Registry).marshal schema type data settings).1 ∧
        ∀ e, ((after schema calls).marshal schema type data settings).1 = .error e → schema.Accounts e) ∧
    (∀ type xml target,
      ((after schema calls).unmarshal schema type xml target).target =
          (({} : Registry).unmarshal schema type xml target).target ∧
        ((after schema calls).unmarshal schema type xml target).error? =
          (({} : Registry).unmarshal schema type xml target).error? ∧
        ∀ e ∈ ((after schema calls).unmarshal schema type xml target).error?, schema.Accounts e) ∧
    ∀ encoder ∈ (after schema calls).memory.encoders, ∀ type cell, .stub type cell ∈ encoder.routine.links →
      ∃ address routine, (after schema calls).memory.told.lookup cell = some address ∧
        (after schema calls).routine? type = some address ∧
        (after schema calls).follow schema (.stub type cell) = .ok ⟨type, routine⟩ ∧
        (schema.routine type).Like (after schema calls).view.LinksTo routine := by
  have used := (after_answers schema calls).coherent
  have new := empty_coherent schema
  refine ⟨fun type data settings => ?_, fun type xml target => ?_, fun encoder member type cell inside => ?_⟩
  · obtain ⟨same, -, accounts⟩ := used.marshal type data settings
    exact ⟨same.trans (new.marshal type data settings).1.symm, accounts⟩
  · have done := used.unmarshal type xml target
    have done' := new.unmarshal type xml target
    exact ⟨done.target.trans done'.target.symm, done.error?.trans done'.error?.symm, done.accounts⟩
  · obtain ⟨address, told, found⟩ := used.stub member inside
    obtain ⟨routine, followed, like⟩ := used.follow (.told told found)
    exact ⟨address, routine, told, found, followed, like⟩

end Registry

namespace Call
variable {schema : Schema} {call : Call}

/-- A call of writing asks for the type of the value and for those of the dynamic values that it comes by. -/
inductive Asks (schema : Schema) : Call → Ty → Prop where
  | root : Asks schema (.marshal type data settings) type
  | content (meets : schema.Meets met type data (schema.rootName settings.rootTag type data)) :
      Asks schema (.marshal type data settings) met

/-- A call of reading decodes the records that it comes by in the document. -/
inductive Decodes (schema : Schema) : Call → String → Prop where
  | document (accepted : Value.ofStream (.ofBytes xml) = .ok value)
      (decodes : schema.Decodes record value type ({} : Settings).rootTag target) :
      Decodes schema (.unmarshal type xml target) record

theorem mem_requested : type ∈ (call.demand schema).requested ↔ call.Asks schema type := by
  cases call with
  | marshal root data settings =>
    refine ((schema.marshal_asks root data settings).1 type).trans ⟨?_, fun asks => ?_⟩
    · rintro (rfl | meets)
      · exact .root
      · exact .content meets
    · cases asks with
      | root => exact .inl rfl
      | content meets => exact .inr meets
  | unmarshal root xml target =>
    have none : ((Call.unmarshal root xml target).demand schema).requested = [] :=
      (schema.unmarshal_learns root xml target).requested
    rw [none]
    exact ⟨nofun, nofun⟩

theorem mem_decoded : record ∈ (call.demand schema).decoded ↔ call.Decodes schema record := by
  cases call with
  | marshal root data settings =>
    have none : ((Call.marshal root data settings).demand schema).decoded = [] :=
      (schema.marshal_asks root data settings).2
    rw [none]
    exact ⟨nofun, nofun⟩
  | unmarshal root xml target =>
    refine ((schema.unmarshal_learns root xml target).exact record).trans ⟨?_, fun decodes => ?_⟩
    · rintro (member | ⟨value, accepted, decodes⟩)
      · cases member
      · exact .document accepted decodes
    · cases decodes with | document accepted decodes => exact .inr ⟨_, accepted, decodes⟩

end Call

/-- What a registry holds after some calls: what they have asked for, and what this leads to. -/
structure Registry.Closure (schema : Schema) (calls : List Call) (registry : Registry) : Prop where
  /-- Exactly those types are known that lead on from the types asked for. -/
  knows (type : Ty) : registry.Knows type ↔ ∃ call ∈ calls, ∃ root, call.Asks schema root ∧ schema.Leads root type
  /-- Exactly those records have a plan that are known or have been decoded, and the plan is theirs. -/
  plans (name : String) (plan : Plan) : registry.plans.get? name = some plan ↔
    plan = schema.plan name ∧ (registry.Knows (.record name) ∨ ∃ call ∈ calls, call.Decodes schema name)
  /-- Nothing is kept twice. -/
  types : (registry.routines.map Prod.fst).Nodup
  names : registry.plans.Distinct
  /-- Every type can be asked for: its encoder is built then, with those of all types that it leads to. -/
  built (type : Ty) : ∃ routine,
    (registry.link schema type).2.follow schema (registry.link schema type).1 = .ok ⟨type, routine⟩ ∧
      (schema.routine type).Like (registry.link schema type).2.view.LinksTo routine ∧
      ∀ other, (registry.link schema type).2.Knows other ↔ registry.Knows other ∨ schema.Leads type other
  /-- Later calls drop nothing and replace nothing. -/
  kept (more : List Call) : registry.view.Grows (more.foldl (Call.run schema) registry).view
  /-- Calls that have been made before add nothing. -/
  again : ∀ call ∈ calls, call.run schema registry = registry

/-- A registry holds exactly what the calls so far have asked for and what this leads to. -/
theorem Registry.after_closure (schema : Schema) (calls : List Call) :
    Registry.Closure schema calls (.after schema calls) := by
  have answers := Registry.after_answers schema calls
  have coherent := answers.coherent
  have knows (type : Ty) : (Registry.after schema calls).Knows type ↔
      ∃ call ∈ calls, ∃ root, call.Asks schema root ∧ schema.Leads root type := by
    rw [answers.knows, or_iff_right (fun ⟨_, found⟩ => by cases found)]
    simp only [List.mem_flatMap, Call.mem_requested]
    constructor
    · rintro ⟨root, ⟨call, held, asked⟩, leads⟩
      exact ⟨call, held, root, asked, leads⟩
    · rintro ⟨call, held, root, asked, leads⟩
      exact ⟨root, ⟨call, held, asked⟩, leads⟩
  have planned (name : String) : (∃ plan, (Registry.after schema calls).plans.get? name = some plan) ↔
      (Registry.after schema calls).Knows (.record name) ∨ ∃ call ∈ calls, call.Decodes schema name := by
    rw [answers.plans, or_iff_right (fun ⟨_, found⟩ => by cases found), List.mem_flatMap]
    simp only [Call.mem_decoded]
  refine ⟨knows, fun name plan => ⟨fun found => ?_, ?_⟩, coherent.types, coherent.names, fun type => ?_,
    fun more => (coherent.calls more).grows, fun call held => ?_⟩
  · exact ⟨coherent.plans found, (planned name).1 ⟨plan, found⟩⟩
  · rintro ⟨rfl, either⟩
    obtain ⟨plan, found⟩ := (planned name).2 either
    rw [found, coherent.plans found]
  · have made := coherent.link type
    obtain ⟨routine, followed, like⟩ := made.coherent.follow made.leads
    exact ⟨routine, followed, like, fun other => by simpa using ((coherent.answers).link type).knows other⟩
  · refine (coherent.call call).idle (fun root asked => ?_) fun name decoded => ?_
    · exact (knows root).2 ⟨call, held, root, Call.mem_requested.1 asked, .refl⟩
    · exact (planned name).2 (.inr ⟨call, held, Call.mem_decoded.1 decoded⟩)

end XmlBinding
