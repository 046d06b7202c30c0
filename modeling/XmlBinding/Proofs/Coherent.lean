import XmlBinding.Proofs.Building

/-! What a registry knows. Asking for a type leaves a coherent registry coherent: all that the type leads to is known
then and nothing else is new, nothing has been dropped or replaced, and the link that is handed out leads to the encoder
of this very type. -/
namespace XmlBinding

namespace Registry
variable {schema : Schema} {registry : Registry} {type : Ty}

/-- Whether a registry knows how to write a type. -/
def Knows (registry : Registry) (type : Ty) : Prop := registry.view.Knows type

/-- A registry that says what the schema says, and keeps nothing twice. -/
structure Coherent (schema : Schema) (registry : Registry) : Prop extends registry.view.Sound schema where
  types : (registry.routines.map Prod.fst).Nodup
  names : registry.plans.Distinct

theorem empty_coherent (schema : Schema) : Coherent schema {} where
  plans found := by cases found
  planned known := by cases known.choose_spec
  encoders found := by cases found
  kept found := by cases found
  cells told := by cases told
  pending waits := by cases waits
  apart waits := by cases waits
  types := List.nodup_nil
  names := List.nodup_nil

/-- With a type, all types are known that it leads to. -/
theorem Coherent.closed (coherent : registry.Coherent schema) (known : registry.Knows type)
    (leads : schema.Leads type other) : registry.Knows other :=
  coherent.toSound.closed (fun _ => rfl) known leads

theorem Coherent.plan_eq (coherent : registry.Coherent schema) (name : String) :
    (registry.plan schema name).1 = schema.plan name ∧
      (registry.plan schema name).2.view = registry.view.learn name (schema.plan name) := by
  unfold Registry.plan
  split
  · rename_i plan found
    obtain rfl := coherent.plans found
    exact ⟨rfl, (View.learn_eq_self found).symm⟩
  · have plan? : (registry.plans.put name (schema.plan name)).get? =
        fun other => if other = name then some (schema.plan name) else registry.plans.get? other :=
      funext fun other => Keyed.get?_put _ _ _ _
    exact ⟨rfl, congrArg (fun plan? => { registry.view with plan? }) plan?⟩

/-- A plan that is made is the one that the schema says. -/
theorem Coherent.plan (coherent : registry.Coherent schema) (name : String) :
    (registry.plan schema name).2.Coherent schema where
  toSound := (coherent.plan_eq name).2 ▸ coherent.toSound.learn name
  types := by
    unfold Registry.plan
    split <;> exact coherent.types
  names := by
    unfold Registry.plan
    split
    · exact coherent.names
    · exact coherent.names.put _ _

theorem Coherent.start (coherent : registry.Coherent schema) : (Session.start registry).Sound schema ∧
    (Session.start registry).view = registry.view := by
  have view : (Session.start registry).view = registry.view := by
    have routine? : (Session.start registry).routine? = registry.routine? := funext fun _ => Option.or_none
    have plan? : (Session.start registry).plan? = registry.plans.get? := funext fun _ => Option.or_none
    exact congrArg₂ (fun routine? plan? => { registry.view with routine?, plan? }) routine? plan?
  refine ⟨⟨view ▸ coherent.toSound, coherent.types, ?_⟩, view⟩
  rw [show (Session.start registry).plans = [] from rfl, List.append_nil]
  exact coherent.names

/-- What has been published is what the session had. -/
theorem publish_view {session : Session} (sound : session.Sound schema)
    (done : ∀ type, session.pending.lookup type = none) : session.publish.view = session.view := by
  have routine? : session.publish.routine? = session.routine? := by
    funext type
    show (session.routines ++ session.base.routines).lookup type = (session.base.routines.lookup type).or _
    rw [List.lookup_append]
    -- A type stands on one side only.
    have apart := List.disjoint_of_nodup_append ((List.map_append ..) ▸ sound.types)
    cases old : session.base.routines.lookup type with
    | none => rw [Option.or_none, Option.none_or]
    | some address =>
      cases new : session.routines.lookup type with
      | none => rfl
      | some other =>
        obtain ⟨entry, held, same⟩ := List.lookup_isSome_iff.1 (Option.isSome_of_eq_some old)
        obtain ⟨entry', held', same'⟩ := List.lookup_isSome_iff.1 (Option.isSome_of_eq_some new)
        refine (apart (List.mem_map_of_mem held') ?_).elim
        rw [← beq_iff_eq.1 same', beq_iff_eq.1 same]
        exact List.mem_map_of_mem held
  have plan? : session.publish.plans.get? = session.plan? := by
    have behind : session.publish.plans = session.base.plans ++ session.plans :=
      Keyed.insertAll_eq_append sound.names fun _ new => new
    funext name
    rw [behind, Keyed.get?, List.lookup_append]
    rfl
  have pending? : (fun _ => none) = fun type => session.pending.lookup type := funext fun type => (done type).symm
  show View.mk _ _ _ _ = View.mk _ _ _ _
  rw [routine?, plan?, pending?]
  rfl

theorem publish_coherent {session : Session} (sound : session.Sound schema)
    (done : ∀ type, session.pending.lookup type = none) : session.publish.Coherent schema where
  toSound := publish_view sound done ▸ sound.toSound
  types := sound.types
  names := by
    have behind : session.publish.plans = session.base.plans ++ session.plans :=
      Keyed.insertAll_eq_append sound.names fun _ new => new
    rw [behind]
    exact sound.names

/-- What asking for a type leaves of a registry. -/
structure Requested (schema : Schema) (type : Ty) (registry : Registry) (made : Link × Registry) : Prop where
  coherent : made.2.Coherent schema
  grows : registry.view.Grows made.2.view
  leads : made.2.view.LinksTo type made.1
  learnt {other : Ty} : made.2.Knows other → registry.Knows other ∨ schema.Leads type other
  planned {name : String} {plan : Plan} : made.2.plans.get? name = some plan →
    (∃ plan, registry.plans.get? name = some plan) ∨ made.2.Knows (.record name)

/-- A type that is known is not built again. -/
theorem link_of_known (known : registry.Knows type) : ∃ link, registry.link schema type = (link, registry) := by
  obtain ⟨address, found⟩ := known
  refine ⟨.built address, ?_⟩
  rw [Registry.link, show registry.routine? type = some address from found]

/-- What a session leaves of the registry it starts with, when it is published. -/
theorem Coherent.publish (coherent : registry.Coherent schema) {made : Link × Session}
    (builds : Session.Builds schema (.start registry) type made) :
    Requested schema type registry (made.1, made.2.publish) := by
  obtain ⟨advances, leads⟩ := builds
  obtain ⟨-, start⟩ := coherent.start
  have view := publish_view advances.sound advances.pending
  refine ⟨publish_coherent advances.sound advances.pending, ?_, ?_, fun known => ?_, fun {name plan} found => ?_⟩
  · rw [← start, view]
    exact advances.grows
  · rw [view]
    exact leads
  · rw [Registry.Knows, view] at known
    rw [Registry.Knows, ← start]
    refine (advances.learnt known).imp_right ?_
    rintro ⟨root, member, leads⟩
    exact List.mem_singleton.1 member ▸ leads
  · have found := (congrFun (congrArg View.plan? view) name).symm.trans found
    rw [Registry.Knows, view]
    refine (advances.planned found).imp_left ?_
    rintro ⟨plan, found⟩
    exact ⟨plan, (congrFun (congrArg View.plan? start) name).symm.trans found⟩

theorem Coherent.link (coherent : registry.Coherent schema) (type : Ty) :
    Requested schema type registry (registry.link schema type) := by
  rw [Registry.link]
  split
  · rename_i address found
    exact ⟨coherent, .refl _, .built found, .inl, fun found => .inl ⟨_, found⟩⟩
  · exact coherent.publish (Session.link_serves _ (schema.mem_typesFrom_self type) _ coherent.start.1
      (View.fresh_le_length schema type _))

/-- A link to a type leads to the encoder of this type, also if it is a stub. -/
theorem Coherent.follow (coherent : registry.Coherent schema) {link : Link} (leads : registry.view.LinksTo type link) :
    ∃ routine, registry.follow schema link = .ok ⟨type, routine⟩ ∧
      (schema.routine type).Like registry.view.LinksTo routine := by
  have kept {address : Nat} (found : registry.routine? type = some address) : ∃ routine,
      registry.memory.encoder address = ⟨type, routine⟩ ∧ (schema.routine type).Like registry.view.LinksTo routine := by
    obtain ⟨routine, held, like⟩ := coherent.encoders found
    refine ⟨routine, ?_, like⟩
    rw [Memory.encoder, getElem!_def, show registry.memory.encoders[address]? = _ from held]
  cases leads with
  | waiting pending => cases pending
  | built found =>
    obtain ⟨routine, same, like⟩ := kept found
    exact ⟨routine, congrArg Except.ok same, like⟩
  | @told cell address _ told found =>
    obtain ⟨routine, same, like⟩ := kept found
    have holds : registry.holds address = true := by
      obtain ⟨before, after, split, -⟩ := List.lookup_eq_some_iff.1 (show registry.routines.lookup type = _ from found)
      rw [holds, split]
      simp
    refine ⟨routine, ?_, like⟩
    rw [Registry.follow, show registry.memory.told.lookup cell = _ from told, Option.filter_some, if_pos holds]
    exact congrArg Except.ok same

end Registry

end XmlBinding
