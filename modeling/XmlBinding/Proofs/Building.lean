import XmlBinding.Proofs.View

/-! Building routines in a session. When a type is done, nothing waits that did not wait before, and what has come is
what the type leads to. Building may go as deep as there are types that are neither built nor being built, for every
type that is taken up is one of them and is one no longer. -/
namespace XmlBinding

namespace Session
variable {session : Session} {schema : Schema} {type : Ty}

/-- A session whose view is sound, and which keeps nothing twice. -/
structure Sound (schema : Schema) (session : Session) : Prop extends session.view.Sound schema where
  types : ((session.routines ++ session.base.routines).map Prod.fst).Nodup
  names : Keyed.Distinct (session.base.plans ++ session.plans)

theorem link?_eq_none :
    session.link? type = none ↔ session.routine? type = none ∧ session.pending.lookup type = none := by
  rw [link?]
  split
  · rename_i found
    rw [found]
    simp
  · rename_i missing
    rw [missing]
    simp

/-- A link that is there leads to its type. -/
theorem linksTo_of_link? {link : Link} (found : session.link? type = some link) : session.view.LinksTo type link := by
  rw [link?] at found
  split at found
  · rename_i built
    rw [← Option.some.inj found]
    exact .built built
  · obtain ⟨cell, pending, rfl⟩ := Option.map_eq_some_iff.1 found
    exact .waiting pending

/-- A type without a link is one that no link leads to. -/
theorem unreached (missing : session.link? type = none) : ¬ ∃ link, session.view.LinksTo type link := by
  obtain ⟨unbuilt, idle⟩ := link?_eq_none.1 missing
  rw [View.reached_iff]
  rintro (⟨address, found⟩ | ⟨cell, pending⟩)
  · cases unbuilt.symm.trans found
  · cases idle.symm.trans pending

/-! The views of the steps of building one type. -/

theorem begin_view (session : Session) (type : Ty) : (session.begin type).2.view = session.view.begin type := by
  have pending? : (fun other => List.lookup other ((type, session.memory.cells) :: session.pending)) =
      fun other => if other = type then some session.memory.cells else session.pending.lookup other :=
    funext fun other => lookup_cons_eq_ite type other _ _
  exact congrArg (fun pending? => { session.view with pending?, memory := session.memory.newCell.2 }) pending?

theorem Sound.begin (sound : session.Sound schema) (missing : session.link? type = none) :
    (session.begin type).2.Sound schema where
  toSound := begin_view session type ▸ sound.toSound.begin (link?_eq_none.1 missing)
  types := sound.types
  names := sound.names

theorem Sound.plan_eq (sound : session.Sound schema) (name : String) :
    (session.plan schema name).1 = schema.plan name ∧
      (session.plan schema name).2.view = session.view.learn name (schema.plan name) := by
  unfold Session.plan
  split
  · rename_i plan found
    obtain rfl := sound.plans found
    exact ⟨rfl, (View.learn_eq_self found).symm⟩
  · rename_i missing
    refine ⟨rfl, ?_⟩
    have plan? : Session.plan? { session with plans := session.plans.put name (schema.plan name) } =
        fun other => if other = name then some (schema.plan name) else session.plan? other := by
      funext other
      rw [Session.plan?, Keyed.get?_put]
      split
      · rename_i same
        rw [same, (Option.or_eq_none_iff.1 missing).1]
        rfl
      · rfl
    exact congrArg (fun plan? => { session.view with plan? }) plan?

/-- A plan that is made is put behind those that are there. -/
theorem Sound.plan_names (sound : session.Sound schema) (name : String) :
    Keyed.Distinct ((session.plan schema name).2.base.plans ++ (session.plan schema name).2.plans) := by
  unfold Session.plan
  split
  · exact sound.names
  · rename_i missing
    have new : name ∉ Keyed.keys (session.base.plans ++ session.plans) := by
      rw [← Keyed.get?_eq_none_iff, Keyed.get?, List.lookup_append]
      exact missing
    have distinct : Keyed.Distinct (session.base.plans ++ (session.plans ++ [(name, schema.plan name)])) := by
      rw [← List.append_assoc, Keyed.Distinct, Keyed.keys, List.map_append]
      exact sound.names.append (List.nodup_singleton _) (List.disjoint_singleton.2 new)
    have behind := Keyed.insertAll_eq_append
      (List.Nodup.of_append_right (by rwa [Keyed.Distinct, Keyed.keys, List.map_append] at distinct)) fun _ new => new
    have put : session.plans.put name (schema.plan name) = session.plans ++ [(name, schema.plan name)] := behind
    rwa [← put] at distinct

theorem Sound.plan (sound : session.Sound schema) (name : String) : (session.plan schema name).2.Sound schema where
  toSound := (sound.plan_eq name).2 ▸ sound.learn name
  types := by
    unfold Session.plan
    split <;> exact sound.types
  names := sound.plan_names name

theorem Sound.outline_eq (sound : session.Sound schema) (type : Ty) :
    (session.outline schema type).1 = schema.routine type ∧
      (session.outline schema type).2.routine? = session.routine? ∧
      ∀ other, (session.outline schema type).2.pending.lookup other = session.pending.lookup other := by
  cases type with
  | record name =>
    have form := congrArg (fun plan : Plan => Routine.record plan.form) (sound.plan_eq name).1
    have view := (sound.plan_eq name).2
    exact ⟨form, congrArg View.routine? view, congrFun (congrArg View.pending? view)⟩
  | _ => exact ⟨rfl, rfl, fun _ => rfl⟩

/-- The plan of a record is there as soon as its routine is worked out, and no other plan is made. -/
theorem Sound.outline (sound : session.Sound schema) (type : Ty) : (session.outline schema type).2.Sound schema ∧
    session.view.Grows (session.outline schema type).2.view ∧
    (∀ name, type = .record name → ∃ plan, (session.outline schema type).2.plan? name = some plan) ∧
    ∀ name plan, (session.outline schema type).2.plan? name = some plan →
      (∃ plan, session.plan? name = some plan) ∨ type = .record name := by
  cases type with
  | record name =>
    have view : (session.outline schema (.record name)).2.view = session.view.learn name (schema.plan name) :=
      (sound.plan_eq name).2
    have plan? (other : String) : (session.outline schema (.record name)).2.plan? other =
        if other = name then some (schema.plan name) else session.plan? other :=
      congrFun (congrArg View.plan? view) other
    refine ⟨sound.plan name, view ▸ sound.learn_grows name, ?_, fun other plan found => ?_⟩
    · rintro _ ⟨⟩
      exact ⟨_, (plan? name).trans (if_pos rfl)⟩
    · rw [plan?] at found
      split at found
      · rename_i same
        exact .inr (by rw [same])
      · exact .inl ⟨plan, found⟩
  | _ => exact ⟨sound, .refl _, fun _ same => (by cases same), fun _ plan found => .inl ⟨plan, found⟩⟩

theorem lookup_filter_ne (pending : List (Ty × Nat)) (type other : Ty) :
    (pending.filter (·.1 ≠ type)).lookup other = if other = type then none else pending.lookup other := by
  induction pending with
  | nil => exact (ite_self _).symm
  | cons entry rest ih =>
    obtain ⟨key, cell⟩ := entry
    rw [List.filter_cons, lookup_cons_eq_ite]
    by_cases out : key = type
    · rw [if_neg (by simpa using out), ih]
      by_cases same : other = type
      · rw [if_pos same, if_pos same]
      · rw [if_neg same, if_neg same, if_neg (out ▸ same)]
    · rw [if_pos (by simpa using out), lookup_cons_eq_ite, ih]
      by_cases same : other = key
      · rw [if_pos same, if_pos same, if_neg (same ▸ out)]
      · rw [if_neg same, if_neg same]

theorem Sound.finish_view (sound : session.Sound schema) (pending : session.pending.lookup type = some cell)
    (routine : Routine Link) :
    (session.finish type cell routine).2.view = session.view.finish type cell routine := by
  obtain ⟨-, untold, unbuilt⟩ := sound.pending pending
  have routine? : (session.finish type cell routine).2.routine? =
      fun other => if other = type then some session.memory.encoders.size else session.routine? other := by
    funext other
    show (session.base.routines.lookup other).or (((type, _) :: session.routines).lookup other) = _
    rw [lookup_cons_eq_ite]
    split
    · rename_i same
      subst same
      rw [(Option.or_eq_none_iff.1 unbuilt).1]
      rfl
    · rfl
  have pending? : (fun other => (session.pending.filter (·.1 ≠ type)).lookup other) =
      fun other => if other = type then none else session.pending.lookup other :=
    funext (lookup_filter_ne session.pending type)
  have memory : (session.finish type cell routine).2.memory = (session.view.finish type cell routine).memory := by
    show Memory.tell _ cell _ = _
    have new : ¬ (session.memory.told.lookup cell).isSome = true := by
      rw [show session.memory.told.lookup cell = none from untold]
      simp
    exact if_neg new
  show View.mk _ _ _ _ = View.mk _ _ _ _
  rw [routine?, memory]
  exact congrArg (fun pending? => View.mk _ _ pending? _) pending?

theorem Sound.finish (sound : session.Sound schema) (pending : session.pending.lookup type = some cell)
    {routine : Routine Link} (like : (schema.routine type).Like session.view.LinksTo routine)
    (planned : ∀ name, type = .record name → ∃ plan, session.plan? name = some plan) :
    (session.finish type cell routine).2.Sound schema where
  toSound := sound.finish_view pending routine ▸ sound.toSound.finish pending like planned
  types := by
    obtain ⟨old, new⟩ := Option.or_eq_none_iff.1 (sound.pending pending).2.2
    have fresh : ((session.routines ++ session.base.routines).lookup type).isSome = false := by
      rw [List.lookup_append, old, new]
      rfl
    show (type :: (session.routines ++ session.base.routines).map Prod.fst).Nodup
    refine List.nodup_cons.2 ⟨fun member => ?_, sound.types⟩
    obtain ⟨entry, held, same⟩ := List.mem_map.1 member
    rw [List.lookup_isSome_iff.2 ⟨entry, held, beq_iff_eq.2 same.symm⟩] at fresh
    cases fresh
  names := sound.names

/-- What building some types leaves of a session. Nothing waits that did not wait before; what is there in the end was
there before, or the types lead to it; and a plan that is new is that of a record that has been built. -/
structure Advances (schema : Schema) (roots : List Ty) (session after : Session) : Prop where
  sound : after.Sound schema
  grows : session.view.Grows after.view
  pending (type : Ty) : after.pending.lookup type = session.pending.lookup type
  learnt {type : Ty} : after.view.Knows type → session.view.Knows type ∨ ∃ root ∈ roots, schema.Leads root type
  planned {name : String} {plan : Plan} : after.plan? name = some plan →
    (∃ plan, session.plan? name = some plan) ∨ after.view.Knows (.record name)

theorem Advances.refl (sound : session.Sound schema) : Advances schema [] session session :=
  ⟨sound, .refl _, fun _ => rfl, .inl, fun found => .inl ⟨_, found⟩⟩

theorem Advances.trans (first : Advances schema roots session middle) (second : Advances schema others middle after) :
    Advances schema (roots ++ others) session after where
  sound := second.sound
  grows := first.grows.trans second.grows
  pending type := (second.pending type).trans (first.pending type)
  learnt known := by
    rcases second.learnt known with known | ⟨root, member, leads⟩
    · rcases first.learnt known with known | ⟨root, member, leads⟩
      · exact .inl known
      · exact .inr ⟨root, List.mem_append_left _ member, leads⟩
    · exact .inr ⟨root, List.mem_append_right _ member, leads⟩
  planned found := by
    rcases second.planned found with ⟨plan, found⟩ | known
    · exact (first.planned found).imp_right second.grows.knows
    · exact .inr known

/-- A type is built: the session advances, and the link that comes of it leads to the type. -/
def Builds (schema : Schema) (session : Session) (type : Ty) (made : Link × Session) : Prop :=
  Advances schema [type] session made.2 ∧ made.2.view.LinksTo type made.1

/-- What is asked of building while so many types are fresh at most. -/
def Serves (schema : Schema) (root : Ty) (depth : Nat) (build : StateM Session Link) (type : Ty) : Prop :=
  ∀ session : Session, session.Sound schema → session.view.fresh schema root ≤ depth →
    Builds schema session type (build.run session)

section
variable {root : Ty} {depth : Nat} {build : Ty → StateM Session Link}

/-- Children one after another, each linked to how its type is written. -/
theorem mapM_children {children : List (ChildField Ty)}
    (each : ∀ child ∈ children, Serves schema root depth (build child.link) child.link)
    (sound : session.Sound schema) (enough : session.view.fresh schema root ≤ depth) :
    let link (child : ChildField Ty) : StateM Session (ChildField Link) :=
      return ⟨child.toPlannedField, ← build child.link⟩
    Advances schema (children.map (·.link)) session ((children.mapM link).run session).2 ∧
      List.Forall₂ (fun a b => a.toPlannedField = b.toPlannedField ∧
        ((children.mapM link).run session).2.view.LinksTo a.link b.link)
        children ((children.mapM link).run session).1 := by
  intro link
  induction children generalizing session with
  | nil => exact ⟨.refl sound, .nil⟩
  | cons child rest ih =>
    obtain ⟨here, later⟩ := List.forall_mem_cons.1 each
    obtain ⟨first, leads⟩ := here session sound enough
    obtain ⟨more, pairs⟩ := ih later first.sound ((first.grows.fresh_le schema root).trans enough)
    rw [List.mapM_cons]
    exact ⟨first.trans more, .cons ⟨rfl, more.grows.links leads⟩ pairs⟩

/-- A routine whose links are made one after another is linked to how the types inside are written. -/
theorem mapM_routine {routine : Routine Ty}
    (each : ∀ needed ∈ routine.links, Serves schema root depth (build needed) needed)
    (sound : session.Sound schema) (enough : session.view.fresh schema root ≤ depth) :
    Advances schema routine.links session ((routine.mapM build).run session).2 ∧
      routine.Like ((routine.mapM build).run session).2.view.LinksTo ((routine.mapM build).run session).1 := by
  cases routine with
  | pointer link | map link | items link =>
    obtain ⟨advances, leads⟩ := each link (List.mem_singleton_self link) session sound enough
    refine ⟨advances, ?_⟩
    constructor
    exact leads
  | record form =>
    obtain ⟨attributes, characters?, cdata?, children⟩ := form
    obtain ⟨advances, pairs⟩ := mapM_children (fun child member => each _ (List.mem_map_of_mem member)) sound enough
    exact ⟨advances, .record pairs⟩
  | scalar | dynamic | native | keyedMap | custom | unsupported =>
    refine ⟨.refl sound, ?_⟩
    constructor

end

theorem link_of_found {link : Link} (found : session.link? type = some link) :
    (Session.link schema depth type).run session = (link, session) := by
  cases depth <;>
  · rw [Session.link]
    show StateT.run (bind get _) session = _
    rw [StateT.run_bind, StateT.run_get]
    simp only [pure_bind, found]
    rfl

/-- The steps of building a type. -/
theorem link_of_missing (missing : session.link? type = none) :
    (Session.link schema (depth + 1) type).run session =
      let begun := session.begin type
      let outlined := begun.2.outline schema type
      let made := (outlined.1.mapM (Session.link schema depth)).run outlined.2
      made.2.finish type begun.1 made.1 := by
  rw [Session.link]
  show StateT.run (bind get _) session = _
  rw [StateT.run_bind, StateT.run_get]
  simp only [pure_bind, missing]
  rfl

/-- A type that is there or is being built is linked to as it is. -/
theorem Sound.link_of_found (sound : session.Sound schema) {link : Link} (found : session.link? type = some link) :
    Builds schema session type ((Session.link schema depth type).run session) := by
  rw [Session.link_of_found found]
  refine ⟨⟨sound, .refl _, fun _ => rfl, .inl, fun found => .inl ⟨_, found⟩⟩, linksTo_of_link? found⟩

/-- When the types inside a type are done, so is the type. -/
theorem Sound.builds (sound : session.Sound schema) (missing : session.link? type = none)
    {made : Routine Link × Session}
    (inside : Advances schema (schema.needs type) ((session.begin type).2.outline schema type).2 made.2)
    (like : (schema.routine type).Like made.2.view.LinksTo made.1) :
    Builds schema session type (made.2.finish type (session.begin type).1 made.1) := by
  have begun := begin_view session type
  have begins : session.view.Grows (session.begin type).2.view :=
    begun ▸ View.begin_grows (link?_eq_none.1 missing)
  obtain ⟨-, grows, ofRecord, plans⟩ := (sound.begin missing).outline type
  obtain ⟨-, routines, kept⟩ := (sound.begin missing).outline_eq type
  have before (other : Ty) : made.2.pending.lookup other =
      if other = type then some (session.begin type).1 else session.pending.lookup other :=
    (inside.pending other).trans ((kept other).trans (congrFun (congrArg View.pending? begun) other))
  have waits := (before type).trans (if_pos rfl)
  have done := inside.sound.finish_view waits made.1
  have finishes := inside.sound.finish_grows waits made.1
  rw [← done] at finishes
  have built : (made.2.finish type (session.begin type).1 made.1).2.routine? type = some made.2.memory.encoders.size :=
    (congrFun (congrArg View.routine? done) type).trans (if_pos rfl)
  refine ⟨⟨?_, begins.trans (grows.trans (inside.grows.trans finishes)), fun other => ?_, fun {other} known => ?_,
    fun {name plan} found => ?_⟩, .built built⟩
  · exact inside.sound.finish waits like fun name same => (ofRecord name same).imp fun _ => inside.grows.plans
  · refine (congrFun (congrArg View.pending? done) other).trans ?_
    show (if other = type then none else made.2.pending.lookup other) = _
    rw [before]
    split
    · rename_i same
      rw [same, (link?_eq_none.1 missing).2]
    · rfl
  · obtain ⟨address, found⟩ := known
    rw [done] at found
    change (if other = type then _ else _) = some address at found
    split at found
    · rename_i same
      exact .inr ⟨type, List.mem_singleton_self type, same ▸ .refl⟩
    · rcases inside.learnt ⟨address, found⟩ with ⟨address, found⟩ | ⟨needed, need, leads⟩
      · exact .inl ⟨address, (congrFun routines other).symm.trans found⟩
      · exact .inr ⟨type, List.mem_singleton_self type, .head (Schema.step_iff.2 need) leads⟩
  · have found : made.2.plan? name = some plan := (congrFun (congrArg View.plan? done) name).symm.trans found
    rcases inside.planned found with ⟨plan, found⟩ | known
    · refine (plans name plan found).imp_right ?_
      rintro rfl
      exact ⟨_, built⟩
    · exact .inr (finishes.knows known)

theorem begin_fresh_lt {root : Ty} (member : type ∈ schema.typesFrom root) (missing : session.link? type = none) :
    (session.begin type).2.view.fresh schema root < session.view.fresh schema root := by
  rw [begin_view]
  exact (View.begin_grows (link?_eq_none.1 missing)).fresh_lt member (unreached missing) (.waiting (if_pos rfl))

/-- A type is built with all that it leads to, if building may go as deep as there are fresh types: a type that is taken
up is not fresh any longer, and whatever is inside it is a type that the root can lead to. -/
theorem link_serves {root : Ty} (depth : Nat) {type : Ty} (member : type ∈ schema.typesFrom root) :
    Serves schema root depth (Session.link schema depth type) type := by
  induction depth generalizing type with
  | zero =>
    intro session sound enough
    cases found : session.link? type with
    | some link => exact sound.link_of_found found
    | none => exact absurd (begin_fresh_lt member found) (by omega)
  | succ depth ih =>
    intro session sound enough
    cases found : session.link? type with
    | some link => exact sound.link_of_found found
    | none =>
      obtain ⟨outlined, grows, -⟩ := (sound.begin found).outline type
      have fewer := begin_fresh_lt member found
      have fewer' := grows.fresh_le schema root
      obtain ⟨made, like⟩ := mapM_routine
        (fun needed need => ih (Schema.typesFrom_closed member (Schema.step_iff.2 need))) outlined (by omega)
      rw [link_of_missing found]
      dsimp only
      rw [((sound.begin found).outline_eq type).1]
      exact sound.builds found made like

end Session

end XmlBinding
