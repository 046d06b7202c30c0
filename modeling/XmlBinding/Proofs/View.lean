import Mathlib.Data.Finset.Card
import XmlBinding.Proofs.Requirements

/-! What a registry or a session has. Every link of a routine leads to the type it stands for: to its encoder, or to a
stub for it that is told or still to be told. The steps of building a type change nothing of what is there. -/
namespace XmlBinding

theorem lookup_cons_eq_ite [DecidableEq α] (key other : α) (value : β) (rest : List (α × β)) :
    ((key, value) :: rest).lookup other = if other = key then some value else rest.lookup other := by
  rw [List.lookup_cons]
  by_cases same : other = key
  · rw [if_pos same, beq_iff_eq.2 same]
  · rw [if_neg same, beq_false_of_ne same]

/-- What stands on one side of a list of pairs has something that corresponds on the other. -/
theorem exists_of_forall₂ {same : α → β → Prop} {as : List α} {bs : List β} (pairs : List.Forall₂ same as bs)
    (member : a ∈ as) : ∃ b ∈ bs, same a b := by
  induction pairs with
  | nil => cases member
  | @cons a' b as bs pair rest ih =>
    rcases List.mem_cons.1 member with rfl | member
    · exact ⟨b, List.mem_cons_self, pair⟩
    · obtain ⟨b, held, pair⟩ := ih member
      exact ⟨b, List.mem_cons_of_mem _ held, pair⟩

namespace Routine

/-- Routines that differ in their links only, which correspond. -/
inductive Like (same : ρ → τ → Prop) : Routine ρ → Routine τ → Prop
  | scalar : Like same .scalar .scalar
  | pointer (target : same a b) : Like same (.pointer a) (.pointer b)
  | dynamic : Like same .dynamic .dynamic
  | native : Like same .native .native
  | record (children : List.Forall₂ (fun a b => a.toPlannedField = b.toPlannedField ∧ same a.link b.link) as bs) :
      Like same (.record ⟨attributes, characters?, cdata?, as⟩) (.record ⟨attributes, characters?, cdata?, bs⟩)
  | map (value : same a b) : Like same (.map a) (.map b)
  | keyedMap : Like same (.keyedMap key) (.keyedMap key)
  | items (element : same a b) : Like same (.items a) (.items b)
  | custom : Like same (.custom name) (.custom name)
  | unsupported : Like same .unsupported .unsupported

variable {first : Routine ρ} {second : Routine τ} {same other : ρ → τ → Prop}

theorem Like.imp (mono : ∀ a b, same a b → other a b) (like : Like same first second) : Like other first second := by
  cases like with
  | record children => exact .record (children.imp fun a b pair => ⟨pair.1, mono _ _ pair.2⟩)
  | pointer target => exact .pointer (mono _ _ target)
  | map value => exact .map (mono _ _ value)
  | items element => exact .items (mono _ _ element)
  | scalar | dynamic | native | keyedMap | custom | unsupported => constructor

/-- Every link on one side has one on the other that corresponds. -/
theorem Like.links (like : Like same first second) : List.Forall₂ same first.links second.links := by
  cases like with
  | record children =>
    exact List.forall₂_map_left_iff.2 (List.forall₂_map_right_iff.2 (children.imp fun _ _ pair => pair.2))
  | pointer link | map link | items link => exact .cons link .nil
  | scalar | dynamic | native | keyedMap | custom | unsupported => exact .nil

end Routine

/-- What a registry or a session has. -/
structure View where
  routine? : Ty → Option Nat
  plan? : String → Option Plan
  /-- The cells of the stubs for types that are being built. -/
  pending? : Ty → Option Nat
  memory : Memory

def Registry.view (registry : Registry) : View where
  routine? := registry.routine?
  plan? := registry.plans.get?
  pending? _ := none
  memory := registry.memory

def Session.view (session : Session) : View where
  routine? := session.routine?
  plan? := session.plan?
  pending? type := session.pending.lookup type
  memory := session.memory

namespace View
variable {view later last : View} {schema : Schema}

/-- Whether a type has been built. -/
def Knows (view : View) (type : Ty) : Prop := ∃ address, view.routine? type = some address

/-- What a link to a type is: the address of its encoder, or a stub that is told this address or still waits. -/
inductive LinksTo (view : View) : Ty → Link → Prop
  | built (found : view.routine? type = some address) : LinksTo view type (.built address)
  | waiting (pending : view.pending? type = some cell) : LinksTo view type (.stub type cell)
  | told (told : view.memory.told.lookup cell = some address) (found : view.routine? type = some address) :
      LinksTo view type (.stub type cell)

/-- What is there is what the schema says. -/
structure Sound (schema : Schema) (view : View) : Prop where
  plans {name : String} {plan : Plan} : view.plan? name = some plan → plan = schema.plan name
  planned {name : String} : view.Knows (.record name) → ∃ plan, view.plan? name = some plan
  /-- A type is kept with its encoder, whose links lead to the types inside. -/
  encoders {type : Ty} {address : Nat} : view.routine? type = some address → ∃ routine,
    view.memory.encoders[address]? = some ⟨type, routine⟩ ∧ (schema.routine type).Like view.LinksTo routine
  /-- No encoder is there but those that are kept for their types. -/
  kept {address : Nat} {encoder : Encoder Link} : view.memory.encoders[address]? = some encoder →
    view.routine? encoder.type = some address
  cells {cell address : Nat} : view.memory.told.lookup cell = some address → cell < view.memory.cells
  pending {type : Ty} {cell : Nat} : view.pending? type = some cell →
    cell < view.memory.cells ∧ view.memory.told.lookup cell = none ∧ view.routine? type = none
  apart {type other : Ty} {cell : Nat} : view.pending? type = some cell → view.pending? other = some cell →
    type = other

/-- Nothing is dropped or replaced, and links go on leading to their types. -/
structure Grows (view later : View) : Prop where
  routines {type : Ty} {address : Nat} : view.routine? type = some address → later.routine? type = some address
  plans {name : String} {plan : Plan} : view.plan? name = some plan → later.plan? name = some plan
  encoders {address : Nat} {encoder : Encoder Link} : view.memory.encoders[address]? = some encoder →
    later.memory.encoders[address]? = some encoder
  links {type : Ty} {link : Link} : view.LinksTo type link → later.LinksTo type link

theorem Grows.refl (view : View) : view.Grows view := ⟨id, id, id, id⟩

theorem Grows.trans (first : view.Grows later) (second : later.Grows last) : view.Grows last :=
  ⟨second.routines ∘ first.routines, second.plans ∘ first.plans, second.encoders ∘ first.encoders,
    second.links ∘ first.links⟩

theorem Grows.knows (grows : view.Grows later) (known : view.Knows type) : later.Knows type :=
  known.imp fun _ found => grows.routines found

/-- A type that a link leads to has been built or is being built. -/
theorem reached_iff : (∃ link, view.LinksTo type link) ↔ view.Knows type ∨ ∃ cell, view.pending? type = some cell := by
  constructor
  · rintro ⟨link, leads⟩
    cases leads with
    | built found | told _ found => exact .inl ⟨_, found⟩
    | waiting pending => exact .inr ⟨_, pending⟩
  · rintro (⟨address, found⟩ | ⟨cell, pending⟩)
    · exact ⟨_, .built found⟩
    · exact ⟨_, .waiting pending⟩

/-- With a type that has been built, all types inside it have been built, if none is being built. -/
theorem Sound.closed (sound : view.Sound schema) (done : ∀ type, view.pending? type = none) (known : view.Knows type)
    (leads : schema.Leads type other) : view.Knows other := by
  induction leads with
  | refl => exact known
  | @tail part needed _ step ih =>
    obtain ⟨address, found⟩ := ih
    obtain ⟨routine, -, like⟩ := sound.encoders found
    obtain ⟨link, -, leads⟩ := exists_of_forall₂ like.links (Schema.step_iff.1 step)
    exact (reached_iff.1 ⟨link, leads⟩).resolve_right fun ⟨cell, pending⟩ => by
      rw [done] at pending
      cases pending

/-- A view with the plan of a record. -/
def learn (view : View) (name : String) (plan : Plan) : View :=
  { view with plan? := fun other => if other = name then some plan else view.plan? other }

theorem learn_eq_self (found : view.plan? name = some plan) : view.learn name plan = view := by
  have same : (fun other => if other = name then some plan else view.plan? other) = view.plan? := by
    funext other
    split
    · rename_i same
      rw [same, found]
    · rfl
  rw [learn, same]

theorem LinksTo.learn {link : Link} (leads : view.LinksTo type link) (name : String) (plan : Plan) :
    (view.learn name plan).LinksTo type link := by
  cases leads with
  | built found => exact .built found
  | waiting pending => exact .waiting pending
  | told told found => exact .told told found

theorem Sound.learn_grows (sound : view.Sound schema) (name : String) :
    view.Grows (view.learn name (schema.plan name)) where
  routines := id
  plans {other plan} found := by
    show (if _ then _ else _) = _
    split
    · rename_i same
      rw [sound.plans found, same]
    · exact found
  encoders := id
  links leads := leads.learn _ _

/-- A plan that is the one that the schema says does no harm. -/
theorem Sound.learn (sound : view.Sound schema) (name : String) :
    (view.learn name (schema.plan name)).Sound schema where
  plans {other plan} found := by
    change (if other = name then some (schema.plan name) else view.plan? other) = some plan at found
    split at found
    · rename_i same
      rw [← Option.some.inj found, same]
    · exact sound.plans found
  planned known := (sound.planned known).imp fun _ found => (sound.learn_grows name).plans found
  encoders found := (sound.encoders found).imp fun _ kept => ⟨kept.1, kept.2.imp fun _ _ leads => leads.learn _ _⟩
  kept := sound.kept
  cells := sound.cells
  pending := sound.pending
  apart := sound.apart

/-- A view in which a type is being built. -/
def begin (view : View) (type : Ty) : View :=
  { view with
    pending? := fun other => if other = type then some view.memory.cells else view.pending? other
    memory := view.memory.newCell.2 }

theorem begin_grows (missing : view.routine? type = none ∧ view.pending? type = none) :
    view.Grows (view.begin type) where
  routines := id
  plans := id
  encoders := id
  links {other link} leads := by
    cases leads with
    | built found => exact .built found
    | told told found => exact .told told found
    | waiting pending =>
      have apart : other ≠ type := by
        rintro rfl
        cases missing.2.symm.trans pending
      exact .waiting ((if_neg apart).trans pending)

theorem Sound.begin (sound : view.Sound schema) (missing : view.routine? type = none ∧ view.pending? type = none) :
    (view.begin type).Sound schema where
  plans := sound.plans
  planned := sound.planned
  encoders found := (sound.encoders found).imp fun _ kept => ⟨kept.1, kept.2.imp fun _ _ => (begin_grows missing).links⟩
  kept := sound.kept
  cells told := Nat.lt_succ_of_lt (sound.cells told)
  pending {other cell} pending := by
    change (if other = type then _ else _) = some cell at pending
    split at pending
    · rename_i same
      obtain rfl := Option.some.inj pending
      refine ⟨Nat.lt_succ_self _, ?_, same ▸ missing.1⟩
      exact Option.eq_none_iff_forall_ne_some.2 fun address told => Nat.lt_irrefl _ (sound.cells told)
    · exact (sound.pending pending).imp_left Nat.lt_succ_of_lt
  apart {one other cell} pending pending' := by
    change (if one = type then _ else _) = some cell at pending
    change (if other = type then _ else _) = some cell at pending'
    split at pending <;> split at pending'
    · rename_i here here'
      rw [here, here']
    · exact absurd (Option.some.inj pending).le (sound.pending pending').1.not_ge
    · exact absurd (Option.some.inj pending').le (sound.pending pending).1.not_ge
    · exact sound.apart pending pending'

/-- A view in which a type that was being built has its routine, which its stub is told. -/
def finish (view : View) (type : Ty) (cell : Nat) (routine : Routine Link) : View where
  routine? other := if other = type then some view.memory.encoders.size else view.routine? other
  plan? := view.plan?
  pending? other := if other = type then none else view.pending? other
  memory :=
    { encoders := view.memory.encoders.push ⟨type, routine⟩
      cells := view.memory.cells
      told := (cell, view.memory.encoders.size) :: view.memory.told }

theorem finish_told (view : View) (type : Ty) (cell : Nat) (routine : Routine Link) (other : Nat) :
    (view.finish type cell routine).memory.told.lookup other =
      if other = cell then some view.memory.encoders.size else view.memory.told.lookup other :=
  lookup_cons_eq_ite cell other _ _

section
variable {cell : Nat} (pending : view.pending? type = some cell)
include pending

theorem Sound.finish_grows (sound : view.Sound schema) (routine : Routine Link) :
    view.Grows (view.finish type cell routine) := by
  obtain ⟨-, untold, unbuilt⟩ := sound.pending pending
  have built {other : Ty} {address : Nat} (found : view.routine? other = some address) :
      (view.finish type cell routine).routine? other = some address := by
    refine (if_neg ?_).trans found
    rintro rfl
    cases unbuilt.symm.trans found
  refine ⟨built, id, fun {address encoder} found => ?_, fun {other link} leads => ?_⟩
  · show (view.memory.encoders.push _)[address]? = _
    have bound := (Array.getElem?_eq_some_iff.1 found).1
    rw [Array.getElem?_push, if_neg bound.ne]
    exact found
  · cases leads with
    | built found => exact .built (built found)
    | @told _ cell' address told found =>
      refine .told ?_ (built found)
      rw [finish_told, if_neg ?_]
      · exact told
      · rintro rfl
        cases untold.symm.trans told
    | waiting pending' =>
      by_cases same : other = type
      · subst same
        obtain rfl := Option.some.inj (pending.symm.trans pending')
        exact .told (by rw [finish_told, if_pos rfl]) (if_pos rfl)
      · exact .waiting ((if_neg same).trans pending')

theorem Sound.finish (sound : view.Sound schema) {routine : Routine Link}
    (like : (schema.routine type).Like view.LinksTo routine)
    (planned : ∀ name, type = .record name → ∃ plan, view.plan? name = some plan) :
    (view.finish type cell routine).Sound schema := by
  obtain ⟨bound, untold, unbuilt⟩ := sound.pending pending
  have grows := sound.finish_grows pending routine
  refine ⟨sound.plans, ?_, ?_, ?_, ?_, ?_, ?_⟩
  · rintro name ⟨address, found⟩
    change (if Ty.record name = type then _ else _) = some address at found
    split at found
    · rename_i same
      exact planned name same.symm
    · exact sound.planned ⟨address, found⟩
  · intro other address found
    change (if other = type then _ else _) = some address at found
    split at found
    · rename_i same
      subst same
      obtain rfl := Option.some.inj found
      exact ⟨routine, by simp [View.finish], like.imp fun _ _ => grows.links⟩
    · obtain ⟨routine, held, like⟩ := sound.encoders found
      exact ⟨routine, grows.encoders held, like.imp fun _ _ => grows.links⟩
  · intro address encoder found
    change (view.memory.encoders.push _)[address]? = some encoder at found
    rw [Array.getElem?_push] at found
    split at found
    · rename_i last
      rw [← Option.some.inj found, last]
      exact if_pos rfl
    · exact grows.routines (sound.kept found)
  · intro cell' address told
    rw [finish_told] at told
    split at told
    · rename_i same
      rw [same]
      exact bound
    · exact sound.cells told
  · intro other cell' pending'
    change (if other = type then _ else _) = some cell' at pending'
    split at pending'
    · cases pending'
    · rename_i differs
      obtain ⟨bound', untold', unbuilt'⟩ := sound.pending pending'
      refine ⟨bound', ?_, (if_neg differs).trans unbuilt'⟩
      rw [finish_told, if_neg ?_]
      · exact untold'
      · rintro rfl
        exact differs (sound.apart pending' pending)
  · intro one other cell' pending₁ pending₂
    change (if one = type then _ else _) = some cell' at pending₁
    change (if other = type then _ else _) = some cell' at pending₂
    split at pending₁
    · cases pending₁
    · split at pending₂
      · cases pending₂
      · exact sound.apart pending₁ pending₂

end

section
open Classical

/-- How many of the types that a root can lead to are neither built nor being built. -/
noncomputable def fresh (schema : Schema) (root : Ty) (view : View) : Nat :=
  ((schema.typesFrom root).toFinset.filter fun type => ¬ ∃ link, view.LinksTo type link).card

theorem fresh_le_length (schema : Schema) (root : Ty) (view : View) :
    view.fresh schema root ≤ (schema.typesFrom root).length :=
  (Finset.card_filter_le _ _).trans (List.toFinset_card_le _)

theorem Grows.fresh_le (grows : view.Grows later) (schema : Schema) (root : Ty) :
    later.fresh schema root ≤ view.fresh schema root :=
  Finset.card_le_card (Finset.monotone_filter_right _ fun _ _ none ⟨link, leads⟩ => none ⟨link, grows.links leads⟩)

/-- A type that is taken up is not fresh any longer. -/
theorem Grows.fresh_lt (grows : view.Grows later) (member : type ∈ schema.typesFrom root)
    (none : ¬ ∃ link, view.LinksTo type link) (leads : later.LinksTo type link) :
    later.fresh schema root < view.fresh schema root := by
  refine Finset.card_lt_card (Finset.ssubset_iff_of_subset ?_ |>.2 ⟨type, ?_, ?_⟩)
  · exact Finset.monotone_filter_right _ fun _ _ none ⟨link, leads⟩ => none ⟨link, grows.links leads⟩
  · exact Finset.mem_filter.2 ⟨List.mem_toFinset.2 member, none⟩
  · exact fun held => (Finset.mem_filter.1 held).2 ⟨link, leads⟩

end

end View

end XmlBinding
