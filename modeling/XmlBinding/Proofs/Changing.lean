import XmlBinding.Native.Value
import XmlBinding.Proofs.Canonical
import XmlBinding.Typed.Data

/-! Changes of collections, part by part. Each part is changed by what is known of the change of it alone; done a second
time, such changes change nothing more if none of the changes of the parts does. -/
namespace XmlBinding

namespace Keyed

/-- Some entries put one after another. -/
def putAll (entries more : Keyed α) : Keyed α := insertAll (fun _ new => new) entries more

theorem get?_putAll (entries more : Keyed α) (key : String) :
    (entries.putAll more).get? key = (more.under key).getLast?.or (entries.get? key) := by
  rw [putAll, get?_insertAll, joinOnto_last]

/-- What is put under a key is not seen if something else is put there later. -/
theorem putAll_put {entries more : Keyed α} (held : key ∈ entries.keys) (later : key ∈ more.keys) (value : α) :
    (entries.put key value).putAll more = entries.putAll more := by
  induction more generalizing entries with
  | nil => cases later
  | cons entry rest ih =>
    show ((entries.put key value).put entry.1 entry.2).putAll rest = (entries.put entry.1 entry.2).putAll rest
    by_cases here : key = entry.1
    · rw [here, put_put]
    · have later' : key ∈ keys rest := (List.mem_cons.1 later).resolve_left here
      have held' : key ∈ (entries.put entry.1 entry.2).keys := mem_keys_insertWith.2 (.inr held)
      rw [put_comm held here, ih held' later']

/-- Putting things under keys that are there changes nothing, if under each key there is in the end what was there. -/
theorem putAll_eq_self {entries more : Keyed α} (held : ∀ key ∈ more.keys, key ∈ entries.keys)
    (kept : ∀ key ∈ more.keys, (entries.putAll more).get? key = entries.get? key) : entries.putAll more = entries := by
  induction more generalizing entries with
  | nil => rfl
  | cons entry rest ih =>
    obtain ⟨key, value⟩ := entry
    obtain ⟨here, there⟩ := List.forall_mem_cons.1 held
    obtain ⟨same, kept'⟩ := List.forall_mem_cons.1 kept
    by_cases again : key ∈ keys rest
    · have hidden : entries.putAll ((key, value) :: rest) = entries.putAll rest := putAll_put here again value
      simp only [hidden] at kept' ⊢
      exact ih there kept'
    · -- Nothing else is put there, so this is what was there.
      have found : entries.get? key = some value := by
        rw [get?_putAll, under_cons, if_pos rfl, under_eq_nil.2 again] at same
        exact same.symm
      have idle : entries.putAll ((key, value) :: rest) = entries.putAll rest := by
        show (entries.put key value).putAll rest = _
        rw [put_self found]
      simp only [idle] at kept' ⊢
      exact ih there kept'

/-- What some changes one after another make of something. -/
def together (changes : List (α → α)) (value : α) : α := changes.foldl (fun value change => change value) value

/-- Changes of what stands under keys, or of a blank value where nothing does. -/
def changeAll (blank : String → α) (entries : Keyed α) : Keyed (α → α) → Keyed α
  | [] => entries
  | (key, change) :: rest => changeAll blank (entries.put key (change ((entries.get? key).getD (blank key)))) rest

theorem changeAll_append (blank : String → α) (entries : Keyed α) (first second : Keyed (α → α)) :
    entries.changeAll blank (first ++ second) = (entries.changeAll blank first).changeAll blank second := by
  induction first generalizing entries with
  | nil => rfl
  | cons entry rest ih => exact ih _

theorem changeAll_eq_putAll (blank : String → α) (entries : Keyed α) (changes : Keyed (α → α)) :
    ∃ more : Keyed α, more.keys = changes.keys ∧ entries.changeAll blank changes = entries.putAll more := by
  induction changes generalizing entries with
  | nil => exact ⟨[], rfl, rfl⟩
  | cons entry rest ih =>
    obtain ⟨key, change⟩ := entry
    obtain ⟨more, keys, same⟩ := ih (entries.put key (change ((entries.get? key).getD (blank key))))
    exact ⟨(key, _) :: more, congrArg (key :: ·) keys, same⟩

/-- Under a key stands what all changes of it make of what was there. -/
theorem get?_changeAll (blank : String → α) (entries : Keyed α) {changes : Keyed (α → α)}
    (changed : key ∈ changes.keys) : (entries.changeAll blank changes).get? key =
      some (together (changes.under key) ((entries.get? key).getD (blank key))) := by
  induction changes generalizing entries with
  | nil => cases changed
  | cons entry rest ih =>
    obtain ⟨k, change⟩ := entry
    rw [changeAll, under_cons]
    by_cases later : key ∈ keys rest
    · rw [ih _ later, get?_put]
      by_cases here : key = k
      · subst here
        simp [together]
      · simp [here, Ne.symm here]
    · obtain rfl : key = k := (List.mem_cons.1 changed).resolve_right later
      -- Nothing is changed under this key any more.
      obtain ⟨more, keys, same⟩ := changeAll_eq_putAll blank
        (entries.put key (change ((entries.get? key).getD (blank key)))) rest
      rw [same, get?_putAll, under_eq_nil.2 (keys ▸ later), get?_put, if_pos rfl, if_pos rfl, under_eq_nil.2 later]
      rfl

/-- Changes are made once if each is that makes something else of what is there. -/
theorem changeAll_changeAll (blank : String → α) (entries : Keyed α) {changes : Keyed (α → α)}
    (once : ∀ key ∈ changes.keys, ∀ value, value = (entries.get? key).getD (blank key) →
      together (changes.under key) (together (changes.under key) value) = together (changes.under key) value) :
    (entries.changeAll blank changes).changeAll blank changes = entries.changeAll blank changes := by
  obtain ⟨more, keys, same⟩ := changeAll_eq_putAll blank (entries.changeAll blank changes) changes
  have found {key : String} (changed : key ∈ changes.keys) := get?_changeAll blank entries changed
  rw [same]
  refine putAll_eq_self (fun key member => ?_) fun key member => ?_
  · rw [← get?_isSome_iff, found (keys ▸ member)]
    rfl
  · have changed : key ∈ changes.keys := keys ▸ member
    rw [← same, get?_changeAll blank _ changed, found changed]
    exact congrArg some (once key changed _ rfl)

/-- Some entries placed one after another. -/
def placeAll (entries more : Keyed α) : Keyed α :=
  more.foldl (fun entries entry => entries.place entry.1 entry.2) entries

theorem Ascending.placeAll {entries : Keyed α} (ascending : entries.Ascending) (more : Keyed α) :
    (entries.placeAll more).Ascending := by
  induction more generalizing entries with
  | nil => exact ascending
  | cons entry rest ih => exact ih (ascending.place _ _)

theorem get?_placeAll (entries more : Keyed α) (key : String) :
    (entries.placeAll more).get? key = (more.under key).getLast?.or (entries.get? key) := by
  induction more generalizing entries with
  | nil => rfl
  | cons entry rest ih =>
    obtain ⟨k, value⟩ := entry
    refine (ih _).trans ?_
    rw [get?_place, under_cons]
    by_cases here : key = k
    · subst here
      cases last : (under rest key).getLast? <;> simp [List.getLast?_cons, last]
    · simp [here, Ne.symm here]

theorem placeAll_placeAll {entries : Keyed α} (ascending : entries.Ascending) (more : Keyed α) :
    (entries.placeAll more).placeAll more = entries.placeAll more := by
  have once := ascending.placeAll more
  have twice := once.placeAll more
  refine eq_of_get? twice.sorted once.sorted twice.distinct once.distinct fun key => ?_
  rw [get?_placeAll, get?_placeAll]
  cases (more.under key).getLast? <;> rfl

end Keyed

/-- Changes of the items of a list, as far as both reach. -/
def changeEach : List (α → α) → List α → List α
  | change :: changes, item :: items => change item :: changeEach changes items
  | _, items => items

/-- The changes of items that come of some changes and then others. -/
def joinEach : List (α → α) → List (α → α) → List (α → α)
  | first :: firsts, second :: seconds => (second ∘ first) :: joinEach firsts seconds
  | [], seconds => seconds
  | firsts, [] => firsts

theorem changeEach_changeEach (first second : List (α → α)) (items : List α) :
    changeEach second (changeEach first items) = changeEach (joinEach first second) items := by
  induction first generalizing second items with
  | nil => cases second <;> rfl
  | cons change rest ih =>
    cases items with
    | nil => cases second <;> rfl
    | cons item items =>
      cases second with
      | nil => rfl
      | cons other others => exact congrArg (_ :: ·) (ih others items)

theorem forall_mem_joinEach {P : (α → α) → Prop} {first second : List (α → α)} (each : ∀ change ∈ first, P change)
    (each' : ∀ change ∈ second, P change) (both : ∀ change ∈ first, ∀ other, P other → P (other ∘ change)) :
    ∀ change ∈ joinEach first second, P change := by
  induction first generalizing second with
  | nil => cases second <;> exact each'
  | cons change rest ih =>
    cases second with
    | nil => exact each
    | cons other others =>
      obtain ⟨here, later⟩ := List.forall_mem_cons.1 each'
      obtain ⟨join, joins⟩ := List.forall_mem_cons.1 both
      exact List.forall_mem_cons.2 ⟨join other here, ih (List.forall_mem_cons.1 each).2 later joins⟩

theorem changeEach_twice {changes : List (α → α)} {items : List α}
    (once : ∀ change ∈ changes, ∀ item ∈ items, change (change item) = change item) :
    changeEach changes (changeEach changes items) = changeEach changes items := by
  induction changes generalizing items with
  | nil => cases items <;> rfl
  | cons change rest ih =>
    cases items with
    | nil => rfl
    | cons item items =>
      obtain ⟨here, later⟩ := List.forall_mem_cons.1 once
      have rests := ih fun change member => (List.forall_mem_cons.1 (later change member)).2
      rw [changeEach, changeEach, rests, here item List.mem_cons_self]

namespace Data

/-- Changes the slots of a record. -/
def onSlots (change : Keyed Data → Keyed Data) : Data → Data
  | record slots => record (change slots)
  | data => data

/-- Changes the entries of a map. -/
def onEntries (change : Keyed Data → Keyed Data) : Data → Data
  | map entries => map (change entries)
  | data => data

/-- Changes the items of an array. -/
def onItems (change : List Data → List Data) : Data → Data
  | list items => list (change items)
  | data => data

theorem onSlots_comp (first second : Keyed Data → Keyed Data) :
    onSlots second ∘ onSlots first = onSlots (second ∘ first) := by
  funext data
  cases data <;> rfl

theorem onEntries_comp (first second : Keyed Data → Keyed Data) :
    onEntries second ∘ onEntries first = onEntries (second ∘ first) := by
  funext data
  cases data <;> rfl

theorem onItems_comp (first second : List Data → List Data) :
    onItems second ∘ onItems first = onItems (second ∘ first) := by
  funext data
  cases data <;> rfl

end Data

end XmlBinding
