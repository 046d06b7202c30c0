import XmlBinding.Keyed

/-! Collections as partial maps. What matters of a collection whose keys are distinct is what it holds under each
key: putting entries changes it at their keys only, and sorting gives collections that agree everywhere one and the
same order. -/
namespace XmlBinding

theorem isEmpty_of_length {xs : List α} {ys : List β} (lengths : xs.length = ys.length) : xs.isEmpty = ys.isEmpty := by
  rw [Bool.eq_iff_iff, List.isEmpty_iff_length_eq_zero, List.isEmpty_iff_length_eq_zero, lengths]

namespace Keyed

@[simp] theorem length_keys (entries : Keyed α) : entries.keys.length = entries.length := List.length_map _

theorem get?_put (entries : Keyed α) (key other : String) (value : α) :
    (entries.put key value).get? other = if other = key then some value else entries.get? other := by
  rw [put, get?_insertWith]
  cases entries.get? key <;> rfl

/-- The second of two values that are put under a key is left. -/
theorem put_put (entries : Keyed α) (key : String) (first second : α) :
    (entries.put key first).put key second = entries.put key second := by
  unfold put
  induction entries with
  | nil => simp [insertWith]
  | cons entry rest ih =>
    by_cases here : entry.1 = key <;> simp [insertWith, here, ih]

/-- Putting back what is there changes nothing. -/
theorem put_self {entries : Keyed α} (found : entries.get? key = some value) : entries.put key value = entries := by
  unfold put
  induction entries with
  | nil => cases found
  | cons entry rest ih =>
    obtain ⟨k, old⟩ := entry
    rw [get?_cons] at found
    by_cases here : k = key
    · subst here
      simp_all [insertWith]
    · rw [if_neg (Ne.symm here)] at found
      simp [insertWith, here, ih found]

/-- Putting something under a key that is there leaves the order of keys, so it can be done later. -/
theorem put_comm {entries : Keyed α} (held : key ∈ entries.keys) (apart : key ≠ other) (first second : α) :
    (entries.put key first).put other second = (entries.put other second).put key first := by
  unfold put
  induction entries with
  | nil => cases held
  | cons entry rest ih =>
    obtain ⟨k, old⟩ := entry
    by_cases here : k = key
    · subst here
      simp [insertWith, apart]
    · by_cases there : k = other
      · subst there
        simp [insertWith, here]
      · have later : key ∈ keys rest := (List.mem_cons.1 held).resolve_left (Ne.symm here)
        simp [insertWith, here, there, ih later]

/-- Values of a collection that are changed one by one stay under their keys. -/
theorem get?_mapKeys (f : String → α → β) (entries : Keyed α) (key : String) :
    get? (entries.map fun entry => (entry.1, f entry.1 entry.2)) key = (entries.get? key).map (f key) := by
  induction entries with
  | nil => rfl
  | cons entry rest ih =>
    rw [List.map_cons, get?_cons, get?_cons, ih]
    split
    · rename_i same
      rw [same]
      rfl
    · rfl

theorem get?_map (f : α → β) (entries : Keyed α) (key : String) :
    get? (entries.map fun entry => (entry.1, f entry.2)) key = (entries.get? key).map f :=
  get?_mapKeys (fun _ => f) entries key

theorem get?_isSome_iff {entries : Keyed α} {key : String} : (entries.get? key).isSome ↔ key ∈ entries.keys := by
  rw [get?, List.lookup_isSome_iff, keys, List.mem_map]
  constructor
  · rintro ⟨entry, member, same⟩
    exact ⟨entry, member, (of_decide_eq_true same).symm⟩
  · rintro ⟨entry, member, rfl⟩
    exact ⟨entry, member, beq_self_eq_true _⟩

theorem get?_eq_none_iff {entries : Keyed α} {key : String} : entries.get? key = none ↔ key ∉ entries.keys := by
  rw [← get?_isSome_iff]
  cases entries.get? key <;> simp

theorem mem_of_get? {entries : Keyed α} {key : String} {value : α} (found : entries.get? key = some value) :
    (key, value) ∈ entries := by
  obtain ⟨before, after, rfl, -⟩ := List.lookup_eq_some_iff.1 found
  simp

@[simp] theorem distinct_nil : Distinct ([] : Keyed α) := List.nodup_nil

theorem distinct_cons {k : String} {value : α} {rest : Keyed α} :
    Distinct ((k, value) :: rest) ↔ k ∉ rest.keys ∧ rest.Distinct := List.nodup_cons

/-- Keys are distinct whatever stands under them. -/
theorem Distinct.values {entries : Keyed α} (distinct : entries.Distinct) (f : String × α → β) :
    Distinct (entries.map fun entry => (entry.1, f entry)) := by
  rw [Distinct, keys, List.map_map]
  exact distinct

/-- Among distinct keys every entry is found. -/
theorem get?_of_mem {entries : Keyed α} {key : String} {value : α} (distinct : entries.Distinct)
    (member : (key, value) ∈ entries) : entries.get? key = some value := by
  induction entries with
  | nil => cases member
  | cons entry rest ih =>
    obtain ⟨k, old⟩ := entry
    obtain ⟨fresh, distinct⟩ := distinct_cons.1 distinct
    rw [get?_cons]
    rcases List.mem_cons.1 member with same | later
    · obtain ⟨rfl, rfl⟩ := Prod.mk.inj same
      rw [if_pos rfl]
    · rw [if_neg, ih distinct later]
      rintro rfl
      exact fresh (List.mem_map_of_mem later)

theorem get?_eq_some_iff {entries : Keyed α} {key : String} {value : α} (distinct : entries.Distinct) :
    entries.get? key = some value ↔ (key, value) ∈ entries :=
  ⟨mem_of_get?, get?_of_mem distinct⟩

/-- Collections with the same keys in the same order are equal if they agree under every key. -/
theorem eq_of_keys {a b : Keyed α} (distinct : b.Distinct) (shape : a.keys = b.keys)
    (same : ∀ key, a.get? key = b.get? key) : a = b := by
  induction a generalizing b with
  | nil => exact (List.map_eq_nil_iff.1 shape.symm).symm
  | cons entry rest ih =>
    obtain ⟨key, value⟩ := entry
    cases b with
    | nil => cases shape
    | cons entry' rest' =>
      obtain ⟨key', value'⟩ := entry'
      obtain ⟨rfl, shapes⟩ : key = key' ∧ keys rest = keys rest' := List.cons.inj shape
      have values := same key
      rw [get?_cons, get?_cons, if_pos rfl, if_pos rfl] at values
      obtain rfl := Option.some.inj values
      obtain ⟨fresh, distinct⟩ := distinct_cons.1 distinct
      rw [ih distinct shapes fun other => ?_]
      by_cases here : other = key
      · subst here
        exact (get?_eq_none_iff.2 (shapes ▸ fresh : other ∉ keys rest)).trans (get?_eq_none_iff.2 fresh).symm
      · have there := same other
        rwa [get?_cons, get?_cons, if_neg here, if_neg here] at there

/-- Putting something under a key that is there leaves the keys. -/
theorem keys_put {entries : Keyed α} {value : α} (held : key ∈ entries.keys) :
    (entries.put key value).keys = entries.keys := by
  unfold put
  induction entries with
  | nil => cases held
  | cons entry rest ih =>
    obtain ⟨k, old⟩ := entry
    rw [insertWith]
    split
    · rfl
    · rename_i differs
      exact congrArg (k :: ·) (ih ((List.mem_cons.1 held).resolve_left (Ne.symm differs)))

theorem mem_keys_insertWith {join : α → α → α} {entries : Keyed α} {key other : String} {value : α} :
    other ∈ (entries.insertWith join key value).keys ↔ other = key ∨ other ∈ entries.keys := by
  rw [← get?_isSome_iff, ← get?_isSome_iff, get?_insertWith]
  by_cases same : other = key <;> simp [same]

theorem Distinct.insertWith {entries : Keyed α} (distinct : entries.Distinct) (join : α → α → α) (key : String)
    (value : α) : (entries.insertWith join key value).Distinct := by
  induction entries with
  | nil => exact distinct_cons.2 ⟨List.not_mem_nil, distinct_nil⟩
  | cons entry rest ih =>
    obtain ⟨k, old⟩ := entry
    obtain ⟨fresh, distinct⟩ := distinct_cons.1 distinct
    rw [Keyed.insertWith]
    split
    · exact distinct_cons.2 ⟨fresh, distinct⟩
    · rename_i other
      refine distinct_cons.2 ⟨?_, ih distinct⟩
      rw [mem_keys_insertWith]
      exact not_or.2 ⟨other, fresh⟩

theorem Distinct.put {entries : Keyed α} (distinct : entries.Distinct) (key : String) (value : α) :
    (entries.put key value).Distinct := distinct.insertWith _ key value

/-- A collection with further entries, each joined to what is there. -/
def insertAll (join : α → α → α) (entries more : Keyed α) : Keyed α :=
  more.foldl (fun entries entry => entries.insertWith join entry.1 entry.2) entries

theorem insertAll_cons (join : α → α → α) (entries : Keyed α) (entry : String × α) (more : Keyed α) :
    insertAll join entries (entry :: more) = insertAll join (entries.insertWith join entry.1 entry.2) more := rfl

theorem Distinct.insertAll {entries : Keyed α} (distinct : entries.Distinct) (join : α → α → α) (more : Keyed α) :
    (Keyed.insertAll join entries more).Distinct := by
  induction more generalizing entries with
  | nil => exact distinct
  | cons entry more ih => exact ih (distinct.insertWith join _ _)

theorem insertAll_eq_nil {join : α → α → α} {entries more : Keyed α} (none : insertAll join entries more = []) :
    entries = [] ∧ more = [] := by
  induction more generalizing entries with
  | nil => exact ⟨none, rfl⟩
  | cons entry rest ih =>
    have grown := (ih none).1
    cases entries with
    | nil => cases grown
    | cons first others =>
      obtain ⟨k, old⟩ := first
      dsimp only at grown
      rw [insertWith] at grown
      split at grown <;> cases grown

/-- Entries of other keys are put behind those that are there. -/
theorem insertAll_eq_append {entries more : Keyed α} (distinct : Distinct (entries ++ more)) (join : α → α → α) :
    insertAll join entries more = entries ++ more := by
  induction more generalizing entries with
  | nil => exact (List.append_nil _).symm
  | cons entry rest ih =>
    have behind {entries : Keyed α} (fresh : entry.1 ∉ entries.keys) :
        entries.insertWith join entry.1 entry.2 = entries ++ [entry] := by
      induction entries with
      | nil => rfl
      | cons first others ih =>
        obtain ⟨k, old⟩ := first
        rw [keys, List.map_cons, List.mem_cons, not_or] at fresh
        rw [insertWith, if_neg (Ne.symm fresh.1), ih fresh.2]
        rfl
    have fresh : entry.1 ∉ entries.keys := by
      rw [Distinct, keys, List.map_append, List.map_cons] at distinct
      exact fun member => (List.nodup_append.1 distinct).2.2 _ member _ List.mem_cons_self rfl
    rw [List.append_cons] at distinct ⊢
    rw [insertAll_cons, behind fresh, ih distinct]

/-- All values under a key, in their order. -/
def under (entries : Keyed α) (key : String) : List α :=
  (entries.filter (·.1 = key)).map Prod.snd

theorem under_cons (k : String) (value : α) (rest : Keyed α) (key : String) :
    under ((k, value) :: rest) key = if k = key then value :: rest.under key else rest.under key := by
  unfold under
  rw [List.filter_cons]
  split <;> simp_all

theorem mem_under {entries : Keyed α} {key : String} {value : α} :
    value ∈ entries.under key ↔ (key, value) ∈ entries := by
  rw [under, List.mem_map]
  constructor
  · rintro ⟨entry, member, rfl⟩
    obtain ⟨member, same⟩ := List.mem_filter.1 member
    rwa [← of_decide_eq_true same]
  · intro member
    exact ⟨_, List.mem_filter.2 ⟨member, decide_eq_true rfl⟩, rfl⟩

theorem under_eq_nil {entries : Keyed α} : entries.under key = [] ↔ key ∉ entries.keys := by
  constructor
  · intro none held
    obtain ⟨entry, member, rfl⟩ := List.mem_map.1 held
    exact List.not_mem_nil (none ▸ mem_under.2 member)
  · intro absent
    exact List.eq_nil_iff_forall_not_mem.2 fun value member => absent (List.mem_map_of_mem (mem_under.1 member))

theorem under_append (first second : Keyed α) (key : String) :
    under (first ++ second) key = first.under key ++ second.under key := by
  simp [under]

theorem under_map (f : α → β) (entries : Keyed α) (key : String) :
    under (entries.map fun entry => (entry.1, f entry.2)) key = (entries.under key).map f := by
  simp only [under, List.filter_map, List.map_map, Function.comp_def]

theorem under_same (values : List α) (key other : String) :
    under (values.map (key, ·)) other = if key = other then values else [] := by
  rw [under, List.filter_map, List.map_map]
  by_cases same : key = other <;> simp [same, Function.comp_def]

/-- If each entry is followed up apart, and only that under one key to the key that is asked for, then what is found
there comes of what the one key holds. -/
theorem under_flatMap {entries : Keyed α} (distinct : entries.Distinct) (follow : String × α → Keyed β)
    (source key : String) (elsewhere : ∀ entry ∈ entries, entry.1 ≠ source → (follow entry).under key = []) :
    under (entries.flatMap follow) key =
      (entries.get? source).elim [] fun value => (follow (source, value)).under key := by
  induction entries with
  | nil => rfl
  | cons entry rest ih =>
    obtain ⟨k, value⟩ := entry
    obtain ⟨fresh, apart⟩ := distinct_cons.1 distinct
    obtain ⟨here, later⟩ := List.forall_mem_cons.1 elsewhere
    rw [List.flatMap_cons, under_append, ih apart later, get?_cons]
    by_cases same : source = k
    · subst same
      rw [if_pos rfl, get?_eq_none_iff.2 fresh]
      exact List.append_nil _
    · rw [if_neg same, here (Ne.symm same), List.nil_append]

/-- Entries of which some are left out and the others have their values changed. -/
def choose (f : String → α → Option β) (entries : Keyed α) : Keyed β :=
  entries.filterMap fun entry => (f entry.1 entry.2).map (entry.1, ·)

theorem choose_cons (f : String → α → Option β) (key : String) (value : α) (rest : Keyed α) :
    choose f ((key, value) :: rest) =
      match f key value with
      | some left => (key, left) :: choose f rest
      | none => choose f rest := by
  rw [choose, List.filterMap_cons]
  cases f key value <;> rfl

theorem choose_eq_self {f : String → α → Option α} {entries : Keyed α}
    (kept : ∀ entry ∈ entries, f entry.1 entry.2 = some entry.2) : choose f entries = entries := by
  induction entries with
  | nil => rfl
  | cons entry rest ih =>
    obtain ⟨here, later⟩ := List.forall_mem_cons.1 kept
    rw [choose_cons, here, ih later]

theorem Distinct.choose {entries : Keyed α} (distinct : entries.Distinct) (f : String → α → Option β) :
    (Keyed.choose f entries).Distinct := by
  have keys : (Keyed.choose f entries).keys.Sublist entries.keys := by
    induction entries with
    | nil => exact .slnil
    | cons entry rest ih =>
      have shorter := ih (distinct_cons.1 distinct).2
      rw [choose_cons]
      split
      · exact shorter.cons_cons _
      · exact shorter.cons _
  exact keys.nodup distinct

theorem get?_choose {entries : Keyed α} (distinct : entries.Distinct) (f : String → α → Option β) (key : String) :
    (choose f entries).get? key = (entries.get? key).bind (f key) := by
  induction entries with
  | nil => rfl
  | cons entry rest ih =>
    obtain ⟨k, value⟩ := entry
    obtain ⟨fresh, apart⟩ := distinct_cons.1 distinct
    rw [choose_cons, get?_cons k value]
    by_cases same : key = k
    · subst same
      rw [if_pos rfl, Option.bind_some]
      cases f key value with
      | none => rw [ih apart, get?_eq_none_iff.2 fresh]; rfl
      | some found => rw [get?_cons, if_pos rfl]
    · rw [if_neg same, ← ih apart]
      cases f k value with
      | none => rfl
      | some found => rw [get?_cons, if_neg same]

/-- Values joined one after another to what is there. -/
def joinOnto (join : α → α → α) (found : Option α) (values : List α) : Option α :=
  values.foldl (fun found value => some (found.elim value (join · value))) found

/-- A key holds what was there, joined to all values that came under it. -/
theorem get?_insertAll (join : α → α → α) (entries more : Keyed α) (key : String) :
    (insertAll join entries more).get? key = joinOnto join (entries.get? key) (more.under key) := by
  induction more generalizing entries with
  | nil => rfl
  | cons entry more ih =>
    obtain ⟨k, value⟩ := entry
    rw [insertAll_cons, ih, under_cons, get?_insertWith]
    by_cases same : key = k
    · subst same
      rw [if_pos rfl, if_pos rfl]
      rfl
    · rw [if_neg same, if_neg (Ne.symm same)]

/-- The last of some values is left, if each takes the place of the one before. -/
theorem joinOnto_last (found : Option α) (values : List α) :
    joinOnto (fun _ new => new) found values = values.getLast?.or found := by
  induction values generalizing found with
  | nil => rfl
  | cons value more ih =>
    refine (ih _).trans ?_
    rw [List.getLast?_cons]
    cases found <;> cases more.getLast? <;> rfl

/-- Values of which the first takes in all others, if each that comes is added to what it took in before. -/
theorem joinOnto_group {join : α → α → α} (group : List α → α) (pair : ∀ value, join first value = group [value])
    (grow : ∀ taken value, join (group taken) value = group (taken ++ [value])) (more : List α) :
    joinOnto join none (first :: more) = some (if more = [] then first else group more) := by
  have onward (taken more : List α) : joinOnto join (some (group taken)) more = some (group (taken ++ more)) := by
    induction more generalizing taken with
    | nil =>
      rw [List.append_nil]
      rfl
    | cons value more ih =>
      rw [List.append_cons, ← ih, ← grow]
      rfl
  cases more with
  | nil => rfl
  | cons value more =>
    refine Eq.trans ?_ (onward [value] more)
    rw [← pair]
    rfl

/-- A collection whose values are changed one by one, if joining the changed values is changing the joined ones. -/
theorem map_insertWith {join : α → α → α} {join' : β → β → β} (f : α → β)
    (joins : ∀ old value, f (join old value) = join' (f old) (f value)) (entries : Keyed α) (key : String)
    (value : α) :
    (entries.insertWith join key value).map (fun entry => (entry.1, f entry.2)) =
      Keyed.insertWith join' (entries.map fun entry => (entry.1, f entry.2)) key (f value) := by
  induction entries with
  | nil => rfl
  | cons entry rest ih =>
    simp only [insertWith, List.map_cons]
    split
    · rw [List.map_cons, joins]
    · rw [List.map_cons, ih]

theorem map_insertAll {join : α → α → α} {join' : β → β → β} (f : α → β)
    (joins : ∀ old value, f (join old value) = join' (f old) (f value)) (entries more : Keyed α) :
    (insertAll join entries more).map (fun entry => (entry.1, f entry.2)) =
      insertAll join' (entries.map fun entry => (entry.1, f entry.2))
        (more.map fun entry => (entry.1, f entry.2)) := by
  induction more generalizing entries with
  | nil => rfl
  | cons entry more ih => rw [insertAll_cons, ih, map_insertWith f joins]; rfl

theorem map_put (f : α → β) (entries : Keyed α) (key : String) (value : α) :
    (entries.put key value).map (fun entry => (entry.1, f entry.2)) =
      Keyed.put (entries.map fun entry => (entry.1, f entry.2)) key (f value) :=
  map_insertWith f (fun _ _ => rfl) entries key value

end Keyed

end XmlBinding
