/-! Entries under text keys. A collection lists its entries in the order in which their keys came;
putting an entry under a key that is there changes it in place, so no key occurs twice. -/
namespace XmlBinding

/-- Entries, each under its key. -/
abbrev Keyed (α : Type u) := List (String × α)

namespace Keyed

/-- The first entry under a key. -/
def get? (entries : Keyed α) (key : String) : Option α :=
  entries.lookup key

/-- Puts a value under a key, joined to the value that is there, if one is. -/
def insertWith (join : α → α → α) : Keyed α → String → α → Keyed α
  | [], key, value => [(key, value)]
  | (k, old) :: rest, key, value =>
    if k = key then (k, join old value) :: rest else (k, old) :: insertWith join rest key value

/-- Puts a value under a key in place of the one that is there. -/
def put (entries : Keyed α) (key : String) (value : α) : Keyed α :=
  entries.insertWith (fun _ new => new) key value

def keys (entries : Keyed α) : List String :=
  entries.map Prod.fst

/-- No key occurs twice. -/
def Distinct (entries : Keyed α) : Prop :=
  entries.keys.Nodup

instance (entries : Keyed α) : Decidable entries.Distinct :=
  inferInstanceAs (Decidable entries.keys.Nodup)

/-- Puts a value under a key, before the entries with greater keys. -/
def place : Keyed α → String → α → Keyed α
  | [], key, value => [(key, value)]
  | (k, old) :: rest, key, value =>
    if key < k then (key, value) :: (k, old) :: rest
    else if key = k then (key, value) :: rest
    else (k, old) :: place rest key value

/-- Puts an entry before the first one whose key is not smaller. -/
def insertSorted (entry : String × α) : Keyed α → Keyed α
  | [] => [entry]
  | other :: rest =>
    if entry.1 ≤ other.1 then entry :: other :: rest else other :: insertSorted entry rest

/-- The entries by increasing key; those of one key keep their order. -/
def sort : Keyed α → Keyed α
  | [] => []
  | entry :: rest => insertSorted entry (sort rest)

@[simp] theorem get?_nil (key : String) : get? ([] : Keyed α) key = none := rfl

theorem get?_cons (k : String) (value : α) (rest : Keyed α) (key : String) :
    get? ((k, value) :: rest) key = if key = k then some value else get? rest key := by
  unfold get?
  rw [List.lookup_cons]
  split <;> simp_all

theorem get?_insertWith (join : α → α → α) (entries : Keyed α) (key other : String) (value : α) :
    (entries.insertWith join key value).get? other =
      if other = key then some ((entries.get? key).elim value (join · value))
      else entries.get? other := by
  induction entries with
  | nil => exact get?_cons key value [] other
  | cons entry rest ih =>
    obtain ⟨k, old⟩ := entry
    rw [insertWith, get?_cons k old rest key, get?_cons k old rest other]
    by_cases here : k = key
    · subst here
      rw [if_pos rfl, if_pos rfl, get?_cons]
      split <;> rfl
    · rw [if_neg here, if_neg (Ne.symm here), get?_cons, ih]
      by_cases first : other = k
      · subst first
        rw [if_pos rfl, if_neg here, if_pos rfl]
      · rw [if_neg first, if_neg first]

end Keyed

end XmlBinding
