import Mathlib.Data.List.Forall2
import XmlBinding.Typed.Unmarshal

/-! Induction on values, typed and native: what holds of a value if it holds of all values right inside it holds of every
value. -/
namespace XmlBinding

/-- The values right inside a value. -/
def Data.parts : Data → List Data
  | present data => [data]
  | dynamic _ data => [data]
  | record fields => fields.map Prod.snd
  | map entries => entries.map Prod.snd
  | list items => items
  | _ => []

mutual

theorem Data.induction {P : Data → Prop} (step : ∀ data : Data, (∀ part ∈ data.parts, P part) → P data) :
    ∀ data : Data, P data
  | .scalar _ => step _ (List.forall_mem_nil _)
  | .absent => step _ (List.forall_mem_nil _)
  | .present data => step _ (List.forall_mem_singleton.2 (Data.induction step data))
  | .dynamic _ data => step _ (List.forall_mem_singleton.2 (Data.induction step data))
  | .native _ => step _ (List.forall_mem_nil _)
  | .record fields => step _ (Data.induction_entries step fields)
  | .map entries => step _ (Data.induction_entries step entries)
  | .list items => step _ (Data.induction_items step items)
  | .sealed => step _ (List.forall_mem_nil _)

theorem Data.induction_entries {P : Data → Prop} (step : ∀ data : Data, (∀ part ∈ data.parts, P part) → P data) :
    ∀ entries : List (String × Data), ∀ part ∈ entries.map Prod.snd, P part
  | [] => List.forall_mem_nil _
  | (_, data) :: rest => List.forall_mem_cons.2 ⟨Data.induction step data, Data.induction_entries step rest⟩

theorem Data.induction_items {P : Data → Prop} (step : ∀ data : Data, (∀ part ∈ data.parts, P part) → P data) :
    ∀ items : List Data, ∀ part ∈ items, P part
  | [] => List.forall_mem_nil _
  | data :: rest => List.forall_mem_cons.2 ⟨Data.induction step data, Data.induction_items step rest⟩

end

namespace Value

def parts : Value → List Value
  | string _ => []
  | map entries => entries.map Prod.snd
  | list items => items

mutual

theorem induction {P : Value → Prop} (step : ∀ value : Value, (∀ part ∈ value.parts, P part) → P value) :
    ∀ value : Value, P value
  | string _ => step _ (List.forall_mem_nil _)
  | map entries => step _ (induction_entries step entries)
  | list items => step _ (induction_items step items)

theorem induction_entries {P : Value → Prop} (step : ∀ value : Value, (∀ part ∈ value.parts, P part) → P value) :
    ∀ entries : List (String × Value), ∀ part ∈ entries.map Prod.snd, P part
  | [] => List.forall_mem_nil _
  | (_, value) :: rest => List.forall_mem_cons.2 ⟨induction step value, induction_entries step rest⟩

theorem induction_items {P : Value → Prop} (step : ∀ value : Value, (∀ part ∈ value.parts, P part) → P value) :
    ∀ items : List Value, ∀ part ∈ items, P part
  | [] => List.forall_mem_nil _
  | value :: rest => List.forall_mem_cons.2 ⟨induction step value, induction_items step rest⟩

end

/-- What corresponds for the items of a list, or for another value as a list of one. -/
theorem forall₂_listed {same : α → β → Prop} (value : Value) (pairs : List.Forall₂ same as bs) (single : same a b) :
    List.Forall₂ same (value.listed as a) (value.listed bs b) := by
  unfold listed
  split
  · exact pairs
  · exact .cons single .nil

end Value

end XmlBinding
