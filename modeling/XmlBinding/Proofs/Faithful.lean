import XmlBinding.Proofs.Rendering

/-! Values that have the form of a document. Such a value is written as its tree is, the document is accepted, and
what is read of it is the value in its normal form, in which no difference is left that a document cannot show. -/
namespace XmlBinding
open Text Grammar

namespace Value

theorem keyRole_literal (known : keyRole key = .ok .literal) :
    (∃ tag, attributeOfKey? key = some tag ∧ IsName tag.toList) ∨ key = textKey ∨ key = cdataKey := by
  unfold keyRole at known
  split at known
  · rename_i tag found
    split at known
    · rename_i named
      exact .inl ⟨tag, found, isName_iff.1 named⟩
    · cases known
  · split at known
    · rename_i special
      simp only [Bool.or_eq_true, beq_iff_eq] at special
      exact .inr special
    · split at known
      · cases known
      · split at known <;> cases known

theorem keyRole_child (known : keyRole key = .ok .child) : IsName key.toList := by
  unfold keyRole at known
  split at known
  · split at known <;> cases known
  · split at known
    · cases known
    · split at known
      · cases known
      · split at known
        · rename_i named
          exact isName_iff.1 named
        · cases known

/-- Only a string stands where no child does. -/
theorem stands_of_literal (known : keyRole key = .ok .literal) (made : toNode key .literal false value = .ok node) :
    Stands fitting key value ∧ node.toValue = value := by
  cases value with
  | map | list => cases made
  | string text =>
    cases made
    refine ⟨?_, rfl⟩
    rcases keyRole_literal known with ⟨tag, marked, name⟩ | rfl | rfl
    · exact .named marked name text
    · exact .text text
    · exact .cdata text

theorem map_ok {result : Except Error α} {f : α → β} (mapped : result.map f = .ok b) :
    ∃ a, result = .ok a ∧ f a = b := by
  cases result with
  | error error => cases mapped
  | ok a => exact ⟨a, rfl, Except.ok.inj mapped⟩

mutual

/-- A child that has become a tree is fitting, and the tree has it as its content. -/
theorem fitting_of_toNode (key : String) : ∀ (value : Value) {inList : Bool} {node : Node},
    toNode key .child inList value = .ok node → Fitting inList value ∧ node.toValue = value
  | .string text, _, _, made => by
    cases made
    exact ⟨.string text, rfl⟩
  | .map entries, _, _, made => by
    obtain ⟨properties, inner, rfl⟩ := map_ok made
    obtain ⟨each, same⟩ := stands_of_toProperties entries inner
    exact ⟨.map each, congrArg _ same⟩
  | .list items, true, _, made => by cases made
  | .list items, false, _, made => by
    obtain ⟨nodes, inner, rfl⟩ := map_ok made
    obtain ⟨each, same⟩ := fitting_of_toNodes key items inner
    exact ⟨.list each, congrArg _ same⟩

theorem stands_of_toProperties : ∀ (entries : List (String × Value)) {properties : List (String × Node)},
    toProperties entries = .ok properties →
      (∀ entry ∈ entries, Stands (Fitting false) entry.1 entry.2) ∧ Node.toEntries properties = entries
  | [], _, made => by
    cases made
    exact ⟨List.forall_mem_nil _, rfl⟩
  | (key, value) :: rest, _, made => by
    rw [toProperties] at made
    split at made
    · cases made
    · rename_i role known
      split at made
      · cases made
      · rename_i node here
        obtain ⟨properties, later, rfl⟩ := map_ok made
        obtain ⟨each, sames⟩ := stands_of_toProperties rest later
        have first : Stands (Fitting false) key value ∧ node.toValue = value := by
          cases role with
          | literal => exact stands_of_literal known here
          | child =>
            obtain ⟨fits, same⟩ := fitting_of_toNode key value here
            exact ⟨.child (keyRole_child known) fits, same⟩
        exact ⟨List.forall_mem_cons.2 ⟨first.1, each⟩, by rw [Node.toEntries, first.2, sames]⟩

theorem fitting_of_toNodes (key : String) : ∀ (items : List Value) {nodes : List Node},
    toNodes key items = .ok nodes → (∀ item ∈ items, Fitting true item) ∧ Node.toItems nodes = items
  | [], _, made => by
    cases made
    exact ⟨List.forall_mem_nil _, rfl⟩
  | item :: rest, _, made => by
    rw [toNodes] at made
    split at made
    · cases made
    · rename_i node here
      obtain ⟨nodes, later, rfl⟩ := map_ok made
      obtain ⟨fits, same⟩ := fitting_of_toNode key item here
      obtain ⟨each, sames⟩ := fitting_of_toNodes key rest later
      exact ⟨List.forall_mem_cons.2 ⟨fits, each⟩, by rw [Node.toItems, same, sames]⟩

end

/-- A value that has become a document is a map of what may stand in one. -/
theorem stands_of_toDocument {value : Value} (made : value.toDocument = .ok tree) :
    ∃ entries, value = .map entries ∧ (∀ entry ∈ entries, Stands (Fitting false) entry.1 entry.2) ∧
      tree.toValue = value := by
  cases value with
  | string | list => cases made
  | map entries =>
    obtain ⟨properties, inner, rfl⟩ := map_ok made
    obtain ⟨each, same⟩ := stands_of_toProperties entries inner
    exact ⟨entries, rfl, each, congrArg _ same⟩

/-- Whether an entry leaves no trace in a document: an empty text, or children of which there are none. -/
def vanishes (key : String) : Value → Bool
  | string text => key == textKey && text.isEmpty
  | list items => items.isEmpty
  | map _ => false

mutual

/-- The normal form of a child: a text is an element that holds it, and a list of one is that one. -/
def normal : Value → Value
  | string text => map (if text = "" then [] else [(textKey, string text)])
  | map entries => map (normalEach entries)
  | list items =>
    match normalItems items with
    | [item] => item
    | items => list items

/-- The normal form of some entries. Attributes and CDATA stay as they are. -/
def normalEach : List (String × Value) → Keyed Value
  | [] => []
  | (key, value) :: rest =>
    if vanishes key value then normalEach rest
    else (key, if isChildKey key then normal value else value) :: normalEach rest

def normalItems : List Value → List Value
  | [] => []
  | item :: rest => normal item :: normalItems rest

end

example :
    normal (map [("#text", string ""), ("b", list [string "x"]), ("c", list []), ("d", list [string "", map []])]) =
      map [("b", map [("#text", string "x")]), ("d", list [map [], map []])] := rfl

theorem gathered_map (contents : List Value) :
    (gathered contents).map canonical = gathered (contents.map canonical) := by
  rcases contents with _ | ⟨first, _ | ⟨second, more⟩⟩
  · rfl
  · rfl
  · rw [gathered, List.map_cons, List.map_cons, gathered, Option.map_some, canonical, canonicalItems_eq_map]
    · rfl
    · simp
    · simp

theorem normalEntry_canonical (same : value.canonical.contents.map canonical = value.contents.map canonical)
    (key : String) : (normalEntry key value.canonical).map canonical = (normalEntry key value).map canonical := by
  unfold normalEntry
  split
  · rw [gathered_map, gathered_map, same]
  · cases value <;> rfl

mutual

/-- The order of entries makes no difference to what comes back. -/
theorem contents_canonical : ∀ value : Value, value.Distinct →
    value.canonical.contents.map canonical = value.contents.map canonical
  | .string _, _ => rfl
  | .map entries, .map keys each => by
    have inside := entries_canonical entries each
    have mapped := keys.values (·.2.canonical)
    simp only [canonical, contents, List.map_singleton, normalEntries_eq, canonicalEntries_eq_map]
    congr 2
    refine Keyed.sort_eq_of_get? ((mapped.sort.choose _).values _) ((keys.choose _).values _) fun key => ?_
    rw [Keyed.get?_map, Keyed.get?_map, Keyed.get?_choose mapped.sort, Keyed.get?_choose keys, Keyed.get?_sort mapped,
      Keyed.get?_map]
    cases found : Keyed.get? entries key with
    | none => rfl
    | some value => exact normalEntry_canonical (inside _ (Keyed.mem_of_get? found)) key
  | .list items, .list each => items_canonical items each

theorem entries_canonical : ∀ entries : List (String × Value), (∀ entry ∈ entries, entry.2.Distinct) →
    ∀ entry ∈ entries, entry.2.canonical.contents.map canonical = entry.2.contents.map canonical
  | [], _ => List.forall_mem_nil _
  | (_, value) :: rest, each =>
    have here := List.forall_mem_cons.1 each
    List.forall_mem_cons.2 ⟨contents_canonical value here.1, entries_canonical rest here.2⟩

theorem items_canonical : ∀ items : List Value, (∀ item ∈ items, item.Distinct) →
    (itemContents (canonicalItems items)).map canonical = (itemContents items).map canonical
  | [], _ => rfl
  | item :: rest, each => by
    obtain ⟨here, later⟩ := List.forall_mem_cons.1 each
    rw [canonicalItems, itemContents, itemContents, List.map_append, List.map_append, contents_canonical item here,
      items_canonical rest later]

end

mutual

/-- What comes back of a single child is its normal form. -/
theorem contents_normal : ∀ value : Value, Fitting true value → value.contents = [value.normal]
  | .string _, _ => rfl
  | .map entries, .map each => by rw [contents, normal, normalEntries_normal entries each]

theorem normalEntries_normal : ∀ entries : List (String × Value),
    (∀ entry ∈ entries, Stands (Fitting false) entry.1 entry.2) → normalEntries entries = normalEach entries
  | [], _ => rfl
  | (key, value) :: rest, each => by
    obtain ⟨here, later⟩ := List.forall_mem_cons.1 each
    rw [normalEntries, normalEntries_normal rest later, normalEach]
    cases here with
    | named marked name body =>
      obtain rfl := attributeKey_of_attributeOfKey? marked
      simp [isChildKey_attributeKey, literal?, attributeKey_ne_textKey, vanishes]
    | text body =>
      have special : isChildKey "#text" = false := by decide
      by_cases none : body = "" <;> simp [special, literal?, none, vanishes, textKey, cdataKey, attributeOfKey?]
    | cdata body =>
      have special : isChildKey "#cdata" = false := by decide
      simp [special, literal?, vanishes, cdataKey, textKey]
    | child name fits =>
      rw [if_pos name.isChildKey, if_pos name.isChildKey]
      match value, fits with
      | .string text, _ =>
        simp [vanishes, isChildKey_ne name.isChildKey (show isChildKey textKey = false by decide)]
        rfl
      | .map entries, .map each => rw [contents_normal (.map entries) (.map each)]; rfl
      | .list items, .list each =>
        rw [contents, itemContents_normal items each]
        rcases items with _ | ⟨first, _ | ⟨second, more⟩⟩ <;> rfl

theorem itemContents_normal : ∀ items : List Value, (∀ item ∈ items, Fitting true item) →
    itemContents items = normalItems items
  | [], _ => rfl
  | item :: rest, each => by
    obtain ⟨here, later⟩ := List.forall_mem_cons.1 each
    rw [itemContents, normalItems, contents_normal item here, itemContents_normal rest later]
    rfl

end

theorem normalEach_keys (entries : Entries) : (normalEach entries).keys.Sublist entries.keys := by
  induction entries with
  | nil => exact .slnil
  | cons entry rest ih =>
    rw [normalEach]
    split
    · exact ih.cons _
    · exact ih.cons_cons _

mutual

theorem normal_distinct : ∀ value : Value, value.Distinct → value.normal.Distinct
  | .string text, _ => by
    rw [normal]
    split
    · exact .map Keyed.distinct_nil (List.forall_mem_nil _)
    · exact .map (by simp [Keyed.Distinct, Keyed.keys]) (List.forall_mem_singleton.2 (.string text))
  | .map entries, .map keys each => .map (keys.sublist (normalEach_keys entries)) (normalEach_distinct entries each)
  | .list items, .list each => by
    have inside := normalItems_distinct items each
    rw [normal]
    split
    · rename_i item same
      exact inside item (same ▸ List.mem_singleton_self item)
    · exact .list inside

theorem normalEach_distinct : ∀ entries : List (String × Value), (∀ entry ∈ entries, entry.2.Distinct) →
    ∀ entry ∈ normalEach entries, entry.2.Distinct
  | [], _ => List.forall_mem_nil _
  | (key, value) :: rest, each => by
    obtain ⟨here, later⟩ := List.forall_mem_cons.1 each
    have behind := normalEach_distinct rest later
    rw [normalEach]
    split
    · exact behind
    · refine List.forall_mem_cons.2 ⟨?_, behind⟩
      dsimp only
      split
      · exact normal_distinct value here
      · exact here

theorem normalItems_distinct : ∀ items : List Value, (∀ item ∈ items, item.Distinct) →
    ∀ item ∈ normalItems items, item.Distinct
  | [], _ => List.forall_mem_nil _
  | item :: rest, each =>
    have here := List.forall_mem_cons.1 each
    List.forall_mem_cons.2 ⟨normal_distinct item here.1, normalItems_distinct rest here.2⟩

end

/-- A value that has become a document is written as the document is; the output is accepted, and what is read of it
is the value in its normal form. -/
theorem render_faithful {value : Value} {tree : Node} (settings : Settings) (distinct : value.Distinct)
    (accepted : value.toDocument = .ok tree) (root : Text.isName settings.rootTag = true)
    (blank : ∀ layout ∈ settings.layout?, layout.Blank) (shallow : value.depth ≤ maxDepth) :
    tree.render settings = value.render settings ∧ validate (.ofBytes (value.render settings)) = .ok () ∧
      ∃ read, ofStream (.ofBytes (value.render settings)) = .ok read ∧ (read == value.normal) = true := by
  obtain ⟨entries, rfl, each, same⟩ := stands_of_toDocument accepted
  have sorted : (map entries).canonical = .map (canonicalEntries entries).sort := by rw [canonical]
  have deep := depth_canonical (.map entries) ▸ shallow
  have fits := Forest.fits_ofValue _ (fitting_canonical (.map entries) (.map each) : Fitting false _) deep
    (isName_iff.1 root) ⟨.nil, Nat.zero_le _⟩
  obtain ⟨tag, inside, document, read⟩ := render_document sorted distinct.canonical fits blank
  refine ⟨by rw [Node.render, same], validate_eq_ok_iff.2 ⟨tag, inside, document⟩, _,
    ofStream_eq_ok_iff.2 ⟨tag, inside, document, rfl⟩, ?_⟩
  rw [← tag.node_toValue]
  refine same_of_canonical document.whole.distinct (normal_distinct _ distinct) (read.trans ?_)
  have back := contents_canonical _ distinct
  rw [contents_normal _ (.map each)] at back
  exact List.singleton_inj.1 back

/-- An attribute with markup characters, an empty text, a list of one and an empty list, with a tab for each level. -/
theorem render_faithful_indented :
    let value := map [("@x", string "<\"&"), ("#text", string ""), ("b", list [string "]]>"]), ("c", list [])]
    let settings : Settings := ⟨"r", some ⟨"", "\t"⟩⟩
    ∃ tree, value.toDocument = .ok tree ∧ tree.render settings = value.render settings ∧
      validate (.ofBytes (value.render settings)) = .ok () ∧
      ∃ read, ofStream (.ofBytes (value.render settings)) = .ok read ∧ (read == value.normal) = true := by
  intro value settings
  have distinct : value.Distinct := by
    refine .map (List.nodup_iff_pairwise_ne.2 (by decide)) ?_
    simp only [List.forall_mem_cons]
    exact ⟨.string _, .string _, .list (List.forall_mem_singleton.2 (.string _)), .list (List.forall_mem_nil _),
      List.forall_mem_nil _⟩
  have accepted : value.toDocument = .ok (.object [("@x", .literal "<\"&" .start), ("#text", .literal "" .start),
      ("b", .array [.literal "]]>" .start] .start), ("c", .array [] .start)] .start) := by rfl
  refine ⟨_, accepted, render_faithful settings distinct accepted (by decide) ?_ (by decide)⟩
  rintro _ ⟨⟩
  exact ⟨by simp, by simp [isSpace]⟩

end Value

end XmlBinding
