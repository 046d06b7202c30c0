import XmlBinding.Proofs.ParsingComplete
import XmlBinding.Proofs.Standing

/-! Two parsers in lockstep. They go the same way from states of which the same tokens are left, and end with the same
result or the same error, whatever else relates the states: what each keeps for reuse, or how the tokens end. What both
make names no places but those of tokens. Each use says which states go together and what an error may be. -/
namespace XmlBinding
open Text Grammar

mutual

/-- The places of a node and of everything in it. -/
def Node.positions : Node → List Position
  | .object properties place => place :: propertyPositions properties
  | .literal _ place => [place]
  | .array items place => place :: itemPositions items

/-- The places of all nodes under the keys of an object. -/
def Node.propertyPositions : List (String × Node) → List Position
  | [] => []
  | (_, node) :: rest => node.positions ++ propertyPositions rest

/-- The places of all nodes in a list. -/
def Node.itemPositions : List Node → List Position
  | [] => []
  | node :: rest => node.positions ++ itemPositions rest

end

/-- All places of a node are allowed. -/
def Node.Stays (allowed : Position → Prop) (node : Node) : Prop :=
  ∀ place ∈ node.positions, allowed place

/-- All places under the keys of an object are allowed. -/
def Properties.Stay (allowed : Position → Prop) (properties : Properties) : Prop :=
  ∀ entry ∈ properties, entry.2.Stays allowed

namespace Node.Stays
variable {allowed : Position → Prop}

theorem literal_iff {value : String} {place : Position} : (literal value place).Stays allowed ↔ allowed place :=
  List.forall_mem_singleton

theorem object_iff {properties : Properties} {place : Position} :
    (object properties place).Stays allowed ↔ allowed place ∧ properties.Stay allowed := by
  have inner (properties : Properties) :
      (∀ other ∈ propertyPositions properties, allowed other) ↔ properties.Stay allowed := by
    induction properties with
    | nil => simp [propertyPositions, Properties.Stay]
    | cons entry rest ih =>
      rw [propertyPositions, List.forall_mem_append, ih, Properties.Stay, Properties.Stay, List.forall_mem_cons]
      rfl
  rw [Stays, positions, List.forall_mem_cons, inner]

theorem array_iff {items : List Node} {place : Position} :
    (array items place).Stays allowed ↔ allowed place ∧ ∀ item ∈ items, item.Stays allowed := by
  have inner (items : List Node) :
      (∀ other ∈ itemPositions items, allowed other) ↔ ∀ item ∈ items, item.Stays allowed := by
    induction items with
    | nil => simp [itemPositions]
    | cons item rest ih =>
      rw [itemPositions, List.forall_mem_append, ih, List.forall_mem_cons]
      rfl
  rw [Stays, positions, List.forall_mem_cons, inner]

theorem place {node : Node} (stays : node.Stays allowed) : allowed node.position := by
  cases node with
  | literal => exact literal_iff.1 stays
  | object => exact (object_iff.1 stays).1
  | array => exact (array_iff.1 stays).1

theorem mono {node : Node} (stays : node.Stays allowed) (weaker : ∀ place, allowed place → allowed' place) :
    node.Stays allowed' :=
  fun place member => weaker place (stays place member)

/-- An array that grows, or begins, keeps the place of what was there. -/
theorem coalesce {node child : Node} {spare : List Node} (spares : ∀ item ∈ spare, item.Stays allowed)
    (stays : node.Stays allowed) (child_stays : child.Stays allowed) : (coalesce spare node child).Stays allowed := by
  have pair : (array (spare ++ [node, child]) node.position).Stays allowed :=
    array_iff.2 ⟨stays.place, by simpa [or_imp, forall_and, stays, child_stays] using spares⟩
  cases node with
  | literal => exact pair
  | object => exact pair
  | array items place =>
    obtain ⟨there, all⟩ := array_iff.1 stays
    exact array_iff.2 ⟨there, List.forall_mem_append.2 ⟨all, List.forall_mem_singleton.2 child_stays⟩⟩

end Node.Stays

namespace Properties.Stay
variable {allowed : Position → Prop} {properties : Properties}

theorem insertWith (stay : properties.Stay allowed) {join : Node → Node → Node}
    (joins : ∀ {old}, old.Stays allowed → (join old node).Stays allowed) (stays : node.Stays allowed) (key : String) :
    Properties.Stay allowed (properties.insertWith join key node) := by
  induction properties with
  | nil => exact List.forall_mem_singleton.2 stays
  | cons entry rest ih =>
    obtain ⟨first, later⟩ := List.forall_mem_cons.1 stay
    rw [Keyed.insertWith.eq_def]
    dsimp only
    split
    · exact List.forall_mem_cons.2 ⟨joins first, later⟩
    · exact List.forall_mem_cons.2 ⟨first, ih later⟩

theorem put (stay : properties.Stay allowed) (key value : String) (there : allowed place) :
    Properties.Stay allowed (properties.put key (.literal value place)) :=
  stay.insertWith (fun _ => Node.Stays.literal_iff.2 there) (Node.Stays.literal_iff.2 there) key

end Properties.Stay

/-- All places in what has been read of a content are allowed. -/
structure Content.Stays (allowed : Position → Prop) (content : Content) : Prop where
  properties : content.properties.Stay allowed
  text : ∀ place, content.textPosition? = some place → allowed place
  cdata : ∀ body place, content.cdata? = some (body, place) → allowed place

namespace Content.Stays
variable {allowed : Position → Prop} {content : Content}

theorem ofProperties {properties : Properties} (stay : properties.Stay allowed) :
    Content.Stays allowed { properties } where
  properties := stay
  text _ found := by cases found
  cdata _ _ found := by cases found

theorem addText (stays : content.Stays allowed) (text : String) (there : allowed place) :
    (content.addText text place).Stays allowed := by
  refine ⟨stays.properties, fun other found => ?_, stays.cdata⟩
  rcases Option.or_eq_some_iff.1 found with before | ⟨-, first⟩
  · exact stays.text other before
  · exact Option.some.inj first ▸ there

theorem addCData (stays : content.Stays allowed) (body : String) (there : allowed place) :
    (content.addCData body place).Stays allowed := by
  unfold Content.addCData
  cases found : content.cdata? with
  | none =>
    refine ⟨stays.properties, stays.text, ?_⟩
    rintro _ _ ⟨⟩
    exact there
  | some earlier =>
    refine ⟨stays.properties, stays.text, ?_⟩
    rintro _ _ ⟨⟩
    exact stays.cdata _ _ found

theorem finish (stays : content.Stays allowed) (there : allowed place) : (content.finish place).Stay allowed := by
  have text : allowed (content.textPosition?.getD place) := by
    cases found : content.textPosition? with
    | none => exact there
    | some first => exact stays.text first found
  have trimmed : Properties.Stay allowed (if trimSpace content.text = "" then content.properties
      else content.properties.put textKey
        (.literal (unescape (trimSpace content.text)) (content.textPosition?.getD place))) := by
    split
    · exact stays.properties
    · exact stays.properties.put _ _ text
  unfold Content.finish
  cases found : content.cdata? with
  | none => exact trimmed
  | some body => exact trimmed.put _ _ (stays.cdata _ _ found)

end Content.Stays

namespace Parse

/-- Which states of two parsers go together, and how they may be refused. -/
structure Lockstep (σ ρ : Type) where
  Related : Parsing σ → Parsing ρ → Prop
  /-- The places of tokens. -/
  Allowed : Position → Prop
  /-- The errors for which both are refused. -/
  Shared : Error → Prop
  /-- The errors for which the first is refused, whatever becomes of the second. -/
  Spoilt : Error → Prop
  same : Related p q → p.tokens.tokens = q.tokens.tokens
  behind : Related p q → list <:+ p.tokens.tokens → Related (p.withTokens list) (q.withTokens list)
  reads : Related p q → p.tokens.current = .ok token → q.tokens.current = .ok token ∧ Allowed token.position
  unread : Related p q → p.tokens.current = .error e → Spoilt e ∨ q.tokens.current = .error e ∧ Shared e
  faults : (Error.malformed fault place).leavesOpen = false → Allowed place → Shared (.malformed fault place)
  /-- Behind the start of a section stands the rest of it, unless every fault is allowed. -/
  entered : Related p q → p.tokens.current = .ok token → token.kind = Section.startKind sec →
    Tokens.current ⟨p.tokens.tokens.tail, p.tokens.last⟩ = .ok next →
    (∃ body place closing rest,
      p.tokens.tokens.tail = bodyTokens sec body place ++ ⟨sec.endKind, sec.terminator, closing⟩ :: rest) ∨
    ∀ fault place, Allowed place → Shared (.malformed fault place)

namespace Lockstep
variable {σ ρ : Type} (l : Lockstep σ ρ)

/-- Two supplies that hand out the same, at allowed places, and leave the states together. -/
structure Supplied (supply : Supply σ) (supply' : Supply ρ) : Prop where
  properties : l.Related p q → ∃ properties spare spare', supply.takeProperties p.spare = (properties, spare) ∧
    supply'.takeProperties q.spare = (properties, spare') ∧ properties.Stay l.Allowed ∧
    l.Related { p with spare } { q with spare := spare' }
  items : l.Related p q → ∃ items spare spare', supply.takeItems p.spare = (items, spare) ∧
    supply'.takeItems q.spare = (items, spare') ∧ (∀ item ∈ items, item.Stays l.Allowed) ∧
    l.Related { p with spare } { q with spare := spare' }

/-- What two steps come to: the same, which is good, the same error, or an error of the first alone. -/
inductive Outcome (good : α → Prop) :
    EStateM.Result Error (Parsing σ) α → EStateM.Result Error (Parsing ρ) α → Prop where
  | together (holds : good a) (related : l.Related p q) : Outcome good (.ok a p) (.ok a q)
  | refused (shared : l.Shared e) (related : l.Related p q) : Outcome good (.error e p) (.error e q)
  | spoilt (spoilt : l.Spoilt e) : Outcome good (.error e p) result

/-- Two steps that stay together from any states that do. -/
def Runs (good : α → Prop) (x : Parse σ α) (y : Parse ρ α) : Prop :=
  ∀ p q, l.Related p q → l.Outcome good (x p) (y q)

/-- Two steps that stay together where a given token is current. -/
def RunsAt (token : Token) (good : α → Prop) (x : Parse σ α) (y : Parse ρ α) : Prop :=
  ∀ p q, l.Related p q → p.tokens.current = .ok token → l.Outcome good (x p) (y q)

/-- Anything is good that names no place. -/
abbrev Any {α : Type} (_ : α) : Prop := True

variable {l}

theorem Outcome.bind {x : Parse σ α} {y : Parse ρ α} {f : α → Parse σ β} {g : α → Parse ρ β} {good : α → Prop}
    {good' : β → Prop} (first : l.Outcome good (x p) (y q))
    (rest : ∀ a p' q', x p = .ok a p' → good a → l.Related p' q' → l.Outcome good' (f a p') (g a q')) :
    l.Outcome good' ((x >>= f) p) ((y >>= g) q) := by
  cases ran : x p with
  | ok a p' =>
    rw [bind_of ran]
    rw [ran] at first
    generalize ran' : y q = result at first
    cases first with
    | together holds related =>
      rw [bind_of ran']
      exact rest a p' _ ran holds related
  | error e p' =>
    rw [bind_stopped ran]
    rw [ran] at first
    generalize ran' : y q = result at first
    cases first with
    | refused shared related =>
      rw [bind_stopped ran']
      exact .refused shared related
    | spoilt spoilt => exact .spoilt spoilt

theorem Outcome.discard {x : Parse σ α} {y : Parse ρ α} {good : α → Prop} (outcome : l.Outcome good (x p) (y q)) :
    l.Outcome Any (discard x p) (discard y q) := by
  rw [discard_eq, discard_eq]
  exact outcome.bind fun _ _ _ _ _ related => .together trivial related

theorem Runs.known {x : Parse σ α} {y : Parse ρ α} {good : α → Prop} (runs : l.Runs good x y) :
    l.RunsAt token good x y :=
  fun p q related _ => runs p q related

theorem RunsAt.bind {x : Parse σ α} {y : Parse ρ α} {f : α → Parse σ β} {g : α → Parse ρ β} {good : α → Prop}
    {good' : β → Prop} (first : l.RunsAt token good x y) (rest : ∀ a, good a → l.Runs good' (f a) (g a)) :
    l.RunsAt token good' (x >>= f) (y >>= g) :=
  fun p q related read => (first p q related read).bind fun a p' q' _ holds related => rest a holds p' q' related

namespace Runs

theorem pure {good : α → Prop} {a : α} (holds : good a) : l.Runs good (pure a) (pure a) :=
  fun _ _ related => .together holds related

theorem bind {x : Parse σ α} {y : Parse ρ α} {f : α → Parse σ β} {g : α → Parse ρ β} {good : α → Prop}
    {good' : β → Prop} (first : l.Runs good x y) (rest : ∀ a, good a → l.Runs good' (f a) (g a)) :
    l.Runs good' (x >>= f) (y >>= g) :=
  fun p q related => (first p q related).bind fun a p' q' _ holds related => rest a holds p' q' related

theorem discard {x : Parse σ α} {y : Parse ρ α} {good : α → Prop} (runs : l.Runs good x y) :
    l.Runs Any (discard x) (discard y) :=
  fun p q related => (runs p q related).discard

theorem ite {c : Prop} [Decidable c] {x x' : Parse σ α} {y y' : Parse ρ α} {good : α → Prop} (yes : l.Runs good x y)
    (no : l.Runs good x' y') : l.Runs good (if c then x else x') (if c then y else y') := by
  split
  · exact yes
  · exact no

/-- What is done before a step goes on where a condition holds. -/
theorem firstIf {c : Prop} [Decidable c] {stop : Parse σ Unit} {stop' : Parse ρ Unit} {next : Unit → Parse σ α}
    {next' : Unit → Parse ρ α} {good : α → Prop} (stops : l.Runs Any stop stop')
    (rest : l.Runs good (next ()) (next' ())) :
    l.Runs good (if c then stop >>= next else next ()) (if c then stop' >>= next' else next' ()) :=
  ite (bind stops fun _ _ => rest) rest

theorem current : l.Runs (fun token => l.Allowed token.position) current current := by
  intro p q related
  cases read : p.tokens.current with
  | ok token =>
    obtain ⟨read', there⟩ := l.reads related read
    rw [current_ok.2 ⟨read, rfl⟩, current_ok.2 ⟨read', rfl⟩]
    exact .together there related
  | error e =>
    rw [current_error read]
    obtain spoilt | ⟨read', shared⟩ := l.unread related read
    · exact .spoilt spoilt
    · rw [current_error read']
      exact .refused shared related

/-- What goes on from the current token may know it. -/
theorem look {f : Token → Parse σ α} {g : Token → Parse ρ α} {good : α → Prop}
    (rest : ∀ token, l.Allowed token.position → l.RunsAt token good (f token) (g token)) :
    l.Runs good (Parse.current >>= f) (Parse.current >>= g) := by
  intro p q related
  refine (current p q related).bind fun token p' q' ran there related => ?_
  obtain ⟨read, rfl⟩ := current_ok.1 ran
  exact rest token there _ _ related read

/-- What goes on from the tokens that are left goes on from the same. -/
theorem remaining {f : List Token → Parse σ α} {g : List Token → Parse ρ α} {good : α → Prop}
    (rest : ∀ p q, l.Related p q → l.Outcome good (f p.tokens.tokens p) (g p.tokens.tokens q)) :
    l.Runs good (Parse.remaining >>= f) (Parse.remaining >>= g) := by
  intro p q related
  rw [bind_of (remaining_ok p), bind_of (remaining_ok q), ← l.same related]
  exact rest p q related

theorem moveTo (related : l.Related p q) (suffix : list <:+ p.tokens.tokens) :
    l.Outcome Any (moveTo list p) (moveTo list q) := by
  rw [moveTo_eq, moveTo_eq]
  exact (current.discard.bind fun _ _ => pure trivial) _ _ (l.behind related suffix)

theorem failAt {good : α → Prop} (shared : l.Allowed place → l.Shared (.malformed fault place))
    (there : l.Allowed place) : l.Runs good (failAt fault place) (failAt fault place) :=
  fun _ _ related => .refused (shared there) related

theorem fail {good : α → Prop} (shared : ∀ {place}, l.Allowed place → l.Shared (.malformed fault place)) :
    l.Runs good (fail fault) (fail fault) :=
  bind current fun _ there => failAt shared there

theorem unexpected {good : α → Prop}
    (shared : ∀ {found place}, l.Allowed place → l.Shared (.malformed (.unexpectedToken expected found) place)) :
    l.Runs good (unexpected expected) (unexpected expected) :=
  bind current fun _ there => failAt shared there

theorem advance : l.Runs (fun token => l.Allowed token.position) advance advance :=
  bind current fun _ there => remaining fun _ _ related =>
    (moveTo related (List.tail_suffix _)).bind fun _ _ _ _ _ related => .together there related

theorem expect
    (shared : ∀ {found place}, l.Allowed place → l.Shared (.malformed (.unexpectedToken (.token kind) found) place)) :
    l.Runs (fun token => l.Allowed token.position) (expect kind) (expect kind) :=
  bind current fun _ _ => ite advance (unexpected shared)

theorem skipBlankText : l.Runs Any skipBlankText skipBlankText :=
  remaining fun _ _ related => moveTo related (List.dropWhile_suffix _)

end Runs

namespace RunsAt

/-- Behind the start of a section stands the rest of it, wherever both go on from there, or every fault is allowed. -/
theorem enter {f : Unit → Parse σ α} {g : Unit → Parse ρ α} {good : α → Prop} (sec : Section)
    (starts : token.kind = sec.startKind)
    (rest : ∀ p q, l.Related p q → (∃ body place closing rest,
        p.tokens.tokens = bodyTokens sec body place ++ ⟨sec.endKind, sec.terminator, closing⟩ :: rest) ∨
        (∀ fault place, l.Allowed place → l.Shared (.malformed fault place)) →
      l.Outcome good (f () p) (g () q)) :
    l.RunsAt token good (discard advance >>= f) (discard advance >>= g) := by
  intro p q related read
  refine (Runs.advance.discard p q related).bind fun _ p' q' ran _ after => ?_
  obtain ⟨_, ran⟩ := discard_ok.1 ran
  obtain ⟨-, rfl, next, left⟩ := advance_ok.1 ran
  exact rest _ _ after (l.entered related read starts left)

theorem skipSection (sec : Section) (starts : token.kind = sec.startKind) :
    l.RunsAt token Any (skipSection sec.endKind) (skipSection sec.endKind) := by
  refine enter sec starts fun p q related behind => ?_
  rw [bind_of (remaining_ok p), bind_of (remaining_ok q), ← l.same related]
  have suffix := List.dropWhile_suffix (l := p.tokens.tokens) fun token => token.kind ≠ sec.endKind
  cases found : p.tokens.tokens.dropWhile fun token => token.kind ≠ sec.endKind with
  | cons token rest => exact Runs.moveTo related ((List.suffix_cons _ _).trans (found ▸ suffix))
  | nil =>
    obtain ⟨body, place, closing, rest, split⟩ | shared := behind
    · -- The end of the section is not missed.
      rw [split, dropWhile_body] at found
      cases found
    · exact (Runs.moveTo related (List.nil_suffix)).bind fun _ p' q' _ _ related =>
        Runs.fail (shared _ _) p' q' related

/-- A token of the kind that is expected. -/
theorem expected (same : token.kind = kind) :
    l.RunsAt token (fun token => l.Allowed token.position) (expect kind) (expect kind) := by
  intro p q related read
  unfold Parse.expect
  rw [bind_of (current_ok.2 ⟨read, rfl⟩), bind_of (current_ok.2 ⟨(l.reads related read).1, rfl⟩), if_pos same,
    if_pos same]
  exact Runs.advance p q related

/-- Where the end of a character section is expected, it stands. -/
theorem cdata {f : List Token → Parse σ α} {g : List Token → Parse ρ α} {good : α → Prop}
    (starts : token.kind = .cdataStart) (rest : ∀ list, l.Runs good (f list) (g list)) :
    l.RunsAt token good
      (discard advance >>= fun _ => remaining >>= fun list => remaining >>= fun list' =>
        moveTo (list'.drop (list.takeWhile fun token => token.kind = .cdataContent).length) >>= fun _ =>
          discard (expect .cdataEnd) >>= fun _ => f list)
      (discard advance >>= fun _ => remaining >>= fun list => remaining >>= fun list' =>
        moveTo (list'.drop (list.takeWhile fun token => token.kind = .cdataContent).length) >>= fun _ =>
          discard (expect .cdataEnd) >>= fun _ => g list) := by
  refine enter .cdata starts fun p q related behind => ?_
  rw [bind_of (remaining_ok p), bind_of (remaining_ok p), bind_of (remaining_ok q), bind_of (remaining_ok q),
    ← l.same related]
  obtain ⟨body, place, closing, tail, split⟩ | shared := behind
  · rw [split, takeWhile_body, List.drop_left]
    refine (Runs.moveTo related (split ▸ List.suffix_append _ _)).bind fun _ p' q' ran _ after => ?_
    obtain ⟨rfl, -⟩ := moveTo_ok.1 ran
    exact (expected rfl _ q' after rfl).discard.bind fun _ p' q' _ _ related => rest _ p' q' related
  · refine (Runs.moveTo related (List.drop_suffix _ _)).bind fun _ p' q' _ _ after => ?_
    exact (Runs.bind (Runs.expect (shared _ _)).discard fun _ _ => rest _) p' q' after

end RunsAt

namespace Runs

theorem skipMisc (fuel : Nat) : l.Runs Any (skipMisc fuel) (skipMisc fuel) := by
  induction fuel with
  | zero => exact pure trivial
  | succ fuel ih =>
    refine look fun token _ => ?_
    split
    · exact (bind advance.discard fun _ _ => ih).known
    · split
      · rename_i starts
        exact (RunsAt.skipSection .comment starts).bind fun _ _ => ih
      · exact (pure trivial).known

theorem readAttribute {properties : Properties} (stay : properties.Stay l.Allowed) :
    l.Runs (Properties.Stay l.Allowed) (readAttribute properties) (readAttribute properties) := by
  refine bind advance fun name _ => bind current fun _ _ => firstIf (fail (l.faults rfl)) ?_
  refine bind advance.discard fun _ _ => bind current fun token there => firstIf (fail (l.faults rfl)) ?_
  exact firstIf (fail (l.faults rfl)) (bind advance.discard fun _ _ => pure (stay.put _ _ there))

theorem restOfTag (fuel : Nat) {properties : Properties} (stay : properties.Stay l.Allowed) :
    l.Runs (fun tag => tag.1.Stay l.Allowed) (restOfTag fuel properties) (restOfTag fuel properties) := by
  induction fuel generalizing properties with
  | zero => exact unexpected (l.faults rfl)
  | succ fuel ih =>
    unfold Parse.restOfTag
    refine bind current fun token _ => ?_
    cases token.kind with
    | name => exact bind (readAttribute stay) fun _ stay => ih stay
    | selfClose | tagClose => exact bind advance.discard fun _ _ => pure stay
    | _ => exact unexpected (l.faults rfl)

variable {supply : Supply σ} {supply' : Supply ρ} (supplied : l.Supplied supply supply')
include supplied

theorem newProperties : l.Runs (Properties.Stay l.Allowed) (newProperties supply) (newProperties supply') := by
  intro p q related
  obtain ⟨properties, spare, spare', taken, taken', stay, after⟩ := supplied.properties related
  show l.Outcome _ (.ok (supply.takeProperties p.spare).1 { p with spare := (supply.takeProperties p.spare).2 })
    (.ok (supply'.takeProperties q.spare).1 { q with spare := (supply'.takeProperties q.spare).2 })
  rw [taken, taken']
  exact .together stay after

theorem newItems :
    l.Runs (fun items => ∀ item ∈ items, item.Stays l.Allowed) (newItems supply) (newItems supply') := by
  intro p q related
  obtain ⟨items, spare, spare', taken, taken', stay, after⟩ := supplied.items related
  show l.Outcome _ (.ok (supply.takeItems p.spare).1 { p with spare := (supply.takeItems p.spare).2 })
    (.ok (supply'.takeItems q.spare).1 { q with spare := (supply'.takeItems q.spare).2 })
  rw [taken, taken']
  exact .together stay after

theorem addChild {properties : Properties} (stay : properties.Stay l.Allowed) (name : String) {child : Node}
    (stays : child.Stays l.Allowed) : l.Runs (Properties.Stay l.Allowed) (addChild supply properties name child)
      (addChild supply' properties name child) := by
  have insert (spare : List Node) (spares : ∀ item ∈ spare, item.Stays l.Allowed) :
      Properties.Stay l.Allowed (properties.insertWith (Node.coalesce spare) name child) :=
    stay.insertWith (fun old => .coalesce spares old stays) stays name
  unfold Parse.addChild
  cases properties.get? name with
  | none => exact bind (pure (List.forall_mem_nil _)) fun spare spares => pure (insert spare spares)
  | some node =>
    cases node with
    | array => exact bind (pure (List.forall_mem_nil _)) fun spare spares => pure (insert spare spares)
    | object | literal => exact bind (newItems supplied) fun spare spares => pure (insert spare spares)

theorem content {child : Parse σ (String × Node)} {child' : Parse ρ (String × Node)}
    (reads : l.Runs (fun made => made.2.Stays l.Allowed) child child') (name : String) (fuel : Nat) {soFar : Content}
    (stays : soFar.Stays l.Allowed) :
    l.Runs (Content.Stays l.Allowed) (content supply child name fuel soFar)
      (content supply' child' name fuel soFar) := by
  induction fuel generalizing soFar with
  | zero => exact fail (l.faults rfl)
  | succ fuel ih =>
    unfold Parse.content
    refine look fun token there => ?_
    cases kind : token.kind with
    | endTagOpen => exact (pure stays).known
    | text | name => exact (bind advance.discard fun _ _ => ih (stays.addText _ there)).known
    | cdataStart => exact RunsAt.cdata kind fun _ => ih (stays.addCData _ there)
    | commentStart => exact (RunsAt.skipSection .comment kind).bind fun _ _ => ih stays
    | tagOpen =>
      refine (bind reads fun made inner => bind (addChild supplied stays.properties _ inner) fun _ stay => ih ?_).known
      exact ⟨stay, stays.text, stays.cdata⟩
    | _ => exact (fail (l.faults rfl)).known

theorem element (parts levels : Nat) :
    l.Runs (fun made => made.2.Stays l.Allowed) (element supply parts levels) (element supply' parts levels) := by
  induction levels with
  | zero =>
    exact bind current fun _ there => bind (expect (l.faults rfl)).discard fun _ _ => failAt (l.faults rfl) there
  | succ levels ih =>
    unfold Parse.element
    refine bind current fun start there => bind (expect (l.faults rfl)).discard fun _ _ => bind current fun _ _ => ?_
    refine firstIf (fail (l.faults rfl)) (bind advance fun _ _ => bind (newProperties supplied) fun _ begins => ?_)
    refine bind (restOfTag parts begins) fun tag stay => ite (pure (Node.Stays.object_iff.2 ⟨there, stay⟩)) ?_
    refine bind (content supplied ih _ _ (.ofProperties stay)) fun inside stays => ?_
    refine bind (expect (l.faults rfl)).discard fun _ _ => bind current fun _ _ => firstIf (fail (l.faults rfl)) ?_
    refine bind advance fun close closing => firstIf (failAt (l.faults rfl) closing) ?_
    refine bind (expect (l.faults rfl)).discard fun _ _ => pure ?_
    exact Node.Stays.object_iff.2 ⟨there, stays.finish there⟩

/-- Behind the prolog. -/
theorem fromRoot (parts : Nat) : l.Runs (Node.Stays l.Allowed) (fromRoot supply parts) (fromRoot supply' parts) := by
  refine bind (element supplied _ _) fun made stays => bind (skipMisc _) fun _ _ => bind current fun _ there => ?_
  exact firstIf (failAt (l.faults rfl) there) (pure stays)

/-- Both read a document, or neither does. -/
theorem document : l.Runs (Node.Stays l.Allowed) (document supply) (document supply') := by
  refine remaining fun p q related => ?_
  refine bind current.discard (fun _ _ => bind skipBlankText fun _ _ => look fun token _ => ?_) p q related
  split
  · rename_i starts
    refine (RunsAt.skipSection .declaration starts).bind fun _ _ => ?_
    exact bind (skipMisc _) fun _ _ => fromRoot supplied _
  · exact (bind (skipMisc _) fun _ _ => fromRoot supplied _).known

end Runs
end Lockstep
end Parse

end XmlBinding
