import Mathlib.Order.Bounds.Basic
import XmlBinding.Proofs.Quoting
import XmlBinding.Proofs.Reading
import XmlBinding.Proofs.Standing

/-! Where names are recognised. A name is measured on bytes as they arrive, with a guess at the width of every
character outside ASCII; what is measured is the longest text ahead that is a name, on every input and however it is
delivered. So the check of a name on its own and the readers of names all have the same names. -/
namespace XmlBinding
open Text Grammar

namespace Text

/-- The lengths of the names that some bytes begin with, and of the empty text. A name is a text of its own here:
bytes that can be decoded, and whose characters make a name. -/
def nameLengths (input : List UInt8) : Set Nat :=
  {n | ∃ front text, front <+: input ∧ front.length = n ∧ ofBytes? front = some text ∧
    (text = "" ∨ IsName text.toList)}

/-- A name that stands ahead is measured, or a longer one. -/
theorem IsName.length_le (named : IsName name) (rest : List UInt8) :
    (spell name).length ≤ nameLength (spell name ++ rest) := by
  obtain ⟨chars, rest', split, length, all, ended⟩ := nameExtent_measures true (spell name ++ rest)
  obtain ⟨begins, goesOn⟩ := named
  rw [nameLength, length]
  rcases spell_comparable split with ⟨more, rfl, -⟩ | ⟨more, same, tail⟩
  · rw [spell_append, List.length_append]
    exact Nat.le_add_right _ _
  · cases more with
    | nil => rw [same, List.append_nil]
    | cons c others =>
      -- The scan would have stopped in front of a character of the name.
      rw [spell_cons, List.append_assoc] at tail
      refine absurd ?_ (ended c _ tail)
      cases chars with
      | nil =>
        obtain ⟨rfl, -⟩ := List.cons.inj same
        exact begins
      | cons d chars =>
        obtain ⟨-, rfl⟩ := List.cons.inj same
        exact goesOn c (by simp)

/-- What is measured as a name is one. -/
theorem nameLength_named {input : List UInt8} (positive : 0 < nameLength input) :
    ∃ text, ofBytes? (input.take (nameLength input)) = some text ∧ IsName text.toList := by
  obtain ⟨name, rest, split, length, named, -⟩ := nameLength_pos positive
  refine ⟨String.ofList name, ofBytes?_eq_some_iff.2 ?_, by rwa [String.toList_ofList]⟩
  rw [bytes_ofList, length]
  conv => rhs; rw [split]
  exact List.take_left.symm

/-- The longest name ahead is measured. -/
theorem nameLength_longest (input : List UInt8) : IsGreatest (nameLengths input) (nameLength input) := by
  constructor
  · rcases Nat.eq_zero_or_pos (nameLength input) with none | positive
    · rw [none]
      exact ⟨[], "", List.nil_prefix, rfl, by decide, .inl rfl⟩
    · obtain ⟨text, read, named⟩ := nameLength_named positive
      refine ⟨_, text, List.take_prefix _ input, List.length_take_of_le ?_, read, .inr named⟩
      exact Scan.nameLength_regular.within input
  · rintro _ ⟨_, text, ⟨rest, rfl⟩, rfl, read, rfl | named⟩
    · rw [← ofBytes?_eq_some_iff.1 read, bytes_empty]
      exact Nat.zero_le _
    · rw [← ofBytes?_eq_some_iff.1 read, bytes_eq_spell]
      exact named.length_le rest

end Text

/-- With a mark set every stream holds what it will read back. -/
theorem Stream.setMark_stands (s : Stream) : s.setMark.Stands s.position.offset 0 ⟨s.position, s.rest⟩ := by
  have nothing : s.setMark.offset - s.position.offset = 0 := Nat.sub_self _
  exact ⟨rfl, rfl, Nat.le_refl _, Nat.le_refl _, Nat.le_trans (Nat.le_of_eq nothing) (Nat.zero_le _), Nat.zero_le _⟩

namespace Lexer
variable {s : Stream}

/-- What is measured and cut off as a name is one on its own. -/
theorem take_named (here : s.Stands c.place.offset ready c) (positive : 0 < (s.run .nameLength).1)
    (given : (take ⟨(s.run .nameLength).2, k⟩ .name (s.run .nameLength).1).1 = .ok token) :
    isName token.lexeme = true := by
  obtain ⟨s', ran, there⟩ := here.run Scan.nameLength_regular
  rw [ran] at positive given
  obtain ⟨name, read, named⟩ := nameLength_named positive
  change (take ⟨s', k⟩ .name (nameLength c.ahead)).1 = _ at given
  rw [take_eq there (Nat.le_max_right ready (nameLength c.ahead)), read] at given
  cases given
  exact isName_iff.2 named

theorem take_kind {lexer : Lexer} (taken : (lexer.take kind n).1 = .ok token) : token.kind = kind := by
  unfold take at taken
  dsimp only at taken
  cases read : (lexer.input.advance n).textFrom lexer.input.position.offset with
  | error error =>
    rw [read] at taken
    cases taken
  | ok lexeme =>
    rw [read] at taken
    cases taken
    rfl

theorem finish_kind {lexer : Lexer} (given : lexer.finish.1 = .ok token) : token.kind = .endOfInput := by
  unfold finish at given
  split at given
  · cases given
  · cases given
    rfl

theorem openSection_unnamed {lexer : Lexer} (given : (lexer.openSection sec).1 = .ok token) : token.kind ≠ .name := by
  unfold openSection at given
  dsimp only at given
  split at given
  · cases given
    cases sec <;> exact TokenKind.noConfusion
  · split at given <;> cases given

/-- Between tags there are no names. -/
theorem inContent_unnamed {lexer : Lexer} (given : lexer.inContent.1 = .ok token) : token.kind ≠ .name := by
  unfold inContent at given
  dsimp only at given
  split at given
  · rw [finish_kind given]
    exact TokenKind.noConfusion
  split at given
  · exact openSection_unnamed given
  split at given
  · cases given
    exact TokenKind.noConfusion
  split at given
  · cases given
    exact TokenKind.noConfusion
  · rw [take_kind given]
    exact TokenKind.noConfusion

/-- Neither are there in a section. -/
theorem inSection_unnamed {lexer : Lexer} (given : (lexer.inSection sec).1 = .ok token) : token.kind ≠ .name := by
  unfold inSection at given
  dsimp only at given
  split at given
  · cases given
    cases sec <;> exact TokenKind.noConfusion
  · split at given
    · rw [take_kind given]
      cases sec <;> exact TokenKind.noConfusion
    · cases given

/-- A name in a tag is one on its own. -/
theorem inTag_named {lexer : Lexer} (given : lexer.inTag.1 = .ok token) (named : token.kind = .name) :
    isName token.lexeme = true := by
  obtain ⟨s₁, ran, there⟩ := lexer.input.setMark_stands.peek
  unfold inTag at given
  dsimp only at given
  rw [ran] at given
  cases begins : lexer.input.rest with
  | nil =>
    rw [begins] at given
    rw [finish_kind given] at named
    cases named
  | cons b rest =>
    obtain ⟨found, s₂, ran, there⟩ := eatFixed_stands there tagTokens
    rw [begins] at given
    dsimp only [List.head?_cons] at given
    rw [ran] at given
    cases found with
    | some entry =>
      have fixed : ∀ entry ∈ tagTokens, entry.2.1 ≠ .name := by decide
      cases given
      exact absurd named (fixed entry there.1)
    | none =>
      dsimp only at given there
      cases quote : isQuote b with
      | true =>
        rw [quote, if_pos rfl] at given
        split at given <;> rw [take_kind given] at named <;> cases named
      | false =>
        rw [quote, if_neg Bool.false_ne_true] at given
        split at given
        · exact take_named (c := ⟨lexer.input.position, lexer.input.rest⟩) there ‹_› given
        · rw [take_kind given] at named
          cases named

/-- A lexer gives names that are names on their own, wherever it stands. -/
theorem next_named {lexer : Lexer} (given : lexer.next.1 = .ok token) (named : token.kind = .name) :
    isName token.lexeme = true := by
  obtain ⟨s, k⟩ := lexer
  unfold next at given
  cases k with
  | content => exact absurd named (inContent_unnamed given)
  | inside sec => exact absurd named (inSection_unnamed given)
  | done => rw [finish_kind given] at named; cases named
  | tag => exact inTag_named given named
  | tagStart =>
    dsimp only at given
    split at given
    · exact take_named s.setMark_stands (c := ⟨s.position, s.rest⟩) ‹_› given
    · exact inTag_named given named

end Lexer

/-- The reader that makes no tokens reads names that are names on their own. -/
theorem Reading.name_named {name : String} (ran : Reading.name missing s = .ok (name, s')) : isName name = true := by
  obtain ⟨s₁, scanned, there⟩ := s.setMark_stands.run Scan.nameLength_regular
  unfold Reading.name at ran
  rw [bind_of (mark_ok s), bind_of (congrArg Except.ok scanned : ask .nameLength s.setMark = .ok (_, s₁))] at ran
  split at ran
  · obtain ⟨_, _, failed, -⟩ := bind_ok.1 ran
    exact absurd failed fail_ne
  · rename_i some
    obtain ⟨text, read, named⟩ := nameLength_named (Nat.pos_of_ne_zero some)
    have held := there.bytesFrom (c := ⟨s.position, s.rest⟩) (Nat.le_max_right 0 (nameLength s.rest))
    have given : (s₁.advance (nameLength s.rest)).textFrom s.position.offset = .ok text := by
      rw [Stream.textFrom, held, read]
    dsimp only at ran
    rw [bind_of (advance_ok _ _)] at ran
    change ((s₁.advance (nameLength s.rest)).textFrom s.position.offset).map _ = _ at ran
    rw [given] at ran
    cases ran
    exact isName_iff.2 named

/-- Names are the same wherever they are read. On every input and every delivery of it the length of the name ahead is
that of the longest prefix that is a name or empty; a text passes the check of names exactly if all of it is a name;
and every name that a reader gives passes that check, whatever state the reader is in. -/
theorem names_recognised :
    (∀ s : Stream, IsGreatest (nameLengths s.rest) (s.run .nameLength).1) ∧
      (∀ text, isName text = true ↔ IsName text.toList) ∧
      (∀ (lexer : Lexer) token, lexer.next.1 = .ok token → token.kind = .name → isName token.lexeme = true) ∧
      ∀ missing s name s', Reading.name missing s = .ok (name, s') → isName name = true :=
  ⟨fun s => (Stream.run_rest Scan.nameLength_settled s).symm ▸ nameLength_longest s.rest, fun _ => isName_iff,
    fun _ _ => Lexer.next_named, fun _ _ _ _ => Reading.name_named⟩

/-- A name with a letter of two bytes, each of which arrives on its own between interruptions. It ends at a byte that
would begin another such letter and has none behind it. -/
theorem names_recognised_piecewise :
    ({ input := .ofSource (.inPieces 0 true [0xC3, 0xA9, 0x32, 0xC3] .endOfInput), context := .tagStart } :
        Lexer).next.1 = .ok ⟨.name, "é2", .start⟩ ∧
      isName "é2" = true ∧
      IsGreatest (nameLengths [0xC3, 0xA9, 0x32, 0xC3]) 3 := by
  have given : ({ input := .ofSource (.inPieces 0 true [0xC3, 0xA9, 0x32, 0xC3] .endOfInput), context := .tagStart } :
      Lexer).next.1 = .ok ⟨.name, "é2", .start⟩ := by rfl
  exact ⟨given, names_recognised.2.2.1 _ _ given rfl,
    names_recognised.1 (.ofSource (.inPieces 0 true [0xC3, 0xA9, 0x32, 0xC3] .endOfInput))⟩

end XmlBinding
