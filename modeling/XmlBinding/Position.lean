import XmlBinding.Text.Utf8

/-! Places in the input. A position counts bytes from the start, lines from one and, within a line,
characters from one. It moves over any number of bytes at once. -/
namespace XmlBinding

structure Position where
  offset : Nat := 0
  row : Nat := 1
  column : Nat := 1
deriving DecidableEq, Repr, Inhabited

namespace Position

/-- The place before the first byte. -/
def start : Position := {}

/-- The number of characters that begin in some bytes. -/
def columns (bytes : List UInt8) : Nat :=
  bytes.countP fun b => !Text.isContinuation b

/-- The bytes behind the last line feed, all of them if there is none. -/
def lastLine (bytes : List UInt8) : List UInt8 :=
  (bytes.reverse.takeWhile (· != 0x0A)).reverse

/-- The place after some more bytes. If a line begins in them, columns are counted from there. -/
def advance (place : Position) (bytes : List UInt8) : Position :=
  if 0x0A ∈ bytes then
    ⟨place.offset + bytes.length, place.row + bytes.count 0x0A, 1 + columns (lastLine bytes)⟩
  else ⟨place.offset + bytes.length, place.row, place.column + columns bytes⟩

def describe (place : Position) : String :=
  .join ["offset ", toString place.offset, ", line ", toString place.row, ", column ",
    toString place.column]

theorem columns_append (first second : List UInt8) : columns (first ++ second) = columns first + columns second :=
  List.countP_append

/-- The last line of some bytes goes on in bytes without a line feed. -/
theorem lastLine_append_of_not_mem (first : List UInt8) {second : List UInt8} (none : 0x0A ∉ second) :
    lastLine (first ++ second) = lastLine first ++ second := by
  have all : ∀ b ∈ second.reverse, (b != 0x0A) = true := fun b member =>
    bne_iff_ne.2 fun same => none (same ▸ List.mem_reverse.1 member)
  rw [lastLine, List.reverse_append, List.takeWhile_append_of_pos all, List.reverse_append, List.reverse_reverse]
  rfl

theorem lastLine_of_not_mem {bytes : List UInt8} (none : 0x0A ∉ bytes) : lastLine bytes = bytes :=
  lastLine_append_of_not_mem [] none

/-- A line that begins in the bytes behind others has nothing to do with these. -/
theorem lastLine_append_of_mem (first : List UInt8) {second : List UInt8} (some : 0x0A ∈ second) :
    lastLine (first ++ second) = lastLine second := by
  have stops : (second.reverse.takeWhile (· != 0x0A)).length ≠ second.reverse.length := by
    intro all
    have same := (List.takeWhile_prefix (· != 0x0A)).eq_of_length all
    have found : 0x0A ∈ second.reverse.takeWhile (· != 0x0A) := by rwa [same, List.mem_reverse]
    have other := List.all_eq_true.1 (List.all_takeWhile ..) 0x0A found
    exact absurd other (by decide)
  rw [lastLine, List.reverse_append, List.takeWhile_append, if_neg stops]
  rfl

@[simp] theorem advance_nil (place : Position) : place.advance [] = place := rfl

theorem advance_offset (place : Position) (bytes : List UInt8) :
    (place.advance bytes).offset = place.offset + bytes.length := by
  unfold advance
  split <;> rfl

/-- It makes no difference in which steps some bytes are passed. -/
theorem advance_append (place : Position) (first second : List UInt8) :
    place.advance (first ++ second) = (place.advance first).advance second := by
  unfold advance
  by_cases later : 0x0A ∈ second
  · by_cases earlier : 0x0A ∈ first
    · simp [later, earlier, lastLine_append_of_mem, Nat.add_assoc]
    · simp [later, earlier, lastLine_append_of_mem, Nat.add_assoc, List.count_eq_zero_of_not_mem]
  · by_cases earlier : 0x0A ∈ first
    · simp [later, earlier, lastLine_append_of_not_mem, columns_append, Nat.add_assoc,
        List.count_eq_zero_of_not_mem]
    · simp [later, earlier, columns_append, Nat.add_assoc]

end Position

end XmlBinding
