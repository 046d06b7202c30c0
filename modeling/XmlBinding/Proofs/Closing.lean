import Mathlib.Order.Bounds.Basic
import XmlBinding.Proofs.Quoting

/-! Where a quoted string ends. A scan that looks at one byte after the other, and skips the byte after each
backslash, ends the string at the first quote it looks at. The length of a quoted string is measured in rounds, each
over the bytes that have been read, and is the same as that of this scan for every input and every delivery of it. -/
namespace XmlBinding
open Text

namespace Scan

/-- The indices at which the scan of a quoted string looks, from the one after the opening quote on: next to a byte
it looks at the byte behind it, or the one behind that if this byte is a backslash. -/
inductive Visits (input : List UInt8) : Nat → Prop where
  | first : Visits input 1
  | plain (visited : Visits input i) (here : input[i]? = some b) (unescaped : b ≠ 0x5C) : Visits input (i + 1)
  | escape (visited : Visits input i) (here : input[i]? = some 0x5C) : Visits input (i + 2)

namespace Visits

theorem positive (visited : Visits input i) : 1 ≤ i := by
  induction visited with
  | first => exact Nat.le_refl 1
  | plain => exact Nat.le_add_left 1 _
  | escape => exact Nat.le_add_left 1 _

/-- The byte after a backslash is not looked at, since the scan comes to it in no other way. -/
theorem skips {i : Nat} (visited : Visits input i) (here : input[i]? = some 0x5C) : ¬ Visits input (i + 1) := by
  induction i using Nat.strong_induction_on with
  | _ i ih =>
    intro skipped
    generalize same : i + 1 = next at skipped
    cases skipped with
    | first =>
      have := visited.positive
      omega
    | plain earlier there unescaped =>
      obtain rfl := Nat.add_right_cancel same
      exact unescaped (Option.some.inj (there.symm.trans here))
    | @escape j earlier there =>
      have above : i = j + 1 := Nat.add_right_cancel same
      exact ih j (by omega) earlier there (above ▸ visited)

end Visits

/-- Where the scan meets a quote from an index on. -/
def meetings (quote : UInt8) (input : List UInt8) (start : Nat) : Set Nat :=
  {i | start ≤ i ∧ Visits input i ∧ input[i]? = some quote}

/-- Past the end there is nothing to meet. -/
theorem meetings_end (reached : input.length ≤ i) : meetings quote input i = ∅ := by
  refine Set.eq_empty_of_forall_notMem fun j ⟨above, _, met⟩ => ?_
  exact Nat.not_lt.2 (Nat.le_trans reached above) (List.getElem?_eq_some_iff.1 met).1

/-- A byte other than the quote is no meeting. -/
theorem meetings_succ (other : input[i]? ≠ some quote) : meetings quote input i = meetings quote input (i + 1) := by
  ext j
  refine and_congr_left fun ⟨_, met⟩ => ⟨fun above => ?_, Nat.le_of_succ_le⟩
  exact Nat.lt_of_le_of_ne above fun same => other (same ▸ met)

/-- Neither is a backslash that is looked at, nor the byte that it escapes. -/
theorem meetings_escape (visited : Visits input i) (here : input[i]? = some 0x5C) (other : 0x5C ≠ quote) :
    meetings quote input i = meetings quote input (i + 2) := by
  rw [meetings_succ fun met => other (Option.some.inj (here.symm.trans met))]
  ext j
  refine and_congr_left fun ⟨visited', _⟩ => ⟨fun above => ?_, Nat.le_of_succ_le⟩
  exact Nat.lt_of_le_of_ne above fun same => visited.skips here (same ▸ visited')

private theorem drop_eq_cons {input : List UInt8} (ahead : input.drop i = b :: rest) :
    input[i]? = some b ∧ input.drop (i + 1) = rest := by
  constructor
  · rw [← List.head?_drop, ahead, List.head?_cons]
  · rw [← List.tail_drop, ahead, List.tail_cons]

/-- How the scan ends from an index on: it first meets the quote so many bytes further, or it goes on to the end and
meets none. -/
def Ends (quote : UInt8) (input : List UInt8) (i : Nat) : Option Nat → Prop
  | some k => IsLeast (meetings quote input i) (i + k)
  | none => (∃ last, Visits input last ∧ input.length ≤ last) ∧ meetings quote input i = ∅

theorem Ends.past (visited : Visits input i) (reached : input.length ≤ i) : Ends quote input i none :=
  ⟨⟨i, visited, reached⟩, meetings_end reached⟩

/-- A stretch without a meeting only puts the end off. -/
theorem Ends.after (unmet : meetings quote input i = meetings quote input (i + n))
    (ends : Ends quote input (i + n) found) : Ends quote input i (found.map (· + n)) := by
  cases found with
  | none => exact ⟨ends.1, unmet.trans ends.2⟩
  | some k =>
    show IsLeast (meetings quote input i) (i + (k + n))
    rwa [unmet, Nat.add_comm k, ← Nat.add_assoc]

/-- The search for the closing quote finds the end of the scan, from every index that the scan looks at. -/
theorem closingQuote?_ends (visited : Visits input i) : Ends quote input i (closingQuote? quote (input.drop i)) := by
  generalize ahead : input.drop i = left
  fun_induction closingQuote? quote left generalizing i with
  | case1 => exact .past visited (List.drop_eq_nil_iff.1 ahead)
  | case2 b rest closes =>
    rw [beq_iff_eq] at closes
    obtain ⟨here, -⟩ := drop_eq_cons ahead
    exact ⟨⟨Nat.le_refl i, visited, closes ▸ here⟩, fun j met => met.1⟩
  | case3 b other escape =>
    rw [beq_iff_eq] at other escape
    obtain ⟨here, ahead⟩ := drop_eq_cons ahead
    rw [escape] at other here
    -- The backslash is the last byte, and the one it would escape is past the end.
    have reached := Nat.le_succ_of_le (List.drop_eq_nil_iff.1 ahead)
    exact (Ends.past (visited.escape here) reached).after (meetings_escape visited here other)
  | case4 b other escape next rest ih =>
    rw [beq_iff_eq] at other escape
    obtain ⟨here, ahead⟩ := drop_eq_cons ahead
    rw [escape] at other here
    exact (ih (visited.escape here) (drop_eq_cons ahead).2).after (meetings_escape visited here other)
  | case5 b rest other plain ih =>
    rw [beq_iff_eq] at other plain
    obtain ⟨here, ahead⟩ := drop_eq_cons ahead
    have unmet : input[i]? ≠ some quote := fun met => other (Option.some.inj (here.symm.trans met))
    exact (ih (visited.plain here plain) ahead).after (meetings_succ unmet)

theorem length_le_unclosedLength (input : List UInt8) : input.length ≤ unclosedLength input := by
  fun_induction unclosedLength input <;> simp only [List.length_cons, List.length_nil] <;> omega

/-- A round without an answer has passed all that has been read. -/
theorem quotedLength_passes (stopped : quotedLength.look done seen = .error further) : seen.length ≤ further := by
  cases seen with
  | nil => exact Nat.zero_le _
  | cons quote rest =>
    rw [quotedLength_look] at stopped
    split at stopped
    · cases stopped
    · cases stopped
      have passed := length_le_unclosedLength (rest.drop (done - 1))
      rw [List.length_drop] at passed
      rw [List.length_cons]
      omega

/-- What is found depends only on the bytes up to the closing quote. -/
theorem closingQuote?_take (found : closingQuote? quote input = some k) :
    closingQuote? quote (input.take (k + 1)) = some k := by
  fun_induction closingQuote? quote input generalizing k with
  | case1 => cases found
  | case2 b rest closes =>
    cases found
    rw [beq_iff_eq] at closes
    rw [closes, List.take_succ_cons, closingQuote?_here]
  | case3 => cases found
  | case4 b other escape next rest ih =>
    obtain ⟨k, inner, rfl⟩ := Option.map_eq_some_iff.1 found
    rw [beq_iff_eq] at other escape
    rw [escape] at other ⊢
    rw [List.take_succ_cons, List.take_succ_cons, closingQuote?_escape other, ih inner]
    rfl
  | case5 b rest other plain ih =>
    obtain ⟨k, inner, rfl⟩ := Option.map_eq_some_iff.1 found
    rw [beq_iff_eq] at other plain
    rw [List.take_succ_cons, closingQuote?_plain other plain, ih inner]
    rfl

theorem quotedLength?_take (found : quotedLength? input = some n) : quotedLength? (input.take n) = some n := by
  cases input with
  | nil => cases found
  | cons quote rest =>
    obtain ⟨k, inner, rfl⟩ := Option.map_eq_some_iff.1 found
    rw [List.take_succ_cons, quotedLength?, closingQuote?_take inner]
    rfl

theorem quotedLength?_append (found : quotedLength? input = some n) (more : List UInt8) :
    quotedLength? (input ++ more) = some n := by
  cases input with
  | nil => cases found
  | cons quote rest =>
    obtain ⟨k, inner, rfl⟩ := Option.map_eq_some_iff.1 found
    rw [List.cons_append, quotedLength?, closingQuote?_append inner]
    rfl

/-- The length that is measured is that of the scan, which ends at the first meeting or meets nothing. -/
theorem quotedLength?_scans (quote : UInt8) (inside : List UInt8) :
    match quotedLength? (quote :: inside) with
    | some n => IsLeast (meetings quote (quote :: inside) 1) (n - 1)
    | none => (∃ last, Visits (quote :: inside) last ∧ (quote :: inside).length ≤ last) ∧
        meetings quote (quote :: inside) 1 = ∅ := by
  have ends : Ends quote (quote :: inside) 1 (closingQuote? quote inside) := closingQuote?_ends .first
  rw [quotedLength?]
  cases found : closingQuote? quote inside with
  | some k =>
    rw [found, Ends, Nat.add_comm] at ends
    exact ends
  | none =>
    rw [found] at ends
    exact ends

end Scan

namespace Stream

/-- What the source has still to answer. -/
def unread (s : Stream) : List Read :=
  s.source.elim [] Source.reads

/-- A scan takes up answers of the source one after the other and none twice. -/
theorem run_unread (scan : Scan α) (s : Stream) : (s.run scan).2.unread <:+ s.unread := by
  have answer (ending : Ending) (reads : List Read) (done : Nat) (s : Stream) :
      (answer scan ending reads done s).2.unread <:+ reads := by
    induction reads generalizing done s with
    | nil =>
      unfold Stream.answer
      split
      · exact List.suffix_refl _
      · cases ending <;> exact List.suffix_refl _
    | cons read later ih =>
      unfold Stream.answer
      split
      · exact List.suffix_refl _
      · exact (ih _ _).trans (List.suffix_cons read later)
  unfold run
  split
  · exact List.suffix_refl _
  · rename_i source waiting
    have left : s.unread = source.reads := by rw [unread, waiting, Option.elim_some]
    exact left ▸ answer source.ending source.reads 0 s

/-- A quoted string is measured as the scan of its bytes ends it. However the input arrives, its length is one more
than the first index behind the opening quote at which the scan meets that quote, and it has none if the scan goes on
to the end. The measuring comes to an end: a round that gives no answer has passed all that was read, and only one
more of the reads that the source has left brings another. What stands behind the length found has no influence on
it. -/
theorem quotedLength_scans (s : Stream) (begins : s.rest = quote :: inside) :
    (∀ n, (s.run .quotedLength).1 = some n ↔ IsLeast (Scan.meetings quote s.rest 1) (n - 1)) ∧
      ((s.run .quotedLength).1 = none ↔
        (∃ last, Scan.Visits s.rest last ∧ s.rest.length ≤ last) ∧ Scan.meetings quote s.rest 1 = ∅) ∧
      ((∀ done seen further, Scan.quotedLength.look done seen = .error further → seen.length ≤ further) ∧
        (s.run .quotedLength).2.unread <:+ s.unread) ∧
      ∀ n (t : Stream), (s.run .quotedLength).1 = some n → t.rest.take n = s.rest.take n →
        (t.run .quotedLength).1 = some n := by
  have measured (s : Stream) : (s.run .quotedLength).1 = Scan.quotedLength? s.rest :=
    run_rest Scan.quotedLength_settled s
  have scans := Scan.quotedLength?_scans quote inside
  rw [measured, begins]
  refine ⟨fun n => ⟨fun found => ?_, fun first => ?_⟩, ⟨fun missing => ?_, fun ⟨_, unmet⟩ => ?_⟩,
    ⟨fun _ _ _ => Scan.quotedLength_passes, run_unread .quotedLength s⟩, fun n t found same => ?_⟩
  · rwa [found] at scans
  · cases found : Scan.quotedLength? (quote :: inside) with
    | none =>
      rw [found] at scans
      exact absurd first.nonempty (Set.not_nonempty_iff_eq_empty.2 scans.2)
    | some m =>
      rw [found] at scans
      have index := scans.unique first
      have := scans.1.1
      have := first.1.1
      congr 1
      omega
  · rwa [missing] at scans
  · cases found : Scan.quotedLength? (quote :: inside) with
    | none => rfl
    | some m =>
      rw [found] at scans
      exact absurd scans.nonempty (Set.not_nonempty_iff_eq_empty.2 unmet)
  · have kept := Scan.quotedLength?_append (Scan.quotedLength?_take found) (t.rest.drop n)
    rw [measured, ← List.take_append_drop n t.rest, same, kept]

/-- The quote behind a backslash ends no string, also when each byte arrives on its own and reads are interrupted,
and the one behind a backslash that is itself escaped does. -/
theorem quotedLength_scans_piecewise :
    ((ofSource (.inPieces 0 true (bytes "\"a\\\"\\\\\" x=\"\"") .endOfInput)).run .quotedLength).1 = some 7 ∧
      IsLeast (Scan.meetings 0x22 (bytes "\"a\\\"\\\\\" x=\"\"") 1) 6 := by
  have rest : (ofSource (.inPieces 0 true (bytes "\"a\\\"\\\\\" x=\"\"") .endOfInput)).rest =
      bytes "\"a\\\"\\\\\" x=\"\"" := by decide +kernel
  have scanned : ((ofSource (.inPieces 0 true (bytes "\"a\\\"\\\\\" x=\"\"") .endOfInput)).run .quotedLength).1 =
      some 7 := by decide +kernel
  have begins : bytes "\"a\\\"\\\\\" x=\"\"" = 0x22 :: (bytes "\"a\\\"\\\\\" x=\"\"").tail := by decide +kernel
  have scans := quotedLength_scans _ (rest.trans begins)
  rw [rest] at scans
  exact ⟨scanned, (scans.1 7).1 scanned⟩

end Stream

end XmlBinding
