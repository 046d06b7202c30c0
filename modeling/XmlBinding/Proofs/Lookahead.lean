import XmlBinding.Input.Lookahead
import XmlBinding.Proofs.Names

/-! What a scan answers early is what it would answer on everything that follows. A stream whose bytes are all
there therefore answers every scan by looking at the whole rest of the input, and stays where it is. -/
namespace XmlBinding

/-- How many bytes a scan may have dealt with when it has seen some. -/
inductive Scan.Dealt (scan : Scan α) : Nat → List UInt8 → Prop where
  | start : Dealt scan 0 seen
  | later (dealt : Dealt scan done seen) (stopped : scan.look done seen = .error further) :
      Dealt scan further (seen ++ more)

/-- Behind the bytes that it has dealt with a scan finds what it would have found from the first byte on. -/
def Scan.Resumes (scan : Scan α) : Prop :=
  ∀ {done seen}, scan.Dealt done seen → (scan.look done seen).toOption = scan.early seen

/-- An early answer never changes with the bytes that come after it, wherever the scan has gone on. -/
structure Scan.Settled (scan : Scan α) : Prop where
  resumes : scan.Resumes
  final : ∀ seen more result, scan.early seen = some result → scan.whole (seen ++ more) = result

namespace Scan

/-- A scan resumes if what it knows of the bytes dealt with is enough for the next look and is kept by it. -/
theorem Resumes.of {scan : Scan α} (known : Nat → List UInt8 → Prop) (start : ∀ seen, known 0 seen)
    (looks : ∀ {done seen}, known done seen → (scan.look done seen).toOption = scan.early seen)
    (keeps : ∀ {done seen further}, known done seen → scan.look done seen = .error further →
      ∀ more, known further (seen ++ more)) : scan.Resumes := by
  intro done seen dealt
  refine looks ?_
  induction dealt with
  | start => exact start _
  | later _ stopped ih => exact keeps ih stopped _

/-- A scan that looks at all bytes again. -/
theorem Resumes.anew {scan : Scan α} (same : ∀ done, scan.look done = scan.look 0) : scan.Resumes :=
  fun {done seen} _ => congrArg (fun look => (look seen).toOption) (same done)

theorem Settled.look {scan : Scan α} (settled : scan.Settled) (dealt : scan.Dealt done seen)
    (answered : scan.look done seen = .ok result) : scan.early seen = some result := by
  rw [← settled.resumes dealt, answered]
  rfl

theorem Settled.unanswered {scan : Scan α} (settled : scan.Settled) (dealt : scan.Dealt done seen)
    (stopped : scan.look done seen = .error further) : scan.early seen = none := by
  rw [← settled.resumes dealt, stopped]
  rfl

private theorem prefix_append_iff {needle seen : List UInt8} (enough : needle.length ≤ seen.length)
    (more : List UInt8) : needle <+: seen ++ more ↔ needle <+: seen := by
  constructor
  · intro here
    exact List.prefix_of_prefix_length_le here (List.prefix_append seen more) enough
  · exact List.prefix_append_of_prefix

theorem early_available (n : Nat) (seen : List UInt8) :
    (available n).early seen = if hasAtLeast n seen then some true else none := by
  unfold early available
  dsimp only
  split <;> rfl

theorem available_settled (n : Nat) : (available n).Settled where
  resumes := Resumes.anew fun _ => rfl
  final seen more result answered := by
    simp only [early_available, Option.ite_none_right_eq_some, Option.some.injEq] at answered
    obtain ⟨enough, rfl⟩ := answered
    simp only [available, hasAtLeast_iff, List.length_append] at enough ⊢
    omega

theorem early_byteAt (n : Nat) (seen : List UInt8) : (byteAt n).early seen = seen[n]?.map some := by
  unfold early byteAt
  dsimp only
  split <;> rename_i found <;> rw [found] <;> rfl

theorem byteAt_settled (n : Nat) : (byteAt n).Settled where
  resumes := Resumes.anew fun _ => rfl
  final seen more result answered := by
    simp only [early_byteAt, Option.map_eq_some_iff] at answered
    obtain ⟨b, found, rfl⟩ := answered
    have inside := (List.getElem?_eq_some_iff.1 found).1
    simpa only [byteAt, List.getElem?_append_left inside] using found

theorem early_startsWith (literal seen : List UInt8) : (startsWith literal).early seen =
    if hasAtLeast literal.length seen then some (literal.isPrefixOf seen) else none := by
  unfold early startsWith
  dsimp only
  split <;> rfl

theorem startsWith_settled (literal : List UInt8) : (startsWith literal).Settled where
  resumes := Resumes.anew fun _ => rfl
  final seen more result answered := by
    simp only [early_startsWith, Option.ite_none_right_eq_some, Option.some.injEq] at answered
    obtain ⟨enough, rfl⟩ := answered
    change literal.isPrefixOf (seen ++ more) = literal.isPrefixOf seen
    rw [Bool.eq_iff_iff, List.isPrefixOf_iff_prefix, List.isPrefixOf_iff_prefix]
    exact prefix_append_iff (hasAtLeast_iff.1 enough) more

/-- Spaces are counted on behind those that have been counted. -/
theorem spaces_look {done : Nat} {seen : List UInt8} (bound : done ≤ seen.length)
    (all : ∀ b ∈ seen.take done, Text.isSpaceByte b = true) : spaces.look done seen =
      if spaces.whole seen < seen.length then .ok (spaces.whole seen) else .error (spaces.whole seen) := by
  have split : seen.takeWhile Text.isSpaceByte = seen.take done ++ (seen.drop done).takeWhile Text.isSpaceByte := by
    rw [← List.takeWhile_append_of_pos all, List.take_append_drop]
  have count : spaces.whole seen = done + ((seen.drop done).takeWhile Text.isSpaceByte).length := by
    change (seen.takeWhile Text.isSpaceByte).length = _
    rw [split, List.length_append, List.length_take_of_le bound]
  rw [count]
  rfl

theorem early_spaces (seen : List UInt8) :
    spaces.early seen = if spaces.whole seen < seen.length then some (spaces.whole seen) else none := by
  rw [early, spaces_look (Nat.zero_le _) (by simp)]
  split <;> rfl

theorem spaces_settled : spaces.Settled where
  resumes := by
    refine Resumes.of (fun done seen => done ≤ seen.length ∧ ∀ b ∈ seen.take done, Text.isSpaceByte b = true)
      (fun _ => ⟨Nat.zero_le _, by simp⟩) ?_ ?_
    · rintro done seen ⟨bound, all⟩
      rw [spaces_look bound all, early_spaces]
      split <;> rfl
    · rintro done seen further ⟨bound, all⟩ stopped more
      rw [spaces_look bound all] at stopped
      split at stopped
      · cases stopped
      · rename_i every
        cases stopped
        have whole := List.takeWhile_prefix Text.isSpaceByte (l := seen)
        have same := whole.eq_of_length_le (Nat.le_of_not_lt every)
        have length : spaces.whole seen = seen.length := congrArg List.length same
        rw [length, List.take_left, List.length_append]
        refine ⟨Nat.le_add_right _ _, fun b member => ?_⟩
        rw [← same] at member
        exact List.all_eq_true.1 (List.all_takeWhile ..) b member
  final seen more result answered := by
    simp only [early_spaces, Option.ite_none_right_eq_some, Option.some.injEq] at answered
    obtain ⟨shorter, rfl⟩ := answered
    simp only [spaces] at shorter ⊢
    rw [List.takeWhile_append, if_neg (Nat.ne_of_lt shorter)]

/-- The first occurrence of a needle, and none before it. -/
theorem indexOf?_eq_some_iff {needle bytes : List UInt8} {k : Nat} :
    indexOf? needle bytes = some k ↔
      k ≤ bytes.length ∧ needle <+: bytes.drop k ∧ ∀ j < k, ¬ needle <+: bytes.drop j := by
  induction bytes generalizing k with
  | nil =>
    cases needle with
    | nil =>
      simp only [indexOf?, List.isEmpty_nil, if_pos, Option.some.injEq, List.length_nil, Nat.le_zero]
      constructor
      · rintro rfl
        simp
      · exact fun found => found.1.symm
    | cons n needle =>
      simp [indexOf?]
  | cons b rest ih =>
    simp only [indexOf?]
    split
    · rename_i here
      rw [List.isPrefixOf_iff_prefix] at here
      constructor
      · intro found
        cases found
        exact ⟨Nat.zero_le _, here, by simp⟩
      · rintro ⟨-, -, none⟩
        by_cases zero : k = 0
        · rw [zero]
        · exact absurd here (none 0 (by omega))
    · rename_i here
      rw [List.isPrefixOf_iff_prefix] at here
      simp only [Option.map_eq_some_iff, ih]
      constructor
      · rintro ⟨k, ⟨bound, found, none⟩, rfl⟩
        refine ⟨by simpa using bound, by simpa using found, ?_⟩
        intro j before
        cases j with
        | zero => exact here
        | succ j => exact none j (by omega)
      · rintro ⟨bound, found, none⟩
        cases k with
        | zero => exact absurd found here
        | succ k =>
          exact ⟨k, ⟨by simpa using bound, by simpa using found,
            fun j before => none (j + 1) (by omega)⟩, rfl⟩

theorem indexOf?_of_prefix {needle bytes : List UInt8} {k : Nat} (here : needle <+: bytes.drop k) :
    ∃ j, indexOf? needle bytes = some j := by
  induction bytes generalizing k with
  | nil =>
    rw [List.drop_nil, List.prefix_nil] at here
    exact ⟨0, by rw [here]; rfl⟩
  | cons b rest ih =>
    rw [indexOf?]
    split
    · exact ⟨0, rfl⟩
    · rename_i other
      cases k with
      | zero => exact absurd (List.isPrefixOf_iff_prefix.2 here) other
      | succ k =>
        obtain ⟨j, found⟩ := ih here
        exact ⟨j + 1, by rw [found]; rfl⟩

theorem indexOf?_append {needle seen : List UInt8} {k : Nat} (found : indexOf? needle seen = some k)
    (more : List UInt8) : indexOf? needle (seen ++ more) = some k := by
  obtain ⟨bound, here, none⟩ := indexOf?_eq_some_iff.1 found
  have fits := here.length_le
  rw [List.length_drop] at fits
  refine indexOf?_eq_some_iff.2 ⟨by simp only [List.length_append]; omega, ?_, ?_⟩
  · rw [List.drop_append_of_le_length bound]
    exact here.trans (List.prefix_append _ _)
  · intro j before
    rw [List.drop_append_of_le_length (by omega),
      prefix_append_iff (by simp only [List.length_drop]; omega)]
    exact none j before

/-- A search goes on behind bytes in which the needle does not begin. -/
theorem seek_from {needle seen : List UInt8} {done : Nat} (bound : done ≤ seen.length)
    (none : ∀ j < done, ¬ needle <+: seen.drop j) : (seek needle done seen).toOption = indexOf? needle seen := by
  unfold seek
  cases found : indexOf? needle (seen.drop done) with
  | some k =>
    obtain ⟨inside, here, first⟩ := indexOf?_eq_some_iff.1 found
    rw [List.length_drop] at inside
    rw [List.drop_drop] at here
    refine (indexOf?_eq_some_iff.2 ⟨by omega, here, fun j before => ?_⟩).symm
    by_cases behind : j < done
    · exact none j behind
    · have further := first (j - done) (by omega)
      rwa [List.drop_drop, Nat.add_sub_cancel' (Nat.le_of_not_lt behind)] at further
  | none =>
    cases whole : indexOf? needle seen with
    | none => rfl
    | some k =>
      -- An occurrence would begin behind the bytes dealt with, where there is none.
      obtain ⟨inside, here, first⟩ := indexOf?_eq_some_iff.1 whole
      have behind : done ≤ k := Nat.le_of_not_lt fun before => none k before here
      have there : needle <+: (seen.drop done).drop (k - done) := by
        rwa [List.drop_drop, Nat.add_sub_cancel' behind]
      obtain ⟨k', earlier⟩ := indexOf?_of_prefix there
      cases found.symm.trans earlier

/-- Where a search stops the needle can only begin in bytes that are looked at again. -/
theorem seek_stops {needle seen : List UInt8} {done further : Nat} (bound : done ≤ seen.length)
    (none : ∀ j < done, ¬ needle <+: seen.drop j) (stopped : seek needle done seen = .error further)
    (more : List UInt8) :
    further ≤ (seen ++ more).length ∧ ∀ j < further, ¬ needle <+: (seen ++ more).drop j := by
  have nowhere : indexOf? needle seen = Option.none := by
    rw [← seek_from bound none, stopped]
    rfl
  have last : further = seen.length - (needle.length - 1) := by
    unfold seek at stopped
    split at stopped <;> cases stopped
    rfl
  refine ⟨by rw [List.length_append]; omega, fun j before here => ?_⟩
  rw [List.drop_append_of_le_length (by omega), prefix_append_iff (by rw [List.length_drop]; omega)] at here
  obtain ⟨k, found⟩ := indexOf?_of_prefix here
  cases nowhere.symm.trans found

theorem early_find (needle seen : List UInt8) : (find needle).early seen = (indexOf? needle seen).map some := by
  unfold early find
  rw [← seek_from (Nat.zero_le seen.length) (fun j before => absurd before (Nat.not_lt_zero j))]
  dsimp only
  cases seek needle 0 seen <;> rfl

theorem find_settled (needle : List UInt8) : (find needle).Settled where
  resumes := by
    refine Resumes.of (fun done seen => done ≤ seen.length ∧ ∀ j < done, ¬ needle <+: seen.drop j)
      (fun _ => ⟨Nat.zero_le _, by simp⟩) ?_ ?_
    · rintro done seen ⟨bound, none⟩
      rw [early_find, ← seek_from bound none]
      unfold find
      dsimp only
      cases seek needle done seen <;> rfl
    · rintro done seen further ⟨bound, none⟩ stopped
      refine seek_stops bound none ?_
      unfold find at stopped
      dsimp only at stopped
      generalize seek needle done seen = sought at stopped ⊢
      cases sought <;> cases stopped
      rfl
  final seen more result answered := by
    simp only [early_find, Option.map_eq_some_iff] at answered
    obtain ⟨k, found, rfl⟩ := answered
    exact indexOf?_append found more

theorem early_textLength (seen : List UInt8) : textLength.early seen = indexOf? [0x3C] seen :=
  seek_from (Nat.zero_le _) (fun j before => absurd before (Nat.not_lt_zero j))

theorem textLength_settled : textLength.Settled where
  resumes := Resumes.of (fun done seen => done ≤ seen.length ∧ ∀ j < done, ¬ [0x3C] <+: seen.drop j)
    (fun _ => ⟨Nat.zero_le _, by simp⟩)
    (fun behind => (seek_from behind.1 behind.2).trans (early_textLength _).symm)
    (fun behind => seek_stops behind.1 behind.2)
  final seen more result answered := by
    rw [early_textLength] at answered
    simp only [textLength]
    rw [indexOf?_append answered more, Option.getD_some]

/-- A name that has ended goes no further, whatever comes after it. -/
theorem nameExtent_append {first : Bool} {owed : Nat} {seen : List UInt8} {length : Nat}
    (ended : Text.nameExtent first owed seen = (length, false)) (more : List UInt8) :
    Text.nameExtent first owed (seen ++ more) = (length, false) := by
  induction seen generalizing first owed length with
  | nil => simp [Text.nameExtent] at ended
  | cons b rest ih =>
    have inner {first : Bool} {owed : Nat} (done : (Text.nameExtent first owed rest).2 = false) :
        Text.nameExtent first owed (rest ++ more) = Text.nameExtent first owed rest := by
      rw [ih (Prod.ext rfl done)]
      exact Prod.ext rfl done.symm
    rw [List.cons_append]
    cases owed with
    | succ owed =>
      simp only [Text.nameExtent, Prod.mk.injEq] at ended ⊢
      rw [inner ended.2]
      exact ended
    | zero =>
      by_cases ascii : b < 0x80
      · simp only [Text.nameExtent, ascii, ↓reduceIte] at ended ⊢
        by_cases allowed : (if first then Text.startsName b else Text.continuesName b) = true
        · rw [if_pos allowed, Prod.mk.injEq] at ended
          rw [if_pos allowed, inner ended.2, ended.1, ended.2]
        · rw [if_neg allowed] at ended ⊢
          exact ended
      · rw [Text.nameExtent_wide ascii] at ended ⊢
        split at ended
        · rename_i none
          rw [if_pos none]
          exact ended
        · rename_i some
          rw [if_neg some]
          split at ended
          · simp at ended
          · rename_i enough
            rw [if_neg (by simp only [List.length_append]; omega), ← List.cons_append,
              List.take_append_of_le_length (by simp only [List.length_cons]; omega)]
            split at ended
            · rename_i letter
              simp only [Prod.mk.injEq] at ended
              rw [if_pos letter, inner ended.2, ended.1, ended.2]
            · rename_i refused
              rw [if_neg refused]
              exact ended

/-- A name that goes on to the last byte seen is measured on behind it. No character is passed before all its
bytes have been seen. -/
theorem nameExtent_resumed {first : Bool} {owed : Nat} {seen : List UInt8} {length : Nat}
    (begun : owed = 0 ∨ first = false) (there : owed ≤ seen.length)
    (unfinished : Text.nameExtent first owed seen = (length, true)) (more : List UInt8) :
    Text.nameExtent first owed (seen ++ more) =
      ((Text.nameExtent (first && length == 0) 0 ((seen ++ more).drop length)).1 + length,
        (Text.nameExtent (first && length == 0) 0 ((seen ++ more).drop length)).2) := by
  induction seen generalizing first owed length with
  | nil =>
    obtain rfl : owed = 0 := Nat.le_zero.1 there
    simp only [Text.nameExtent, Prod.mk.injEq, and_true] at unfinished
    simp [← unfinished]
  | cons b rest ih =>
    -- Behind the first byte the scan is no longer at the beginning of the name.
    have inner {owed : Nat} (there : owed ≤ rest.length) (unfinished : (Text.nameExtent false owed rest).2 = true) :=
      @ih false _ _ (.inr rfl) there (Prod.ext rfl unfinished)
    simp only [Bool.false_and] at inner
    rw [List.cons_append]
    cases owed with
    | succ owed =>
      obtain rfl : first = false := begun.resolve_left (Nat.succ_ne_zero owed)
      simp only [Text.nameExtent, Prod.mk.injEq] at unfinished ⊢
      rw [inner (Nat.le_of_succ_le_succ there) unfinished.2, ← unfinished.1]
      simp [Nat.add_assoc]
    | zero =>
      by_cases ascii : b < 0x80
      · simp only [Text.nameExtent, ascii, ↓reduceIte] at unfinished ⊢
        by_cases allowed : (if first then Text.startsName b else Text.continuesName b) = true
        · rw [if_pos allowed, Prod.mk.injEq] at unfinished
          rw [if_pos allowed, inner (Nat.zero_le _) unfinished.2, ← unfinished.1]
          simp [Nat.add_assoc]
        · rw [if_neg allowed] at unfinished
          simp at unfinished
      · rw [Text.nameExtent_wide ascii] at unfinished
        split at unfinished
        · simp at unfinished
        · rename_i some
          split at unfinished
          · -- The character is not yet there as a whole, and is looked at again.
            simp only [Prod.mk.injEq, and_true] at unfinished
            simp [← unfinished]
          · rename_i enough
            split at unfinished
            · rename_i letter
              simp only [Prod.mk.injEq] at unfinished
              rw [Text.nameExtent_wide ascii, if_neg some,
                if_neg (by simp only [List.length_append]; omega), ← List.cons_append,
                List.take_append_of_le_length (by simp only [List.length_cons]; omega), if_pos letter,
                inner (by omega) unfinished.2, ← unfinished.1]
              simp [Nat.add_assoc]
            · simp at unfinished

/-- The name seen goes on behind the bytes dealt with as the rest of it. -/
private def NameGoesOn (done : Nat) (seen : List UInt8) : Prop :=
  Text.nameExtent true 0 seen =
    ((Text.nameExtent (done == 0) 0 (seen.drop done)).1 + done,
      (Text.nameExtent (done == 0) 0 (seen.drop done)).2)

private theorem nameLength_look {done : Nat} {seen : List UInt8} (goesOn : NameGoesOn done seen) :
    nameLength.look done seen =
      if (Text.nameExtent true 0 seen).2 then .error (Text.nameLength seen) else .ok (Text.nameLength seen) := by
  simp only [nameLength, Text.nameLength]
  rw [goesOn]
  obtain ⟨length, unfinished⟩ := Text.nameExtent (done == 0) 0 (seen.drop done)
  cases unfinished <;> simp [Nat.add_comm]

theorem early_nameLength (seen : List UInt8) : nameLength.early seen =
    if (Text.nameExtent true 0 seen).2 then none else some (Text.nameLength seen) := by
  rw [early, nameLength_look (show NameGoesOn 0 seen from rfl)]
  split <;> rfl

theorem nameLength_settled : nameLength.Settled where
  resumes := by
    refine Resumes.of NameGoesOn (fun _ => rfl) ?_ ?_
    · intro done seen goesOn
      rw [nameLength_look goesOn, early_nameLength]
      split <;> rfl
    · intro done seen further goesOn stopped more
      rw [nameLength_look goesOn] at stopped
      split at stopped
      · rename_i unfinished
        cases stopped
        exact nameExtent_resumed (.inl rfl) (Nat.zero_le _) (Prod.ext rfl unfinished) more
      · cases stopped
  final seen more result answered := by
    rw [early_nameLength] at answered
    split at answered
    · cases answered
    · rename_i ended
      cases answered
      have extent : Text.nameExtent true 0 seen = (Text.nameLength seen, false) :=
        Prod.ext rfl (Bool.not_eq_true _ ▸ ended)
      simp only [nameLength]
      rw [Text.nameLength, nameExtent_append extent more]

theorem closingQuote?_here (quote : UInt8) (rest : List UInt8) :
    closingQuote? quote (quote :: rest) = some 0 := by
  rw [closingQuote?.eq_def]
  simp

theorem closingQuote?_plain {quote b : UInt8} (other : b ≠ quote) (plain : b ≠ 0x5C) (rest : List UInt8) :
    closingQuote? quote (b :: rest) = (closingQuote? quote rest).map (· + 1) := by
  rw [closingQuote?.eq_def]
  simp [other, plain]

theorem closingQuote?_escape {quote : UInt8} (other : 0x5C ≠ quote) (next : UInt8) (rest : List UInt8) :
    closingQuote? quote (0x5C :: next :: rest) = (closingQuote? quote rest).map (· + 2) := by
  rw [closingQuote?.eq_def]
  simp [other]

theorem closingQuote?_append {quote : UInt8} {seen : List UInt8} {k : Nat}
    (found : closingQuote? quote seen = some k) (more : List UInt8) :
    closingQuote? quote (seen ++ more) = some k := by
  fun_induction closingQuote? quote seen generalizing k with
  | case1 => cases found
  | case2 b rest closes =>
    cases found
    rw [beq_iff_eq] at closes
    rw [closes, List.cons_append, closingQuote?_here]
  | case3 => cases found
  | case4 b other escape next rest ih =>
    obtain ⟨k, inner, rfl⟩ := Option.map_eq_some_iff.1 found
    rw [beq_iff_eq] at other escape
    rw [escape] at other ⊢
    rw [List.cons_append, List.cons_append, closingQuote?_escape other, ih inner]
    rfl
  | case5 b rest other plain ih =>
    obtain ⟨k, inner, rfl⟩ := Option.map_eq_some_iff.1 found
    rw [beq_iff_eq] at other plain
    rw [List.cons_append, closingQuote?_plain other plain, ih inner]
    rfl

/-- Where no quote closes the bytes seen, one that closes more of them lies behind the bytes passed. -/
theorem closingQuote?_resumed {quote : UInt8} {seen : List UInt8} (unclosed : closingQuote? quote seen = none)
    (more : List UInt8) : closingQuote? quote (seen ++ more) =
      (closingQuote? quote ((seen ++ more).drop (unclosedLength seen))).map (· + unclosedLength seen) := by
  fun_induction closingQuote? quote seen with
  | case1 => simp [unclosedLength]
  | case2 => cases unclosed
  | case3 b other escape =>
    -- What the backslash escapes is passed unseen.
    rw [beq_iff_eq] at other escape
    rw [escape] at other ⊢
    cases more with
    | nil => simp [unclosedLength, closingQuote?, other]
    | cons next rest =>
      rw [List.cons_append, List.nil_append, closingQuote?_escape other]
      rfl
  | case4 b other escape next rest ih =>
    rw [beq_iff_eq] at other escape
    rw [escape] at other ⊢
    rw [List.cons_append, List.cons_append, closingQuote?_escape other, ih (Option.map_eq_none_iff.1 unclosed),
      Option.map_map]
    rfl
  | case5 b rest other plain ih =>
    have passed : unclosedLength (b :: rest) = unclosedLength rest + 1 := by
      rw [unclosedLength.eq_def]
      simp [plain]
    rw [beq_iff_eq] at other plain
    rw [List.cons_append, closingQuote?_plain other plain, ih (Option.map_eq_none_iff.1 unclosed), passed,
      Option.map_map]
    rfl

theorem quotedLength_look (done : Nat) (quote : UInt8) (rest : List UInt8) :
    quotedLength.look done (quote :: rest) =
      match closingQuote? quote (rest.drop (done - 1)) with
      | some distance => .ok (some (distance + (done - 1) + 2))
      | none => .error (unclosedLength (rest.drop (done - 1)) + (done - 1) + 1) := by
  have opened : max done 1 = done - 1 + 1 := by omega
  simp only [quotedLength, opened, List.drop_succ_cons]
  cases closingQuote? quote (rest.drop (done - 1)) with
  | none => exact congrArg Except.error (by omega)
  | some distance => exact congrArg (fun length => Except.ok (some length)) (by omega)

theorem early_quotedLength (seen : List UInt8) : quotedLength.early seen = (quotedLength? seen).map some := by
  cases seen with
  | nil => rfl
  | cons quote rest =>
    rw [early, quotedLength_look, quotedLength?]
    simp only [Nat.zero_sub, List.drop_zero, Nat.add_zero]
    cases closingQuote? quote rest <;> rfl

/-- The quote that closes the string seen, and more of it, lies behind the bytes dealt with. -/
private def Unclosed (done : Nat) (seen : List UInt8) : Prop :=
  ∀ more {quote rest}, seen ++ more = quote :: rest →
    closingQuote? quote rest = (closingQuote? quote (rest.drop (done - 1))).map (· + (done - 1))

theorem quotedLength_settled : quotedLength.Settled where
  resumes := by
    refine Resumes.of Unclosed (fun _ _ _ _ _ => by simp) ?_ ?_
    · intro done seen unclosed
      rw [early_quotedLength]
      cases seen with
      | nil => rfl
      | cons quote rest =>
        rw [quotedLength_look, quotedLength?, unclosed [] (List.append_nil _)]
        cases closingQuote? quote (rest.drop (done - 1)) <;> rfl
    · intro done seen further unclosed stopped more
      cases seen with
      | nil =>
        cases stopped
        intro later quote rest _
        simp
      | cons quote rest =>
        rw [quotedLength_look] at stopped
        split at stopped
        · cases stopped
        · rename_i none
          cases stopped
          intro later first all same
          rw [List.append_assoc, List.cons_append] at same
          obtain ⟨rfl, rfl⟩ := List.cons.inj same
          rw [Nat.add_sub_cancel, unclosed (more ++ later) List.cons_append]
          by_cases within : done - 1 ≤ rest.length
          · rw [List.drop_append_of_le_length within, closingQuote?_resumed none,
              ← List.drop_append_of_le_length within, List.drop_drop, Option.map_map,
              Nat.add_comm (done - 1)]
            exact congrArg (Option.map · _) (funext fun k => Nat.add_assoc ..)
          · -- A backslash at the end of what has been seen escapes what comes next.
            rw [List.drop_of_length_le (Nat.le_of_not_le within)]
            simp [unclosedLength]
  final seen more result answered := by
    rw [early_quotedLength] at answered
    obtain ⟨k, found, rfl⟩ := Option.map_eq_some_iff.1 answered
    cases seen with
    | nil => cases found
    | cons quote rest =>
      obtain ⟨j, inner, rfl⟩ := Option.map_eq_some_iff.1 found
      simp [quotedLength, quotedLength?, closingQuote?_append inner more]

theorem early_charLength (seen : List UInt8) : charLength.early seen =
    match seen with
    | [] => none
    | b :: rest =>
      if hasAtLeast (max (Text.leadWidth b) 1) (b :: rest) then some (max (Text.leadWidth b) 1) else none := by
  unfold early charLength
  cases seen with
  | nil => rfl
  | cons b rest =>
    dsimp only
    split <;> rfl

theorem charLength_settled : charLength.Settled where
  resumes := Resumes.anew fun _ => funext fun seen => by cases seen <;> rfl
  final seen more result answered := by
    rw [early_charLength] at answered
    cases seen with
    | nil => cases answered
    | cons b rest =>
      simp only [Option.ite_none_right_eq_some, Option.some.injEq, hasAtLeast_iff] at answered
      obtain ⟨enough, rfl⟩ := answered
      have more' : max (Text.leadWidth b) 1 ≤ (b :: (rest ++ more)).length := by
        simp only [List.length_cons, List.length_append] at enough ⊢
        omega
      simp only [charLength, List.cons_append, hasAtLeast_iff, if_pos more']

end Scan

namespace Stream

/-- All the bytes that will ever come are there, and no read has failed. -/
structure Whole (s : Stream) : Prop where
  exhausted : s.source = none
  unfailed : s.failure = none

theorem ofBytes_whole (bytes : List UInt8) : (ofBytes bytes).Whole := ⟨rfl, rfl⟩

theorem run_whole {s : Stream} (whole : s.Whole) {scan : Scan α} (settled : scan.Settled) :
    s.run scan = (scan.whole s.ahead, s) := by
  simp only [run, whole.exhausted]
  cases early : scan.early s.ahead with
  | none => rfl
  | some result => simpa using (settled.final s.ahead [] result early).symm

end Stream

end XmlBinding
