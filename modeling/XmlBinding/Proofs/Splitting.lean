import XmlBinding.Markup.Writer
import XmlBinding.Proofs.Escaping
import XmlBinding.Proofs.ParsingComplete
import XmlBinding.Proofs.Reading

/-! CDATA in sections. A text that contains terminators is written as several sections, each of which ends where its own
terminator was put, whatever follows them all. Both readers, going from section to section, come out with the text and
with what follows. -/
namespace XmlBinding
open Text Grammar

/-- CDATA sections with these bodies, one after another. -/
def cdataSections (bodies : List String) : List UInt8 :=
  bodies.flatMap fun body => bytes (Section.cdata.opening ++ body ++ Section.cdata.terminator)

theorem cdataSections_cons (body : String) (bodies : List String) : cdataSections (body :: bodies) =
    bytes (Section.cdata.opening ++ body ++ Section.cdata.terminator) ++ cdataSections bodies :=
  List.flatMap_cons

/-- A text in written form is the bodies of sections that follow one another without a gap. -/
theorem splitCData_sections (text : String) : ∃ bodies : List String, bodies ≠ [] ∧ String.join bodies = text ∧
    bytes (Section.cdata.opening ++ String.ofList (splitCData text.toList) ++ Section.cdata.terminator) =
      cdataSections bodies ∧
    ∀ body ∈ bodies, ¬ Section.cdata.terminator.toList <:+: body.toList := by
  obtain ⟨first, more, whole, written, free⟩ := splitCData_eq text.toList
  refine ⟨(first :: more).map String.ofList, by simp, ?_, ?_, ?_⟩
  · apply String.toList_injective
    rw [String.toList_join, ← whole]
    have back : String.toList ∘ String.ofList = id := funext fun _ => String.toList_ofList
    rw [List.flatMap_def, List.map_map, back, List.map_id, List.flatten_cons]
  · rw [written]
    clear written whole free
    induction more generalizing first with
    | nil => simp [cdataSections]
    | cons next more ih =>
      rw [List.map_cons, cdataSections_cons, ← ih next]
      simp [bytes_eq_spell]
  · intro body member
    obtain ⟨chars, inside, rfl⟩ := List.mem_map.1 member
    rw [String.toList_ofList]
    exact free chars inside

/-- Each of several sections ends at the first terminator behind its opening. -/
theorem indexOf?_cdataSections {bodies : List String}
    (free : ∀ body ∈ bodies, ¬ Section.cdata.terminator.toList <:+: body.toList)
    (split : bodies = before ++ body :: after) (rest : List UInt8) :
    Scan.indexOf? (bytes Section.cdata.terminator)
      (bytes body ++ (bytes Section.cdata.terminator ++ (cdataSections after ++ rest))) = some (bytes body).length :=
  (Scan.indexOf?_body .cdata body _).2 (free body (by simp [split]))

namespace Grammar

/-- CDATA sections with these bodies are next, and then something else is. -/
inductive Sections : Cursor → List String → Cursor → Prop where
  | done (stops : (bytes Section.cdata.opening).isPrefixOf c.ahead = false) : Sections c [] c
  | more (enclosed : Enclosed .cdata c body d) (rest : Sections d bodies e) : Sections c (body :: bodies) e

namespace Sections

theorem of_ahead (free : ∀ body ∈ bodies, ¬ Section.cdata.terminator.toList <:+: body.toList)
    (stops : (bytes Section.cdata.opening).isPrefixOf rest = false) (ahead : c.ahead = cdataSections bodies ++ rest) :
    ∃ d, d.ahead = rest ∧ Sections c bodies d := by
  induction bodies generalizing c with
  | nil =>
    obtain rfl : c.ahead = rest := ahead
    exact ⟨c, rfl, .done stops⟩
  | cons body bodies ih =>
    obtain ⟨here, free⟩ := List.forall_mem_cons.1 free
    rw [cdataSections_cons, List.append_assoc] at ahead
    have spelled := Spells.ofAhead ahead
    obtain ⟨d, left, rest⟩ := ih free (List.append_cancel_left (spelled.ahead.symm.trans ahead))
    exact ⟨d, left, .more ⟨here, spelled⟩ rest⟩

theorem stops (sections : Sections c bodies d) : (bytes Section.cdata.opening).isPrefixOf d.ahead = false := by
  induction sections with
  | done stops => exact stops
  | more _ _ ih => exact ih

end Sections
end Grammar

theorem Builder.kept_append (builder : Builder ε) (first second : String) :
    builder.kept (first ++ second) = builder.kept first ++ builder.kept second := by
  unfold kept
  split <;> rfl

/-- Two bodies are added like one, at the place of the first. -/
theorem Content.addCData_addCData (soFar : Content) (first second : String) (place later : Position) :
    (soFar.addCData first place).addCData second later = soFar.addCData (first ++ second) place := by
  unfold addCData
  cases soFar.cdata? with
  | none => rfl
  | some earlier => simp [String.append_assoc]

/-- The direct reader goes over sections with the text of their bodies. -/
theorem Reading.content_sections {s : Stream} (here : s.At c) (sections : Sections c bodies d)
    (nonempty : bodies ≠ []) :
    ∃ s', s'.At d ∧ content builder reader outer (fuel + bodies.length) soFar text cdata? s =
      content builder reader outer fuel soFar text (some (cdata?.getD "" ++ builder.kept (String.join bodies))) s' := by
  induction sections generalizing s cdata? with
  | done => exact absurd rfl nonempty
  | @more c body d bodies e enclosed rest ih =>
    obtain ⟨s₁, there, (step : content builder reader outer (fuel + bodies.length + 1) soFar text cdata? s = _)⟩ :=
      content_cdata here enclosed
    by_cases last : bodies = []
    · subst last
      cases rest
      exact ⟨s₁, there, by simpa using step⟩
    · obtain ⟨s₂, there, steps⟩ := ih there last
      refine ⟨s₂, there, step.trans (steps.trans ?_)⟩
      rw [String.join_cons, builder.kept_append, Option.getD_some, String.append_assoc]

/-- So does the reader of tokens, which keeps the place of the first section. -/
theorem Parse.content_sections {p : Parsing Unit} (here : Reads .content c p.tokens) (sections : Sections c bodies d)
    (nonempty : bodies ≠ []) :
    ∃ p', Reads .content d p'.tokens ∧ content .fresh reader outer (fuel + bodies.length) soFar p =
      content .fresh reader outer fuel (soFar.addCData (String.join bodies) c.place) p' := by
  induction sections generalizing p soFar with
  | done => exact absurd rfl nonempty
  | @more c body d bodies e enclosed rest ih =>
    obtain ⟨p₁, there, -, (step : content .fresh reader outer (fuel + bodies.length + 1) soFar p = _)⟩ :=
      content_cdata here enclosed
    by_cases last : bodies = []
    · subst last
      cases rest
      exact ⟨p₁, there, by simpa using step⟩
    · obtain ⟨p₂, there, steps⟩ := ih there last
      refine ⟨p₂, there, step.trans (steps.trans ?_)⟩
      rw [String.join_cons, Content.addCData_addCData]

/-- Where no section is next the tokens do not go on with one. -/
theorem Parse.no_section {p : Parsing Unit} (here : Reads .content c p.tokens)
    (stops : (bytes Section.cdata.opening).isPrefixOf c.ahead = false) (read : p.tokens.current = .ok token) :
    token.kind ≠ .cdataStart := by
  rintro kind
  obtain ⟨rest, k', d, -, lexes, -⟩ := here.current read (by rw [kind]; rfl)
  cases lexes with
  | @opening sec _ _ _ _ opens =>
    have cdata : sec = .cdata := by
      cases sec <;> cases kind
      rfl
    subst cdata
    exact Bool.false_ne_true (stops.symm.trans opens.isPrefix)
  | _ => cases kind

/-- Written CDATA is read back as it was, whatever stands behind it that is not CDATA itself. It is one section or more,
whose bodies make up the text. Each ends at the first terminator behind its opening, so that a reader of content, of
either kind, comes from the first opening to what follows the last terminator with exactly the text as its CDATA. -/
theorem Writer.cdata_exact (w : Writer) (text : String) (stops : ¬ bytes Section.cdata.opening <+: rest) :
    ∃ bodies : List String, bodies ≠ [] ∧ String.join bodies = text ∧
      (w.cdata text).out.toList = w.endTag.out.toList ++ cdataSections bodies ∧
      (∀ before body after, bodies = before ++ body :: after →
        Scan.indexOf? (bytes Section.cdata.terminator)
          (bytes body ++ (bytes Section.cdata.terminator ++ (cdataSections after ++ rest))) =
            some (bytes body).length) ∧
      ∀ c : Cursor, c.ahead = cdataSections bodies ++ rest → ∃ d : Cursor, d.ahead = rest ∧ Sections c bodies d ∧
        (∀ s : Stream, s.At c → ∀ {ε} (builder : Builder ε) reader outer fuel soFar before cdata?, ∃ s', s'.At d ∧
          Reading.startsWith Section.cdata.opening s' = .ok (false, s') ∧
          Reading.content builder reader outer (fuel + bodies.length) soFar before cdata? s =
            Reading.content builder reader outer fuel soFar before (some (cdata?.getD "" ++ builder.kept text)) s') ∧
        ∀ p : Parsing Unit, Reads .content c p.tokens → ∀ reader outer fuel soFar, ∃ p', Reads .content d p'.tokens ∧
          (∀ token, p'.tokens.current = .ok token → token.kind ≠ .cdataStart) ∧
          Parse.content .fresh reader outer (fuel + bodies.length) soFar p =
            Parse.content .fresh reader outer fuel (soFar.addCData text c.place) p' := by
  obtain ⟨bodies, nonempty, whole, written, free⟩ := splitCData_sections text
  rw [← List.isPrefixOf_iff_prefix, Bool.not_eq_true] at stops
  refine ⟨bodies, nonempty, whole, ?_, fun before body after split => indexOf?_cdataSections free split rest,
    fun c ahead => ?_⟩
  · rw [← written]
    simp [cdata, put, Section.opening, Section.terminator]
  · obtain ⟨d, left, sections⟩ := Sections.of_ahead free stops ahead
    refine ⟨d, left, sections, fun s here ε builder reader outer fuel soFar before cdata? => ?_,
      fun p here reader outer fuel soFar => ?_⟩
    · obtain ⟨s', there, steps⟩ := Reading.content_sections here sections nonempty
      refine ⟨s', there, ?_, whole ▸ steps⟩
      rw [Reading.startsWith_at there, sections.stops]
    · obtain ⟨p', there, steps⟩ := Parse.content_sections here sections nonempty
      exact ⟨p', there, fun token => Parse.no_section there sections.stops, whole ▸ steps⟩

/-- Two terminators in a row, in front of a closing tag. -/
theorem Writer.cdata_exact_terminators : ¬ bytes Section.cdata.opening <+: bytes "</a>" ∧
    ∃ fuel s', s'.ahead = bytes "</a>" ∧
      Reading.content .entries (Reading.fail .unexpectedEnd) "a" fuel [] "" none
          (.ofBytes ((({} : Writer).cdata "]]>]]>").out.toList ++ bytes "</a>")) =
        .ok ([(cdataKey, .string "]]>]]>")], s') := by
  have stops : ¬ bytes Section.cdata.opening <+: bytes "</a>" := by decide +kernel
  obtain ⟨bodies, -, -, written, -, reads⟩ := ({} : Writer).cdata_exact "]]>]]>" stops
  obtain ⟨d, left, -, reads, -⟩ := reads (.start (cdataSections bodies ++ bytes "</a>")) rfl
  obtain ⟨s', there, -, steps⟩ := reads _ (.ofBytes _) .entries (.fail .unexpectedEnd) "a" 1 [] "" none
  have split : bytes "</a>" = bytes "</" ++ bytes "a>" := by decide +kernel
  have closes : Spells d "</" _ := .ofAhead (left.trans split)
  refine ⟨stops, 1 + bodies.length, s', there.ahead.trans left, ?_⟩
  have nothing : ({} : Writer).endTag.out.toList = [] := rfl
  rw [written, nothing, List.nil_append, steps, Reading.content_closing there closes]
  rfl

end XmlBinding
