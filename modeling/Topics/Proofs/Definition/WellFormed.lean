import Topics.Catalog.Check
import Mathlib.Data.List.Nodup

/-! A definition passes its check exactly when its format is well formed and places its fields. -/

namespace Topics

/-- Neither a literal's text nor a placeholder's name has a separator that its token has not. -/
theorem Segment.text_ofToken_free {token : String} (free : separator ∉ token.toList) :
    separator ∉ (Segment.ofToken token).text.toList := by
  unfold Segment.ofToken
  split
  · rename_i inner shape
    split
    · -- A name is a part of its token.
      rw [shape] at free
      simp only [Segment.text, String.toList_ofList]
      exact fun member =>
        free (List.mem_cons_of_mem _ ((List.dropLast_sublist inner).mem member))
    · exact free
  · exact free

namespace Definition

variable {definition : Definition}

/-- No segment's text falls apart into tokens. -/
theorem text_free_of_mem_segments {segment : Segment} (member : segment ∈ definition.segments) :
    separator ∉ segment.text.toList := by
  obtain ⟨token, listed, rfl⟩ := List.mem_map.mp member
  exact Segment.text_ofToken_free (tokens_members_free listed)

/-- A format has at least one segment. -/
theorem segments_ne_nil (definition : Definition) : definition.segments ≠ [] := by
  simp [segments, tokens_ne_nil]

/-- The number of tokens of a topic is that of the segments. -/
theorem length_segments (definition : Definition) :
    definition.segments.length = definition.segmentCount := by
  simp [segments, segmentCount]

/-- A name is placed exactly when there is a placeholder of this name. -/
theorem mem_placeholders {name : String} :
    name ∈ definition.placeholders ↔ Segment.placeholder name ∈ definition.segments := by
  rw [placeholders, List.mem_filterMap]
  constructor
  · rintro ⟨segment, member, named⟩
    cases segment with
    | literal text => cases named
    | placeholder other =>
      cases named
      exact member
  · intro member
    exact ⟨_, member, rfl⟩

/-- A declared field is found under its name exactly when the name is one of the declared ones. -/
theorem field?_isSome (name : String) :
    (definition.field? name).isSome ↔ name ∈ definition.fieldNames := by
  simp [field?, fieldNames, List.find?_isSome]

/-- No field is found under a name exactly when the name is none of the declared ones. -/
theorem field?_isNone (name : String) :
    (definition.field? name).isNone ↔ name ∉ definition.fieldNames := by
  rw [← field?_isSome, Option.not_isSome_iff_eq_none, Option.isNone_iff_eq_none]

/-- A field that is found under a name has this name. -/
theorem name_of_field? {name : String} {spec : FieldSpec}
    (found : definition.field? name = some spec) : spec.name = name := by
  simpa using List.find?_some found

/-- What is asked of a definition before its topics can be told apart. -/
structure WellFormed (definition : Definition) : Prop where
  /-- There is a format. -/
  format_ne : definition.format ≠ ""
  /-- Fixed text is neither empty nor a wildcard, and has no braces. -/
  literals : ∀ text, Segment.literal text ∈ definition.segments → isLiteralToken text = true
  /-- The format places the declared fields in their order. -/
  placed : definition.placeholders = definition.fieldNames
  /-- No two fields have the same name. -/
  distinct : definition.fieldNames.Nodup
  /-- The wildcard follows from the format. -/
  derived : definition.wildcard = definition.derivedWildcard

/-- A definition passes its check exactly when it is well formed. -/
theorem check_eq_ok : definition.check = .ok () ↔ definition.WellFormed := by
  simp only [check, bind_eq_ok, require_eq_ok, forM_eq_ok]
  constructor
  · -- What has passed names each part of being well formed.
    rintro ⟨format_ne, segments, counted, placed, derived⟩
    refine ⟨format_ne, fun text member => ?_, placed, ?_, derived⟩
    · simpa [checkSegment, require_eq_ok] using segments _ member
    · -- Each declared name is placed once, and the placed names are the declared ones.
      refine List.nodup_iff_count_eq_one.mpr fun name member => ?_
      have once := counted name member
      rw [checkPlaced, require_eq_ok, placed] at once
      exact once
  · -- A well-formed definition passes each condition in turn.
    intro formed
    refine ⟨formed.format_ne, fun segment member => ?_, fun name member => ?_, formed.placed,
      formed.derived⟩
    · cases segment with
      | literal text =>
        rw [checkSegment, require_eq_ok]
        exact formed.literals text member
      | placeholder name =>
        rw [checkSegment, require_eq_ok, field?_isSome, ← formed.placed]
        exact mem_placeholders.mpr member
    · rw [checkPlaced, require_eq_ok, formed.placed]
      exact List.nodup_iff_count_eq_one.mp formed.distinct name member

namespace WellFormed

/-- Each placeholder has a declared field. -/
theorem declared (formed : definition.WellFormed) {name : String}
    (member : Segment.placeholder name ∈ definition.segments) :
    ∃ spec, definition.field? name = some spec := by
  apply Option.isSome_iff_exists.mp
  -- The declared names are the placed ones.
  rw [field?_isSome, ← formed.placed]
  exact mem_placeholders.mpr member

end WellFormed

end Definition

end Topics
