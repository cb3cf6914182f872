import Topics.Catalog.Builtin
import Topics.Definition.Build
import Topics.Proofs.Definition.WellFormed
import Topics.Proofs.Field.Codec
import Topics.Proofs.OrderedMap
import Mathlib.Data.List.Forall2

/-! What is built has one token for each segment of the format, each written by itself. -/

namespace Topics

/-- The members of a list have partners in order exactly when each has a partner. -/
theorem exists_forall₂_iff {α : Type u} {β : Type v} {R : α → β → Prop} {xs : List α} :
    (∃ ys, List.Forall₂ R xs ys) ↔ ∀ x ∈ xs, ∃ y, R x y := by
  induction xs with
  | nil => simp
  | cons x rest ih =>
    -- A partner of the first member comes in front of those of the others.
    simp only [List.forall₂_cons_left_iff, List.mem_cons, forall_eq_or_imp, ← ih]
    constructor
    · rintro ⟨_, y, ys, first, others, rfl⟩
      exact ⟨⟨y, first⟩, ys, others⟩
    · rintro ⟨⟨y, first⟩, ys, others⟩
      exact ⟨y :: ys, y, ys, first, others, rfl⟩

/-- Each member of the second list is the partner of one of the first. -/
theorem exists_mem_of_forall₂ {α : Type u} {β : Type v} {R : α → β → Prop} {xs : List α}
    {ys : List β} (each : List.Forall₂ R xs ys) {y : β} (member : y ∈ ys) : ∃ x ∈ xs, R x y := by
  induction each with
  | nil => cases member
  | @cons x first xs ys related _ ih =>
    -- The member is the first partner or one of the others.
    rcases List.mem_cons.mp member with rfl | later
    · exact ⟨x, List.mem_cons_self, related⟩
    · obtain ⟨other, listed, related⟩ := ih later
      exact ⟨other, List.mem_cons_of_mem x listed, related⟩

/-- Lists are related one by one by two relations alike where these agree on the first list's
members. -/
theorem forall₂_congr_mem {α : Type u} {β : Type v} {R S : α → β → Prop} {xs : List α} {ys : List β}
    (same : ∀ x ∈ xs, ∀ y, R x y ↔ S x y) : List.Forall₂ R xs ys ↔ List.Forall₂ S xs ys := by
  induction xs generalizing ys with
  | nil => simp only [List.forall₂_nil_left_iff]
  | cons x rest ih =>
    have others (more : List β) : List.Forall₂ R rest more ↔ List.Forall₂ S rest more :=
      ih fun other member => same other (List.mem_cons_of_mem x member)
    simp only [List.forall₂_cons_left_iff, same x List.mem_cons_self, others]

namespace Definition

variable {definition : Definition} {values : FieldMap} {mode : BuildMode}

/-- Every value belongs to a declared field and can be written in its type. -/
def FitsPartly (definition : Definition) (values : FieldMap) : Prop :=
  -- The values are looked up, so their order plays no part.
  ∀ name value, values.get? name = some value →
    ∃ spec, definition.field? name = some spec ∧ ∃ token, spec.type.encode value = .ok token

/-- Values fit in part exactly when each entry's value can be written in the type of its field. -/
theorem fitsPartly_iff :
    definition.FitsPartly values ↔ ∀ entry ∈ values.entries,
      (definition.field? entry.1).any (fun spec => (spec.type.encode entry.2).isOk) = true := by
  have one (name : String) (value : Value) :
      (definition.field? name).any (fun spec => (spec.type.encode value).isOk) = true ↔
        ∃ spec, definition.field? name = some spec ∧
          ∃ token, spec.type.encode value = .ok token := by
    cases definition.field? name with
    | none => simp
    | some spec => simp [isOk_iff]
  simp only [FitsPartly, one, OrderedMap.get?_eq_some, Prod.forall]

instance : Decidable (definition.FitsPartly values) := decidable_of_iff' _ fitsPartly_iff

/-- Entries that can be written fit in part when they are put one after the other. -/
theorem fitsPartly_insertAll {entries : List (String × Value)}
    (each : ∀ name value, (name, value) ∈ entries →
      ∃ spec, definition.field? name = some spec ∧ ∃ token, spec.type.encode value = .ok token) :
    definition.FitsPartly (OrderedMap.empty.insertAll entries) := by
  intro name value held
  -- Nothing stood under the name before, so the value is that of one of the entries.
  rcases OrderedMap.mem_of_get?_insertAll held with listed | before
  · exact each name value listed
  · cases before

/-- The names are those of the declared fields, and every value can be written in its type. -/
structure Fits (definition : Definition) (values : FieldMap) : Prop where
  /-- Exactly the declared fields have values. -/
  names : ∀ name, name ∈ values.keys ↔ name ∈ definition.fieldNames
  /-- Each value can be written in the type of its field. -/
  written : definition.FitsPartly values

instance : Decidable (definition.Fits values) :=
  decidable_of_iff
    (((∀ name ∈ values.keys, name ∈ definition.fieldNames) ∧
      ∀ name ∈ definition.fieldNames, name ∈ values.keys) ∧ definition.FitsPartly values)
    ⟨fun ⟨⟨there, back⟩, written⟩ => ⟨fun name => ⟨there name, back name⟩, written⟩,
      fun ⟨names, written⟩ =>
        ⟨⟨fun name => (names name).mp, fun name => (names name).mpr⟩, written⟩⟩

/-- The values of a block, put in another order than the fields are declared in. -/
def blockValues : FieldMap :=
  ((OrderedMap.empty.insert "height" (.uint 18446744073709551615)).insert "producer"
    (.ofIdentifier (.replicate 0xab))).insert "da_height" (.uint 0)

/-- The segment is written as the token. -/
def Writes (definition : Definition) (values : FieldMap) (mode : BuildMode) (segment : Segment)
    (token : String) : Prop :=
  definition.writeSegment values mode segment = .ok token

/-- A segment's token is written for a placeholder exactly when the field is declared and its value,
or its absence in a pattern, gives the token. -/
theorem writes_placeholder {name token : String} :
    definition.Writes values mode (.placeholder name) token ↔
      ∃ spec, definition.field? name = some spec ∧
        ((∃ value, values.get? name = some value ∧ spec.type.encode value = .ok token) ∨
          (values.get? name = none ∧ mode = .pattern ∧ token = singleWildcard)) := by
  simp only [Writes, writeSegment]
  cases definition.field? name with
  | none => simp
  | some spec =>
    -- A value is written; its absence is an open field or a fault.
    cases held : values.get? name with
    | some value => cases written : spec.type.encode value <;> simp [written]
    | none => cases mode <;> simp [eq_comm]

/-- The token of a placeholder in a topic is the writing of its value. -/
theorem writes_topic {name token : String} :
    definition.Writes values .topic (.placeholder name) token ↔
      ∃ spec value, definition.field? name = some spec ∧ values.get? name = some value ∧
        spec.type.encode value = .ok token := by
  rw [writes_placeholder]
  constructor
  · -- A topic leaves no field open.
    rintro ⟨spec, declared, ⟨value, held, written⟩ | ⟨_, topic, _⟩⟩
    · exact ⟨spec, value, declared, held, written⟩
    · cases topic
  · rintro ⟨spec, value, declared, held, written⟩
    exact ⟨spec, declared, Or.inl ⟨value, held, written⟩⟩

/-- The token of a literal is its text. -/
@[simp] theorem writes_literal {text token : String} :
    definition.Writes values mode (.literal text) token ↔ token = text := by
  simp [Writes, writeSegment, eq_comm]

/-- A segment is written as one token only. -/
theorem Writes.unique {segment : Segment} {first second : String}
    (wrote : definition.Writes values mode segment first)
    (wrote' : definition.Writes values mode segment second) : first = second :=
  Except.ok.inj (wrote.symm.trans wrote')

/-- Segments are written exactly when each of them is. -/
theorem writeSegments_eq_ok {segments : List Segment} {parts : List String} :
    definition.writeSegments values mode segments = .ok parts ↔
      List.Forall₂ (definition.Writes values mode) segments parts := by
  induction segments generalizing parts with
  | nil => simp [writeSegments, eq_comm]
  | cons segment rest ih =>
    rw [writeSegments, List.forall₂_cons_left_iff]
    -- Neither the first token nor the rest may stop the walk.
    cases first : definition.writeSegment values mode segment with
    | error error => simp [Writes, first]
    | ok token =>
      simp only [Writes, first, Except.ok.injEq, ← ih]
      cases others : definition.writeSegments values mode rest with
      | error error => simp
      | ok more => simp [eq_comm]

/-- Behind literals, segments are written exactly when the literals come first. -/
theorem written_literals_append {lead : List String} {segments : List Segment}
    {parts : List String} :
    List.Forall₂ (definition.Writes values mode) (lead.map Segment.literal ++ segments) parts ↔
      ∃ more, parts = lead ++ more ∧ List.Forall₂ (definition.Writes values mode) segments more := by
  induction lead generalizing parts with
  | nil => simp
  | cons text rest ih =>
    -- The first token is the first literal, and behind it the same holds again.
    rw [List.map_cons, List.cons_append, List.forall₂_cons_left_iff]
    simp only [writes_literal, ih]
    constructor
    · rintro ⟨_, _, rfl, ⟨more, rfl, written⟩, rfl⟩
      exact ⟨more, rfl, written⟩
    · rintro ⟨more, rfl, written⟩
      exact ⟨text, rest ++ more, rfl, ⟨more, rfl, written⟩, rfl⟩

/-- What is written has any property that the literal, the tokens of values and the wildcard of one
token have. -/
theorem Writes.satisfies {P : String → Prop} {segment : Segment} {token : String}
    (wrote : definition.Writes values mode segment token)
    (literal : ∀ text, segment = .literal text → P text)
    (written : ∀ {type : FieldType} {value : Value} {token : String},
      type.encode value = .ok token → P token)
    (single : P singleWildcard) : P token := by
  cases segment with
  | literal text =>
    rw [writes_literal.mp wrote]
    exact literal text rfl
  | placeholder name =>
    -- A field is written with its value or left open.
    obtain ⟨spec, -, ⟨value, -, encoded⟩ | ⟨-, -, rfl⟩⟩ := writes_placeholder.mp wrote
    · exact written encoded
    · exact single

/-- No written token falls apart into more. -/
theorem Writes.free {segment : Segment} {token : String}
    (member : segment ∈ definition.segments)
    (written : definition.Writes values mode segment token) :
    separator ∉ token.toList := by
  refine written.satisfies (fun text same => ?_) FieldType.separator_not_mem_encode (by decide)
  -- A literal is a token of the format.
  subst same
  exact text_free_of_mem_segments member

/-- Every name is declared exactly when no undeclared one is found. -/
theorem firstUndeclared?_eq_none {names : List String} :
    definition.firstUndeclared? names = none ↔ ∀ name ∈ names, name ∈ definition.fieldNames := by
  -- A name is undeclared exactly when no field is found under it.
  simp only [firstUndeclared?, List.find?_eq_none, field?_isNone, not_not]

/-- A text is built from values exactly when their names are declared and its tokens are written
segment by segment. -/
theorem build_eq_ok {text : String} :
    definition.build values mode = .ok text ↔
      (∀ name ∈ values.keys, name ∈ definition.fieldNames) ∧
        List.Forall₂ (definition.Writes values mode) definition.segments (tokens text) := by
  rw [build, ← firstUndeclared?_eq_none]
  cases names : definition.firstUndeclared? values.keys with
  | some name => simp
  | none =>
    simp only [true_and, ← writeSegments_eq_ok]
    constructor
    · intro built
      cases parts : definition.writeSegments values mode definition.segments with
      | error error => simp [parts, Except.map] at built
      | ok written =>
        simp only [parts, Except.map, Except.ok.injEq] at built
        subst built
        have each := writeSegments_eq_ok.mp parts
        -- No token falls apart, so the text has the tokens that it was joined from.
        rw [tokens_joinTokens]
        · intro none
          rw [none, List.forall₂_nil_right_iff] at each
          exact definition.segments_ne_nil each
        · intro part listed
          obtain ⟨segment, member, wrote⟩ := exists_mem_of_forall₂ each listed
          exact wrote.free member
    · intro written
      simp [written, Except.map, joinTokens_tokens]

/-- The tokens of what is built have any property that the literals, the tokens of values and the
wildcard of one token have. -/
theorem satisfies_of_build {P : String → Prop} {text : String}
    (built : definition.build values mode = .ok text)
    (literal : ∀ text, .literal text ∈ definition.segments → P text)
    (written : ∀ {type : FieldType} {value : Value} {token : String},
      type.encode value = .ok token → P token)
    (single : P singleWildcard) : ∀ token ∈ tokens text, P token := by
  intro token member
  obtain ⟨segment, listed, wrote⟩ := exists_mem_of_forall₂ (build_eq_ok.mp built).2 member
  exact wrote.satisfies (fun text same => literal text (same ▸ listed)) written single

/-- Fitting values have declared names. -/
theorem FitsPartly.declared (fits : definition.FitsPartly values) :
    ∀ name ∈ values.keys, name ∈ definition.fieldNames := by
  intro name member
  -- A listed name has a value, and each value has a field.
  obtain ⟨value, held⟩ := OrderedMap.exists_of_mem_keys member
  obtain ⟨spec, found, -⟩ := fits name value held
  exact (field?_isSome name).mp (by simp [found])

/-- Values with declared names build the text of the tokens that the segments are written as. -/
theorem build_joinTokens {parts : List String}
    (names : ∀ name ∈ values.keys, name ∈ definition.fieldNames)
    (written : List.Forall₂ (definition.Writes values mode) definition.segments parts) :
    definition.build values mode = .ok (joinTokens parts) := by
  simp [build, firstUndeclared?_eq_none.mpr names, writeSegments_eq_ok.mpr written, Except.map]

/-- Values with declared names build a text where each segment can be written. -/
theorem exists_build (names : ∀ name ∈ values.keys, name ∈ definition.fieldNames)
    (each : ∀ segment ∈ definition.segments, ∃ token,
      definition.Writes values mode segment token) :
    ∃ text, definition.build values mode = .ok text := by
  obtain ⟨parts, written⟩ := exists_forall₂_iff.mpr each
  exact ⟨joinTokens parts, build_joinTokens names written⟩

/-- A well-formed definition has a pattern for any values that fit. -/
theorem WellFormed.build_pattern (formed : definition.WellFormed)
    (fits : definition.FitsPartly values) :
    ∃ pattern, definition.build values .pattern = .ok pattern := by
  refine exists_build fits.declared fun segment member => ?_
  cases segment with
  | literal text => exact ⟨text, rfl⟩
  | placeholder name =>
    -- A field is written with its value, or left open without one.
    cases held : values.get? name with
    | some value =>
      obtain ⟨spec, found, token, written⟩ := fits name value held
      exact ⟨token, writes_placeholder.mpr ⟨spec, found, Or.inl ⟨value, held, written⟩⟩⟩
    | none =>
      obtain ⟨spec, found⟩ := formed.declared member
      exact ⟨singleWildcard, writes_placeholder.mpr ⟨spec, found, Or.inr ⟨held, rfl, rfl⟩⟩⟩

/-- What builds anything fits in part: each of its names is placed, and was written with its
value. -/
theorem WellFormed.fitsPartly_of_build (formed : definition.WellFormed) {text : String}
    (built : definition.build values mode = .ok text) : definition.FitsPartly values := by
  obtain ⟨names, written⟩ := build_eq_ok.mp built
  intro name value held
  have placed : Segment.placeholder name ∈ definition.segments := by
    rw [← mem_placeholders, formed.placed]
    exact names name ((values.get?_isSome name).mp (by simp [held]))
  obtain ⟨token, wrote⟩ := exists_forall₂_iff.mp ⟨_, written⟩ _ placed
  obtain ⟨spec, declared, ⟨other, found, encoded⟩ | ⟨absent, -, -⟩⟩ := writes_placeholder.mp wrote
  · cases held.symm.trans found
    exact ⟨spec, declared, token, encoded⟩
  · cases held.symm.trans absent

/-- A well-formed definition has a topic for values that fit and leave no field open. -/
theorem WellFormed.build_topic (formed : definition.WellFormed) (fits : definition.Fits values) :
    ∃ topic, definition.build values .topic = .ok topic := by
  refine exists_build fits.written.declared fun segment member => ?_
  cases segment with
  | literal text => exact ⟨text, rfl⟩
  | placeholder name =>
    -- Each placed field is declared, so it has a value.
    have placed : name ∈ values.keys := by
      rw [fits.names, ← formed.placed]
      exact mem_placeholders.mpr member
    obtain ⟨value, held⟩ := OrderedMap.exists_of_mem_keys placed
    obtain ⟨spec, found, token, written⟩ := fits.written name value held
    exact ⟨token, writes_topic.mpr ⟨spec, value, found, held, written⟩⟩

/-- A text is built again from other values, or in the other mode, where each placeholder is written
as before. -/
theorem build_of_writes {first second : FieldMap} {mode mode' : BuildMode} {text : String}
    (names : ∀ name ∈ second.keys, name ∈ definition.fieldNames)
    (each : ∀ name token, definition.Writes first mode (.placeholder name) token →
      definition.Writes second mode' (.placeholder name) token)
    (built : definition.build first mode = .ok text) :
    definition.build second mode' = .ok text := by
  refine build_eq_ok.mpr ⟨names, (build_eq_ok.mp built).2.imp fun segment token wrote => ?_⟩
  cases segment with
  | literal text => exact writes_literal.mpr (writes_literal.mp wrote)
  | placeholder name => exact each name token wrote

/-- Texts are built from what stands under the names and not from their order. -/
theorem build_congr {first second : FieldMap} {text : String}
    (same : ∀ name, first.get? name = second.get? name)
    (built : definition.build first mode = .ok text) :
    definition.build second mode = .ok text := by
  refine build_of_writes (fun name member => ?_) (fun name token wrote => ?_) built
  · exact (build_eq_ok.mp built).1 name ((OrderedMap.mem_keys_of_get? same name).mpr member)
  · -- A segment is written from one look-up at most.
    rw [writes_placeholder] at wrote ⊢
    rw [← same name]
    exact wrote

end Definition

end Topics
