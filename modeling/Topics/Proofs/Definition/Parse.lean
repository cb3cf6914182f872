import Topics.Definition.Parse
import Topics.Proofs.Definition.WellFormed
import Topics.Proofs.OrderedMap

/-! Reading a topic succeeds exactly when each token fits the segment in its place. -/

namespace Topics.Definition

/-- Tokens that fit segments one by one, with the values of the placeholders. -/
inductive Reads (definition : Definition) :
    List Segment → List String → List (String × Value) → Prop where
  | nil : Reads definition [] [] []
  /-- A literal stands for itself and has no value. -/
  | literal {segments : List Segment} {parts : List String} {entries : List (String × Value)}
      (text : String) (rest : Reads definition segments parts entries) :
      Reads definition (.literal text :: segments) (text :: parts) entries
  /-- A placeholder's token is read in the type of its field. -/
  | placeholder {segments : List Segment} {parts : List String} {entries : List (String × Value)}
      {name token : String} {spec : FieldSpec} {value : Value}
      (declared : definition.field? name = some spec) (read : spec.type.decode token = .ok value)
      (rest : Reads definition segments parts entries) :
      Reads definition (.placeholder name :: segments) (token :: parts) ((name, value) :: entries)

variable {definition : Definition} {segments : List Segment} {parts : List String}
  {entries : List (String × Value)}

/-- There is a value for each placeholder, in the order of the format. -/
theorem Reads.names (reads : definition.Reads segments parts entries) :
    entries.map Prod.fst = segments.filterMap Segment.name? := by
  induction reads with
  | nil => rfl
  | literal text rest ih => exact ih
  | placeholder declared read rest ih => simpa [Segment.name?] using ih

/-- There is a token for each segment. -/
theorem Reads.length (reads : definition.Reads segments parts entries) :
    segments.length = parts.length := by
  induction reads with
  | nil => rfl
  | literal text rest ih => simp [ih]
  | placeholder declared read rest ih => simp [ih]

/-- A topic starts with the literals before the first placeholder. -/
theorem Reads.leading (reads : definition.Reads segments parts entries) :
    literalRun segments <+: parts := by
  induction reads with
  | nil => exact List.nil_prefix
  | literal text rest ih => exact (List.prefix_cons_inj text).mpr ih
  | placeholder declared read rest ih => exact List.nil_prefix

/-- Tokens are read the same way by a definition whose fields of these names have the same types. -/
theorem Reads.of_types {other : Definition} (reads : definition.Reads segments parts entries)
    (types : ∀ name, .placeholder name ∈ segments →
      (other.field? name).map FieldSpec.type = (definition.field? name).map FieldSpec.type) :
    other.Reads segments parts entries := by
  induction reads with
  | nil => exact .nil
  | literal text rest ih =>
    exact .literal text (ih fun name member => types name (by simp [member]))
  | @placeholder segments parts entries name token spec value declared read rest ih =>
    -- Only the type of a field decides how its token is read.
    have type := types name (by simp)
    rw [declared, Option.map_some, Option.map_eq_some_iff] at type
    obtain ⟨spec', declared', same⟩ := type
    exact .placeholder declared' (same ▸ read)
      (ih fun name member => types name (by simp [member]))

/-- A literal and its token are read exactly when they are the same. -/
theorem readTokens_literal {position : Nat} {text token : String}
    {pairs : List (Segment × String)} {values fields : FieldMap} :
    definition.readTokens position ((.literal text, token) :: pairs) values = .ok fields ↔
      text = token ∧ definition.readTokens (position + 1) pairs values = .ok fields := by
  by_cases same : text = token <;> simp [readTokens, same]

/-- A placeholder and its token are read exactly when the token is one of a value of the field,
which is then put under the field's name. -/
theorem readTokens_placeholder {position : Nat} {name token : String}
    {pairs : List (Segment × String)} {values fields : FieldMap} :
    definition.readTokens position ((.placeholder name, token) :: pairs) values = .ok fields ↔
      ∃ spec value, definition.field? name = some spec ∧ spec.type.decode token = .ok value ∧
        definition.readTokens (position + 1) pairs (values.insert name value) = .ok fields := by
  simp only [readTokens]
  cases definition.field? name with
  | none => simp
  | some spec => cases read : spec.type.decode token <;> simp [read]

/-- Behind a literal the rest is read. -/
theorem reads_literal {text token : String} :
    definition.Reads (.literal text :: segments) (token :: parts) entries ↔
      text = token ∧ definition.Reads segments parts entries := by
  constructor
  · intro reads
    cases reads with
    | literal text rest => exact ⟨rfl, rest⟩
  · rintro ⟨rfl, rest⟩
    exact .literal text rest

/-- Behind literals, tokens are read exactly when the literals come first, which have no values. -/
theorem reads_literals_append {lead : List String} :
    definition.Reads (lead.map Segment.literal ++ segments) parts entries ↔
      ∃ more, parts = lead ++ more ∧ definition.Reads segments more entries := by
  induction lead generalizing parts with
  | nil => simp
  | cons text rest ih =>
    rw [List.map_cons, List.cons_append]
    constructor
    · intro reads
      -- The first token is the first literal, and behind it the same holds again.
      cases reads with
      | literal _ others =>
        obtain ⟨more, rfl, reads⟩ := ih.mp others
        exact ⟨more, rfl, reads⟩
    · rintro ⟨more, rfl, reads⟩
      exact .literal text (ih.mpr ⟨more, rfl, reads⟩)

/-- Behind a placeholder's value the rest is read. -/
theorem reads_placeholder {name token : String} :
    definition.Reads (.placeholder name :: segments) (token :: parts) entries ↔
      ∃ spec value rest, definition.field? name = some spec ∧ spec.type.decode token = .ok value ∧
        entries = (name, value) :: rest ∧ definition.Reads segments parts rest := by
  constructor
  · intro reads
    cases reads with
    | placeholder declared read rest => exact ⟨_, _, _, declared, read, rfl, rest⟩
  · rintro ⟨spec, value, rest, declared, read, rfl, reads⟩
    exact .placeholder declared read reads

/-- Pairs of segments and tokens are read exactly when each token fits, and then their values come
behind those read before. -/
theorem readTokens_eq_ok {position : Nat} {values fields : FieldMap}
    (paired : segments.length = parts.length)
    (fresh : ∀ name ∈ segments.filterMap Segment.name?, name ∉ values.keys)
    (distinct : (segments.filterMap Segment.name?).Nodup) :
    definition.readTokens position (segments.zip parts) values = .ok fields ↔
      ∃ entries, definition.Reads segments parts entries ∧
        fields.entries = values.entries ++ entries := by
  -- The values read before change with each placeholder, so they are kept general.
  induction segments generalizing parts position values with
  | nil =>
    obtain rfl : parts = [] := List.length_eq_zero_iff.mp paired.symm
    simp only [List.zip_nil_right, readTokens, Except.ok.injEq]
    constructor
    · rintro rfl
      exact ⟨[], .nil, by simp⟩
    · rintro ⟨entries, reads, same⟩
      cases reads
      exact OrderedMap.ext (by simpa using same.symm)
  | cons segment rest ih =>
    obtain ⟨token, more, rfl⟩ := List.exists_cons_of_length_eq_add_one paired.symm
    replace paired : rest.length = more.length := by simpa using paired
    rw [List.zip_cons_cons]
    cases segment with
    | literal text =>
      -- A literal has no value, so the values read before are those of the rest.
      rw [readTokens_literal, ih paired fresh distinct]
      simp only [reads_literal, and_assoc, exists_and_left]
    | placeholder name =>
      simp only [List.filterMap_cons, Segment.name?, List.nodup_cons, List.mem_cons,
        forall_eq_or_imp] at fresh distinct
      -- The name is new when its turn comes, so its value is put last.
      have put (value : Value) :
          (values.insert name value).entries = values.entries ++ [(name, value)] :=
        putEntry_fresh fresh.1
      -- The names of the rest are still new after that.
      have later (value : Value) : ∀ other ∈ rest.filterMap Segment.name?,
          other ∉ (values.insert name value).keys := by
        intro other member listed
        rw [OrderedMap.keys, put, List.map_append, List.mem_append] at listed
        rcases listed with before | last
        · exact fresh.2 other member before
        · obtain rfl : other = name := by simpa using last
          exact distinct.1 member
      rw [readTokens_placeholder]
      simp only [reads_placeholder, ih paired (later _) distinct.2, put]
      constructor
      · rintro ⟨spec, value, declared, read, entries, reads, shape⟩
        exact ⟨(name, value) :: entries, ⟨spec, value, entries, declared, read, rfl, reads⟩,
          by simpa using shape⟩
      · rintro ⟨_, ⟨spec, value, entries, declared, read, rfl, reads⟩, shape⟩
        exact ⟨spec, value, declared, read, entries, reads, by simpa using shape⟩

/-- A well-formed definition reads a topic exactly when each token fits, and then the values stand
in the order of the format. -/
theorem WellFormed.parse_eq_ok (formed : definition.WellFormed) {topic : String}
    {fields : FieldMap} :
    definition.parse topic = .ok fields ↔
      definition.Reads definition.segments (tokens topic) fields.entries := by
  have distinct : definition.placeholders.Nodup := formed.placed ▸ formed.distinct
  simp only [parse, ← length_segments]
  by_cases paired : definition.segments.length = (tokens topic).length
  · rw [if_neg (by simpa using paired),
      readTokens_eq_ok paired (by simp [OrderedMap.keys, OrderedMap.empty]) distinct]
    simp [OrderedMap.empty]
  · rw [if_pos paired]
    simp only [reduceCtorEq, false_iff]
    exact fun reads => paired reads.length

/-- A topic whose tokens fit is read into their values under the names of the fields. -/
theorem WellFormed.parse_of_reads (formed : definition.WellFormed) {topic : String}
    (reads : definition.Reads definition.segments (tokens topic) entries) :
    ∃ fields, definition.parse topic = .ok fields ∧ fields.entries = entries := by
  -- The fields are placed in order, so no name is read twice.
  have listed : entries.map Prod.fst = definition.fieldNames := reads.names.trans formed.placed
  exact ⟨⟨entries, listed ▸ formed.distinct⟩, formed.parse_eq_ok.mpr reads, rfl⟩

/-- The values of a topic are listed in the order in which the fields are declared. -/
theorem WellFormed.keys_of_parse (formed : definition.WellFormed) {topic : String}
    {fields : FieldMap} (parsed : definition.parse topic = .ok fields) :
    fields.keys = definition.fieldNames := by
  rw [← formed.placed]
  exact (formed.parse_eq_ok.mp parsed).names

/-- A topic that can be parsed starts with the leading literals of its definition. -/
theorem WellFormed.leading_of_parse (formed : definition.WellFormed) {topic : String}
    {fields : FieldMap} (parsed : definition.parse topic = .ok fields) :
    definition.leadingLiterals <+: tokens topic :=
  (formed.parse_eq_ok.mp parsed).leading

/-- A topic that can be parsed has as many tokens as its definition has segments. -/
theorem WellFormed.length_of_parse (formed : definition.WellFormed) {topic : String}
    {fields : FieldMap} (parsed : definition.parse topic = .ok fields) :
    (tokens topic).length = definition.segmentCount := by
  rw [← length_segments]
  exact (formed.parse_eq_ok.mp parsed).length.symm

end Topics.Definition
