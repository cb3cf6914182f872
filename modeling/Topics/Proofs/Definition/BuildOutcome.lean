import Topics.Proofs.Definition.Build

/-! What building gives for any values: a name without a field is refused first, in the order of the
values, and then the leftmost placeholder for which nothing can be written. A topic and a pattern
from the same values differ only where a field is left open. -/

namespace Topics

section First

variable {α : Type u} {p : α → Prop} {x y : α} {xs : List α}

/-- The first member of a list that has a property. -/
structure IsFirst (p : α → Prop) (xs : List α) (x : α) : Prop where
  /-- It has the property. -/
  holds : p x
  /-- No member in front of it has the property. -/
  divides : ∃ front back, xs = front ++ x :: back ∧ ∀ y ∈ front, ¬ p y

/-- The first member with a property is a member. -/
theorem IsFirst.mem (first : IsFirst p xs x) : x ∈ xs := by
  obtain ⟨-, front, back, rfl, -⟩ := first
  simp

/-- The first one of a longer list is its head, or the first one behind it. -/
theorem isFirst_cons : IsFirst p (y :: xs) x ↔ (p y ∧ x = y) ∨ (¬ p y ∧ IsFirst p xs x) := by
  -- It is the head exactly when nothing stands in front of it.
  constructor
  · rintro ⟨holds, front, back, split, others⟩
    cases front with
    | nil =>
      obtain ⟨rfl, rfl⟩ : y = x ∧ xs = back := by simpa using split
      exact Or.inl ⟨holds, rfl⟩
    | cons head front =>
      obtain ⟨rfl, rfl⟩ : y = head ∧ xs = front ++ x :: back := by simpa using split
      exact Or.inr ⟨others y (by simp), holds, front, back, rfl,
        fun other member => others other (by simp [member])⟩
  · rintro (⟨holds, rfl⟩ | ⟨other, holds, front, back, rfl, others⟩)
    · exact ⟨holds, [], xs, rfl, by simp⟩
    · exact ⟨holds, y :: front, back, rfl, by simpa using ⟨other, others⟩⟩

/-- There is a first member with a property exactly when there is any. -/
theorem exists_isFirst_iff : (∃ x, IsFirst p xs x) ↔ ∃ x ∈ xs, p x := by
  constructor
  · rintro ⟨x, first⟩
    exact ⟨x, first.mem, first.holds⟩
  · intro some_member
    induction xs with
    | nil => simp at some_member
    | cons y rest ih =>
      by_cases holds : p y
      · exact ⟨y, isFirst_cons.mpr (Or.inl ⟨holds, rfl⟩)⟩
      · -- Without the property in front, the member is one of the others.
        obtain ⟨x, first⟩ := ih (by simpa [holds] using some_member)
        exact ⟨x, isFirst_cons.mpr (Or.inr ⟨holds, first⟩)⟩

end First

namespace Definition

variable {definition : Definition} {values : FieldMap} {mode : BuildMode}
  {segments : List Segment} {name text : String} {error : TopicError}

/-- Why nothing can be written in the place of a field. -/
inductive Unwritable (definition : Definition) (values : FieldMap) :
    BuildMode → String → TopicError → Prop where
  /-- The value cannot be written in the type of the field. -/
  | refused {mode : BuildMode} {name : String} {spec : FieldSpec} {value : Value}
      {cause : FieldError} (declared : definition.field? name = some spec)
      (held : values.get? name = some value) (refused : spec.type.encode value = .error cause) :
      Unwritable definition values mode name (.invalidField name cause)
  /-- There is no value, which a topic needs. -/
  | missing {name : String} (absent : values.get? name = none) :
      Unwritable definition values .topic name (.missingField name)

/-- Nothing can be written in the place of the field. -/
def Stuck (definition : Definition) (values : FieldMap) (mode : BuildMode) (name : String) : Prop :=
  ∃ error, definition.Unwritable values mode name error

/-- In the place of a declared field, the walk stops exactly where nothing can be written. -/
theorem writeSegment_eq_error {spec : FieldSpec} (declared : definition.field? name = some spec) :
    definition.writeSegment values mode (.placeholder name) = .error error ↔
      definition.Unwritable values mode name error := by
  constructor
  · intro stopped
    simp only [writeSegment, declared] at stopped
    cases held : values.get? name with
    | some value =>
      cases written : spec.type.encode value with
      | ok token => simp [held, written] at stopped
      | error cause =>
        simp only [held, written, Except.error.injEq] at stopped
        subst stopped
        exact .refused declared held written
    | none =>
      -- Only a topic needs a value.
      cases mode with
      | pattern => simp [held] at stopped
      | topic =>
        simp only [held, Except.error.injEq] at stopped
        subst stopped
        exact .missing held
  · intro unwritable
    cases unwritable with
    | refused declared held refused => simp [writeSegment, declared, held, refused]
    | missing absent => simp [writeSegment, declared, absent]

/-- Nothing can be written in the place of a declared field exactly where the walk stops. -/
theorem stuck_iff {spec : FieldSpec} (declared : definition.field? name = some spec) :
    definition.Stuck values mode name ↔
      ∃ error, definition.writeSegment values mode (.placeholder name) = .error error := by
  simp only [Stuck, writeSegment_eq_error declared]

/-- Segments with declared fields are refused exactly for the leftmost placeholder in whose place
nothing can be written. -/
theorem writeSegments_eq_error
    (declared : ∀ name, .placeholder name ∈ segments → ∃ spec, definition.field? name = some spec) :
    definition.writeSegments values mode segments = .error error ↔
      ∃ name, IsFirst (definition.Stuck values mode) (segments.filterMap Segment.name?) name ∧
        definition.Unwritable values mode name error := by
  -- The walk looks at the segments in the order in which the first placeholder is looked for.
  induction segments with
  | nil =>
    simp only [writeSegments, reduceCtorEq, List.filterMap_nil, false_iff]
    rintro ⟨name, first, -⟩
    cases first.mem
  | cons segment rest ih =>
    have behind := ih fun name member => declared name (by simp [member])
    cases segment with
    | literal text =>
      -- A literal is always written, and it has no name.
      rw [List.filterMap_cons_none rfl, ← behind, writeSegments, writeSegment]
      cases definition.writeSegments values mode rest <;> simp
    | placeholder name =>
      obtain ⟨spec, found⟩ := declared name (by simp)
      simp only [List.filterMap_cons, Segment.name?, isFirst_cons, stuck_iff found]
      rw [writeSegments]
      cases wrote : definition.writeSegment values mode (.placeholder name) with
      | error cause =>
        -- This placeholder is the first one, and its own error is reported.
        simp [← writeSegment_eq_error found, wrote]
      | ok token =>
        -- Where a token is written, the walk goes on behind it.
        simp only [reduceCtorEq, exists_false, false_and, not_false_eq_true, true_and, false_or,
          ← behind]
        cases definition.writeSegments values mode rest <;> simp

/-- The first undeclared name is the first one that is no declared field's. -/
theorem firstUndeclared?_eq_some {names : List String} :
    definition.firstUndeclared? names = some name ↔
      IsFirst (· ∉ definition.fieldNames) names name := by
  -- A name is undeclared exactly when no field is found under it.
  rw [firstUndeclared?, List.find?_eq_some_iff_append]
  simp only [field?_isNone, Bool.not_eq_true', ← Bool.not_eq_true]
  constructor
  · rintro ⟨holds, divides⟩
    exact ⟨holds, divides⟩
  · rintro ⟨holds, divides⟩
    exact ⟨holds, divides⟩

/-- Where a name has no field, the first such name is refused in both modes. -/
theorem build_of_undeclared (undeclared : ∃ name ∈ values.keys, name ∉ definition.fieldNames) :
    ∃ name, IsFirst (· ∉ definition.fieldNames) values.keys name ∧
      ∀ mode, definition.build values mode = .error (.unknownField definition.id name) := by
  obtain ⟨name, first⟩ := exists_isFirst_iff.mpr undeclared
  refine ⟨name, first, fun mode => ?_⟩
  rw [build, firstUndeclared?_eq_some.mpr first]

/-- Where all names are declared, the leftmost placeholder in whose place nothing can be written is
refused. -/
theorem WellFormed.build_eq_error (formed : definition.WellFormed)
    (names : ∀ name ∈ values.keys, name ∈ definition.fieldNames) :
    definition.build values mode = .error error ↔
      ∃ name, IsFirst (definition.Stuck values mode) definition.placeholders name ∧
        definition.Unwritable values mode name error := by
  rw [placeholders, ← writeSegments_eq_error fun _ => formed.declared, build,
    firstUndeclared?_eq_none.mpr names]
  cases definition.writeSegments values mode definition.segments <;> simp [Except.map]

/-- Where all names are declared, building fails exactly when nothing can be written in the place of
some placeholder. -/
theorem WellFormed.exists_build_error_iff (formed : definition.WellFormed)
    (names : ∀ name ∈ values.keys, name ∈ definition.fieldNames) :
    (∃ error, definition.build values mode = .error error) ↔
      ∃ name ∈ definition.placeholders, definition.Stuck values mode name := by
  simp only [formed.build_eq_error names, ← exists_isFirst_iff]
  constructor
  · rintro ⟨error, name, first, -⟩
    exact ⟨name, first⟩
  · rintro ⟨name, first⟩
    obtain ⟨error, unwritable⟩ := first.holds
    exact ⟨error, name, first, unwritable⟩

/-- A topic is also the pattern from the same values. -/
theorem build_pattern_of_topic (built : definition.build values .topic = .ok text) :
    definition.build values .pattern = .ok text := by
  refine build_of_writes (build_eq_ok.mp built).1 (fun name token wrote => ?_) built
  -- Each value is written alike in both modes.
  obtain ⟨spec, value, declared, held, encoded⟩ := writes_topic.mp wrote
  exact writes_placeholder.mpr ⟨spec, declared, Or.inl ⟨value, held, encoded⟩⟩

/-- From values that give a pattern, a topic fails only for the leftmost field without a value. -/
theorem WellFormed.build_topic_of_pattern (formed : definition.WellFormed)
    (built : definition.build values .pattern = .ok text) :
    definition.build values .topic = .ok text ∨
      ∃ name, IsFirst (values.get? · = none) definition.placeholders name ∧
        definition.build values .topic = .error (.missingField name) := by
  cases strict : definition.build values .topic with
  | ok other =>
    -- What a topic is built as, the pattern is built as too.
    rw [build_pattern_of_topic strict] at built
    exact Or.inl built
  | error error =>
    have names := (build_eq_ok.mp built).1
    obtain ⟨name, first, unwritable⟩ := (formed.build_eq_error names).mp strict
    cases unwritable with
    | refused declared held refused =>
      -- The value would stop the pattern as well.
      have stuck : definition.Stuck values .pattern name := ⟨_, .refused declared held refused⟩
      obtain ⟨cause, failed⟩ :=
        (formed.exists_build_error_iff names).mpr ⟨name, first.mem, stuck⟩
      rw [built] at failed
      cases failed
    | missing absent =>
      obtain ⟨-, front, back, split, others⟩ := first
      refine Or.inr ⟨name, ⟨absent, front, back, split, fun other member open_ => ?_⟩, rfl⟩
      exact others other member ⟨_, .missing open_⟩

/-- From values with a name that has no field, neither a topic nor a pattern is built, and the first
such name is refused. From all other values each of the two is refused exactly when there is a
placeholder whose value cannot be written or, for a topic, is missing, and for the leftmost of them.
So a topic is the pattern from the same values, and values that give a pattern also give the topic,
unless the leftmost field without a value is missing in it. -/
theorem build_outcome (checked : definition.check = .ok ()) (values : FieldMap) :
    ((∃ name ∈ values.keys, name ∉ definition.fieldNames) →
      ∃ name, IsFirst (· ∉ definition.fieldNames) values.keys name ∧
        ∀ mode, definition.build values mode = .error (.unknownField definition.id name)) ∧
    ((∀ name ∈ values.keys, name ∈ definition.fieldNames) → ∀ mode,
      ((∃ error, definition.build values mode = .error error) ↔
        ∃ name ∈ definition.placeholders, definition.Stuck values mode name) ∧
      ∀ error, definition.build values mode = .error error ↔
        ∃ name, IsFirst (definition.Stuck values mode) definition.placeholders name ∧
          definition.Unwritable values mode name error) ∧
    (∀ text, definition.build values .topic = .ok text →
      definition.build values .pattern = .ok text) ∧
    ∀ text, definition.build values .pattern = .ok text →
      definition.build values .topic = .ok text ∨
        ∃ name, IsFirst (values.get? · = none) definition.placeholders name ∧
          definition.build values .topic = .error (.missingField name) := by
  have formed := check_eq_ok.mp checked
  exact ⟨build_of_undeclared,
    fun names _ => ⟨formed.exists_build_error_iff names, fun _ => formed.build_eq_error names⟩,
    fun _ => build_pattern_of_topic, fun _ => formed.build_topic_of_pattern⟩

/-- From an ill-typed status alone, a topic is refused for the field in front, which has no value,
and a pattern for the status. -/
theorem build_outcome_status :
    let values : FieldMap := OrderedMap.empty.insert "tx_status" (.uint 1)
    Builtin.transactions.check = .ok () ∧
      (∀ name ∈ values.keys, name ∈ Builtin.transactions.fieldNames) ∧
      Builtin.transactions.build values .topic = .error (.missingField "block_height") ∧
      Builtin.transactions.build values .pattern =
        .error (.invalidField "tx_status" (.typeMismatch "TransactionStatus" "uint")) := by
  intro values
  have checked : Builtin.transactions.check = .ok () := check_family (by decide +kernel)
  have names : ∀ name ∈ values.keys, name ∈ Builtin.transactions.fieldNames := by decide +kernel
  obtain ⟨-, outcome, -, -⟩ := build_outcome checked values
  refine ⟨checked, names, ((outcome names .topic).2 _).mpr ⟨"block_height", ?_, .missing rfl⟩,
    ((outcome names .pattern).2 _).mpr ⟨"tx_status", ?_, .refused rfl rfl rfl⟩⟩
  · exact ⟨⟨_, .missing rfl⟩, [], ["tx_id", "tx_index", "tx_status", "tx_type"],
      by decide +kernel, by simp⟩
  · -- A pattern leaves the fields in front of the status open.
    have absent : ∀ name ∈ ["block_height", "tx_id", "tx_index"], values.get? name = none := by
      decide
    refine ⟨⟨_, .refused rfl rfl rfl⟩, ["block_height", "tx_id", "tx_index"], ["tx_type"],
      by decide +kernel, fun name member ⟨cause, unwritable⟩ => ?_⟩
    cases unwritable with
    | refused declared held refused =>
      rw [absent name member] at held
      cases held

end Definition

end Topics
