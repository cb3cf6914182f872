import Topics.CommandLine.Assignment
import Topics.Proofs.Definition.RoundTrip
import Topics.Proofs.Field.Param
import Topics.Proofs.Registry.Resolve
import Topics.Proofs.Text

/-! Assignments are read one by one, each divided at its first equals sign, and the last one to a
name counts. So the values of a topic come back from their texts, in whatever order these are
assigned and whatever was assigned before. -/

namespace Topics

/-- The text is read as the entry, in the type of the field of its name. -/
def Definition.ReadsText (definition : Definition) (given : String × String)
    (entry : String × Value) : Prop :=
  entry.1 = given.1 ∧ ∃ spec, definition.field? given.1 = some spec ∧
    spec.type.decode given.2 = .ok entry.2

namespace CommandLine

variable {definition : Definition} {name text assignment topic : String}
  {assignments front back : List String} {entry : String × Value} {entries : List (String × Value)}
  {fields values : FieldMap}

/-- The assignment of a text to a name. -/
def writeAssignment (name text : String) : String := name ++ "=" ++ text

/-- The name and the text of an assignment are found again, whatever signs the text has. -/
theorem splitAssignment?_write (plain : '=' ∉ name.toList) (text : String) :
    splitAssignment? (writeAssignment name text) = some (name, text) := by
  -- All further equals signs stand behind the first one.
  have chars : (writeAssignment name text).toList = name.toList ++ '=' :: text.toList := by
    simp [writeAssignment]
  rw [splitAssignment?, chars, span_append plain ('=' :: text.toList) (by simp)]
  simp

/-- What is divided into a name and a text is the assignment of the one to the other. -/
theorem splitAssignment?_eq_some :
    splitAssignment? assignment = some (name, text) ↔
      '=' ∉ name.toList ∧ assignment = writeAssignment name text := by
  constructor
  · intro divided
    by_cases marked : '=' ∈ assignment.toList
    · -- The name is what stands in front of the first equals sign.
      obtain ⟨first, rest, own, plain⟩ := exists_divided (by decide : "=".toList = ['=']) marked
      rw [own, ← writeAssignment, splitAssignment?_write plain] at divided
      cases divided
      exact ⟨plain, own⟩
    · -- Without an equals sign nothing stands behind it.
      have whole := span_append marked [] (by simp)
      rw [List.append_nil] at whole
      rw [splitAssignment?, whole] at divided
      cases divided
  · rintro ⟨plain, rfl⟩
    exact splitAssignment?_write plain text

/-- The assignment sets the field of the entry to the value of the entry. -/
def Sets (definition : Definition) (assignment : String) (entry : String × Value) : Prop :=
  readAssignment definition assignment = .ok entry

/-- An assignment sets a field exactly when its text is read in the type of the field. -/
theorem sets_iff :
    Sets definition assignment entry ↔
      ∃ given, splitAssignment? assignment = some given ∧ definition.ReadsText given entry := by
  unfold Sets readAssignment Definition.ReadsText
  cases splitAssignment? assignment with
  | none => simp
  | some given =>
    obtain ⟨name, text⟩ := given
    obtain ⟨key, value⟩ := entry
    cases declared : definition.field? name with
    | none => simp [declared]
    | some spec => cases read : spec.type.decode text <;> simp [declared, read, eq_comm]

/-- The assignment of a text sets the field of the name to what the text is read as. -/
theorem sets_write (plain : '=' ∉ name.toList) :
    Sets definition (writeAssignment name text) entry ↔
      definition.ReadsText (name, text) entry := by
  rw [sets_iff, splitAssignment?_write plain]
  simp

/-- Assignments are read exactly when each of them is, and their entries are put one after the
other. -/
theorem readAssignments_eq_ok :
    readAssignments definition assignments values = .ok fields ↔
      ∃ entries, List.Forall₂ (Sets definition) assignments entries ∧
        fields = values.insertAll entries := by
  -- The values put so far change with each assignment, so they are kept general.
  induction assignments generalizing values with
  | nil => simp [readAssignments, OrderedMap.insertAll, eq_comm]
  | cons assignment rest ih =>
    simp only [List.forall₂_cons_left_iff, Sets]
    rw [readAssignments]
    cases read : readAssignment definition assignment with
    | error fault => simp
    | ok entry =>
      simp only [ih, Except.ok.injEq]
      constructor
      · rintro ⟨entries, each, rfl⟩
        exact ⟨entry :: entries, ⟨entry, entries, rfl, each, rfl⟩, rfl⟩
      · rintro ⟨_, ⟨_, entries, rfl, each, rfl⟩, rfl⟩
        exact ⟨entries, each, rfl⟩

/-- Assigned fields are the entries that the assignments set, put one after the other. -/
theorem assignedFields_eq_ok :
    assignedFields definition assignments = .ok fields ↔
      ∃ entries, List.Forall₂ (Sets definition) assignments entries ∧
        fields = OrderedMap.empty.insertAll entries :=
  readAssignments_eq_ok

/-- Assignments are read together exactly when each is read by itself. -/
theorem exists_assignedFields_iff :
    (∃ fields, assignedFields definition assignments = .ok fields) ↔
      ∀ assignment ∈ assignments, ∃ fields, assignedFields definition [assignment] = .ok fields := by
  have each (lines : List String) : (∃ fields, assignedFields definition lines = .ok fields) ↔
      ∀ line ∈ lines, ∃ entry, Sets definition line entry := by
    simp only [assignedFields_eq_ok, ← exists_forall₂_iff]
    constructor
    · rintro ⟨_, entries, sets, -⟩
      exact ⟨entries, sets⟩
    · rintro ⟨entries, sets⟩
      exact ⟨_, entries, sets, rfl⟩
  simp only [each, List.mem_singleton, forall_eq]

/-- Assigned fields can be written. -/
theorem fitsPartly_of_assigned (assigned : assignedFields definition assignments = .ok fields) :
    definition.FitsPartly fields := by
  obtain ⟨entries, each, rfl⟩ := assignedFields_eq_ok.mp assigned
  refine Definition.fitsPartly_insertAll fun name value listed => ?_
  -- Each entry was read from one of the assignments, in the type of its field.
  obtain ⟨line, -, sets⟩ := exists_mem_of_forall₂ each listed
  obtain ⟨given, -, rfl, spec, declared, read⟩ := sets_iff.mp sets
  exact ⟨spec, declared, _, FieldType.encode_of_decode read⟩

/-- The last of the assignments to a name assigns this text. -/
def SetsLast (assignments : List String) (name text : String) : Prop :=
  ∃ front back, assignments = front ++ writeAssignment name text :: back ∧
    ∀ other, writeAssignment name other ∉ back

/-- Assignments of which none is divided behind the name are no assignments to it. -/
theorem not_mem_of_divided (plain : '=' ∉ name.toList)
    (others : ∀ line ∈ back, (splitAssignment? line).map Prod.fst ≠ some name) (other : String) :
    writeAssignment name other ∉ back := by
  intro member
  have divided := others _ member
  rw [splitAssignment?_write plain] at divided
  exact divided rfl

private theorem lookupEntry_of_first (plain : '=' ∉ name.toList)
    (later : ∀ other, writeAssignment name other ∉ back)
    (each : List.Forall₂ (Sets definition) (back ++ writeAssignment name text :: front) entries) :
    ∃ value, definition.ReadsText (name, text) (name, value) ∧
      lookupEntry name entries = some value := by
  -- The entries are looked through in the order of the assignments, here from the last one on.
  induction back generalizing entries with
  | nil =>
    obtain ⟨⟨key, value⟩, rest, sets, -, rfl⟩ := List.forall₂_cons_left_iff.mp each
    have read := (sets_write plain).mp sets
    obtain rfl : key = name := read.1
    exact ⟨value, read, by simp [lookupEntry]⟩
  | cons line rest ih =>
    obtain ⟨⟨key, value⟩, more, sets, others, rfl⟩ := List.forall₂_cons_left_iff.mp each
    obtain ⟨found, read, held⟩ := ih (fun other member => later other (by simp [member])) others
    -- An entry of this name would come from an assignment to it.
    have other : key ≠ name := by
      rintro rfl
      obtain ⟨⟨_, text'⟩, divided, rfl, -⟩ := sets_iff.mp sets
      have own := (splitAssignment?_eq_some.mp divided).2
      exact later text' (by simp [← own])
    exact ⟨found, read, by simpa [lookupEntry, other] using held⟩

/-- A field has the value that the last assignment to it is read as. -/
theorem get?_of_setsLast (plain : '=' ∉ name.toList) (last : SetsLast assignments name text)
    (assigned : assignedFields definition assignments = .ok fields) :
    ∃ value, definition.ReadsText (name, text) (name, value) ∧ fields.get? name = some value := by
  obtain ⟨entries, each, rfl⟩ := assignedFields_eq_ok.mp assigned
  obtain ⟨front, back, rfl, later⟩ := last
  have backwards := List.forall₂_reverse_iff.mpr each
  rw [List.reverse_append, List.reverse_cons, List.append_assoc, List.singleton_append] at backwards
  obtain ⟨value, read, held⟩ :=
    lookupEntry_of_first plain (fun other => by simpa using later other) backwards
  -- Of the entries under one name the last one counts.
  exact ⟨value, read, by rw [OrderedMap.get?_insertAll, held, Option.some_or]⟩

/-- Fields whose last assigned texts are those of a topic's values have these values, and there are
no others. -/
theorem get?_of_texts (formed : definition.WellFormed)
    (plain : ∀ name ∈ definition.fieldNames, '=' ∉ name.toList)
    (parsed : definition.parse topic = .ok values)
    (last : ∀ name value, values.get? name = some value → SetsLast assignments name value.text)
    (assigned : assignedFields definition assignments = .ok fields) (name : String) :
    fields.get? name = values.get? name := by
  have names := formed.keys_of_parse parsed
  cases held : values.get? name with
  | some value =>
    have declared : name ∈ definition.fieldNames := by
      rw [← names]
      exact (values.get?_isSome name).mp (by simp [held])
    obtain ⟨other, ⟨-, spec, found, read⟩, again⟩ :=
      get?_of_setsLast (plain name declared) (last name value held) assigned
    -- The value of a topic is written as its text, which is read as this value.
    obtain ⟨spec', found', token, written⟩ := formed.fitsPartly_of_parse parsed name value held
    cases found.symm.trans found'
    rw [← FieldType.text_of_encode written] at written
    have same : other = value := Except.ok.inj (read.symm.trans (FieldType.decode_encode written))
    rw [again, same]
  | none =>
    -- A topic has values for all declared names, and no others are assigned.
    have undeclared : name ∉ definition.fieldNames := by
      rw [← names]
      exact lookupEntry_eq_none.mp held
    refine lookupEntry_eq_none.mpr fun member => undeclared ?_
    exact (fitsPartly_of_assigned assigned).declared name member

/-- No field of the built-in catalog has an equals sign in its name. -/
theorem plain_builtin : ∀ definition ∈ Catalog.builtin.definitions,
    ∀ name ∈ definition.fieldNames, '=' ∉ name.toList := by
  decide +kernel

/-- Assignments that are valid one by one, and of which the last one to each field is the text of
the field's value in a topic, give the values of the topic again, and these build the topic in its
canonical spelling as the values that were read from it do. -/
theorem assignedFields_texts (listed : definition ∈ Registry.builtin.definitions)
    (parsed : definition.parse topic = .ok values)
    (valid : ∀ assignment ∈ assignments, ∃ fields,
      assignedFields definition [assignment] = .ok fields)
    (last : ∀ name value, values.get? name = some value → SetsLast assignments name value.text) :
    ∃ fields, assignedFields definition assignments = .ok fields ∧
      (∀ name, fields.get? name = values.get? name) ∧
      definition.build fields .topic = .ok (definition.canonical topic) ∧
      definition.build values .topic = .ok (definition.canonical topic) := by
  rw [Registry.definitions_eq] at listed
  have formed : definition.WellFormed := Registry.wellFormed listed
  obtain ⟨fields, assigned⟩ := exists_assignedFields_iff.mpr valid
  have same := get?_of_texts formed (plain_builtin definition listed) parsed last assigned
  have built := formed.build_of_parse parsed
  -- A topic is built from what stands under the names, in whatever order they were assigned.
  exact ⟨fields, assigned, same, Definition.build_congr (fun name => (same name).symm) built, built⟩

/-- A block's values come back from their texts, assigned in another order than the topic has them
and after another height. -/
theorem assignedFields_texts_block :
    let topic := "blocks.0xABABABABABABABABABABABABABABABABABABABABABABABABABABABABABABABab.0.7"
    let lower := "blocks.0xabababababababababababababababababababababababababababababababab.0.7"
    let values : FieldMap := ((OrderedMap.empty.insert "producer" (.ofIdentifier
      (.replicate 0xab))).insert "da_height" (.uint 0)).insert "height" (.uint 7)
    let producer := "0xabababababababababababababababababababababababababababababababab"
    let assignments := ["height=9", "da_height=0", "producer=" ++ producer, "height=7"]
    Builtin.blocks ∈ Registry.builtin.definitions ∧ Builtin.blocks.parse topic = .ok values ∧
      (∀ name value, values.get? name = some value → SetsLast assignments name value.text) ∧
      ∃ fields, assignedFields Builtin.blocks assignments = .ok fields ∧
        (∀ name, fields.get? name = values.get? name) ∧
        Builtin.blocks.build fields .topic = .ok lower := by
  intro topic lower values producer assignments
  have listed : Builtin.blocks ∈ Registry.builtin.definitions := by
    rw [Registry.definitions_eq]
    exact Catalog.blocks_listed
  have parsed : Builtin.blocks.parse topic = .ok values := by decide +kernel
  have valid : ∀ assignment ∈ assignments, ∃ fields,
      assignedFields Builtin.blocks [assignment] = .ok fields := by
    have each : ∀ assignment ∈ assignments,
        (assignedFields Builtin.blocks [assignment]).isOk = true := by decide +kernel
    exact fun assignment member => isOk_iff.mp (each assignment member)
  have last : ∀ name value, values.get? name = some value →
      SetsLast assignments name value.text := by
    intro name value held
    have entry : (name, value) ∈ values.entries := (values.get?_eq_some).mp held
    have entries : values.entries = [("producer", .ofIdentifier (.replicate 0xab)),
      ("da_height", .uint 0), ("height", .uint 7)] := by decide +kernel
    simp only [entries, List.mem_cons, List.not_mem_nil, or_false, Prod.mk.injEq] at entry
    rcases entry with ⟨rfl, rfl⟩ | ⟨rfl, rfl⟩ | ⟨rfl, rfl⟩
    · exact ⟨["height=9", "da_height=0"], ["height=7"], by decide +kernel,
        not_mem_of_divided (by decide) (by decide)⟩
    · exact ⟨["height=9"], ["producer=" ++ producer, "height=7"], by decide +kernel,
        not_mem_of_divided (by decide) (by decide)⟩
    · exact ⟨["height=9", "da_height=0", "producer=" ++ producer], [], by decide +kernel,
        not_mem_of_divided (by decide) (by decide)⟩
  obtain ⟨fields, assigned, same, built, -⟩ := assignedFields_texts listed parsed valid last
  have spelled : Builtin.blocks.canonical topic = lower := by decide +kernel
  rw [spelled] at built
  exact ⟨listed, parsed, last, fields, assigned, same, built⟩

end CommandLine

end Topics
