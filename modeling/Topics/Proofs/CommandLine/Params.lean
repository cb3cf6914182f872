import Topics.Proofs.CommandLine.Assignment
import Topics.Proofs.Schema
import Topics.Proofs.Subscription

/-! Assignments on the command line and text parameters of a payload are two ways to say the same:
both fix the same fields, and the payload asks for the pattern that these build. -/

namespace Topics.CommandLine

variable {definition : Definition} {given : List (String × String)} {fields : FieldMap}
  {entries : List (String × Value)} {catalog : Catalog} {registry : Registry}

/-- Texts under names, as the parameters of a payload. -/
def textParams (given : List (String × String)) : Json :=
  -- A name that is repeated keeps its place in the object and takes the later text.
  .ofEntries (given.map fun (name, text) => (name, .string text))

/-- Texts under names, as assignments. -/
def textAssignments (given : List (String × String)) : List String :=
  given.map fun (name, text) => writeAssignment name text

/-- Text parameters under distinct names are read one by one, as the texts of fields. -/
theorem fields_textParams (distinct : (given.map Prod.fst).Nodup) (subject : String) :
    (Payload.mk subject (textParams given)).fields definition = .ok fields ↔
      ∃ entries, List.Forall₂ definition.ReadsText given entries ∧
        fields = OrderedMap.empty.insertAll entries := by
  let params : List (String × Json) := given.map fun (name, text) => (name, .string text)
  -- The names are distinct, so no parameter is put in the place of another one.
  have names : params.map Prod.fst = given.map Prod.fst := by simp [params, Function.comp_def]
  have object : textParams given = .object params := Json.ofEntries_eq_object (names ▸ distinct)
  have texts : ∀ param ∈ params, param.2.isNull = false := by
    intro param member
    obtain ⟨pair, -, rfl⟩ := List.mem_map.mp member
    rfl
  -- A text is read as a parameter exactly as it is read as a token.
  have same (pair : String × String) (entry : String × Value) :
      definition.ReadsParam (pair.1, .string pair.2) entry ↔ definition.ReadsText pair entry :=
    and_congr_right fun _ => exists_congr fun _ => and_congr_right fun _ => FieldType.ofJson_string
  have each (entries : List (String × Value)) : definition.ReadsParams params entries ↔
      List.Forall₂ definition.ReadsText given entries := by
    rw [Definition.readsParams_iff texts, List.forall₂_map_left_iff]
    exact forall₂_congr_mem fun pair _ => same pair
  simp only [Payload.fields, object, Payload.readParams_eq_ok, each]

/-- Assignments to names without an equals sign are read one by one, as the texts of fields. -/
theorem assignedFields_textAssignments (plain : ∀ pair ∈ given, '=' ∉ pair.1.toList) :
    assignedFields definition (textAssignments given) = .ok fields ↔
      ∃ entries, List.Forall₂ definition.ReadsText given entries ∧
        fields = OrderedMap.empty.insertAll entries := by
  have each (entries : List (String × Value)) :
      List.Forall₂ (Sets definition) (textAssignments given) entries ↔
        List.Forall₂ definition.ReadsText given entries := by
    -- Each assignment is divided again where it was put together.
    rw [textAssignments, List.forall₂_map_left_iff]
    exact forall₂_congr_mem fun pair member _ => sets_write (plain pair member)
  simp only [assignedFields_eq_ok, each]

private theorem isEmpty_of_readsText (distinct : (given.map Prod.fst).Nodup) (some_text : given ≠ [])
    (reads : List.Forall₂ definition.ReadsText given entries) :
    (OrderedMap.empty.insertAll entries).isEmpty = false := by
  -- Each text has its entry, and entries under distinct names are all there.
  have names : entries.map Prod.fst = given.map Prod.fst :=
    map_fst_of_forall₂ (fun _ _ read => read.1) reads
  have kept : (OrderedMap.empty.insertAll entries).entries = entries :=
    OrderedMap.entries_insertAll (names ▸ distinct)
  have some_entry : entries ≠ [] := by
    rintro rfl
    exact some_text (List.forall₂_nil_right_iff.mp reads)
  rw [OrderedMap.isEmpty, kept]
  simpa using some_entry

/-- Texts under distinct names without equals signs fix the same fields as assignments and as the
parameters of a payload, or are refused in both ways. The fields then build a pattern, which is the
one that the payload asks for. -/
theorem assignedFields_iff_fields (accepted : Registry.ofCatalog catalog = .ok registry)
    (listed : definition ∈ catalog.definitions) (some_text : given ≠ [])
    (distinct : (given.map Prod.fst).Nodup) (plain : ∀ pair ∈ given, '=' ∉ pair.1.toList) :
    let payload : Payload := ⟨definition.id, textParams given⟩
    (∀ fields, assignedFields definition (textAssignments given) = .ok fields ↔
      payload.fields definition = .ok fields) ∧
    ∀ fields, payload.fields definition = .ok fields →
      ∃ pattern, definition.build fields .pattern = .ok pattern ∧
        payload.pattern registry = .ok pattern := by
  intro payload
  obtain rfl := Registry.ofCatalog_eq_ok.mp accepted
  constructor
  · intro fields
    rw [assignedFields_textAssignments plain, fields_textParams distinct]
  · intro fields read
    have fits := Payload.fitsPartly_of_fields read
    obtain ⟨pattern, built⟩ := (Registry.wellFormed listed).build_pattern fits
    -- There is a text, so some field is fixed and the payload asks for no wildcard.
    obtain ⟨entries, reads, rfl⟩ := (fields_textParams distinct _).mp read
    have some_field := isEmpty_of_readsText distinct some_text reads
    refine ⟨pattern, built, (Payload.pattern_eq_ok listed rfl).mpr ⟨_, read, ?_, fun _ => built⟩⟩
    intro none
    cases some_field.symm.trans none

/-- A height and a later one of the base layer ask for the same blocks as assignments and as the
parameters of a payload, and a height with a second equals sign is refused in both ways. -/
theorem assignedFields_iff_fields_blocks :
    let payload : Payload := ⟨"blocks", textParams [("height", "42"), ("da_height", "7")]⟩
    let fields : FieldMap :=
      (OrderedMap.empty.insert "height" (.uint 42)).insert "da_height" (.uint 7)
    Builtin.blocks ∈ Catalog.builtin.definitions ∧
      assignedFields Builtin.blocks ["height=42", "da_height=7"] = .ok fields ∧
      payload.fields Builtin.blocks = .ok fields ∧
      Builtin.blocks.build fields .pattern = .ok "blocks.*.7.42" ∧
      payload.pattern .builtin = .ok "blocks.*.7.42" ∧
      assignedFields Builtin.blocks ["height=4=2"] =
        .error (.invalidValue "height" "BlockHeight" (.invalidInteger "4=2")) ∧
      ∀ fields, (Payload.mk "blocks" (textParams [("height", "4=2")])).fields Builtin.blocks ≠
        .ok fields := by
  intro payload fields
  have accepted := Registry.ofCatalog_builtin
  have listed := Catalog.blocks_listed
  have assigned : assignedFields Builtin.blocks ["height=42", "da_height=7"] = .ok fields := by
    decide +kernel
  have written : Builtin.blocks.build fields .pattern = .ok "blocks.*.7.42" := by decide +kernel
  have refused : assignedFields Builtin.blocks ["height=4=2"] =
      .error (.invalidValue "height" "BlockHeight" (.invalidInteger "4=2")) := by decide +kernel
  obtain ⟨same, asks⟩ := assignedFields_iff_fields accepted listed
    (by decide : [("height", "42"), ("da_height", "7")] ≠ []) (by decide) (by decide)
  obtain ⟨same', -⟩ := assignedFields_iff_fields accepted listed
    (by decide : [("height", "4=2")] ≠ []) (by decide) (by decide)
  have read := (same fields).mp assigned
  obtain ⟨pattern, built, asked⟩ := asks fields read
  cases written.symm.trans built
  refine ⟨listed, assigned, read, built, asked, refused, fun fields' read' => ?_⟩
  cases refused.symm.trans ((same' fields').mpr read')

end Topics.CommandLine
