import Topics.Payload
import Topics.Proofs.Field.Param
import Topics.Proofs.Registry.Lookup
import Topics.Proofs.Registry.Resolve

/-! A payload made from values carries their texts, so it asks for what the values themselves would
build, and for something where they would build nothing only through words that two vocabularies
list. -/

namespace Topics

variable {definition : Definition} {values fields : FieldMap} {params : List (String × Json)}
  {entries : List (String × Value)} {catalog : Catalog} {registry : Registry}

/-- Lists of entries that are related one by one under the same names have the same names. -/
theorem map_fst_of_forall₂ {α : Type u} {β : Type v} {R : String × α → String × β → Prop}
    (keeps : ∀ given read, R given read → read.1 = given.1) {given : List (String × α)}
    {read : List (String × β)} (each : List.Forall₂ R given read) :
    read.map Prod.fst = given.map Prod.fst := by
  induction each with
  | nil => rfl
  | cons first _ ih => simp [keeps _ _ first, ih]

namespace Definition

/-- Parameters with the entries that they give, one for each parameter that is not null. -/
inductive ReadsParams (definition : Definition) :
    List (String × Json) → List (String × Value) → Prop where
  | nil : ReadsParams definition [] []
  /-- A null parameter names a declared field and leaves it open. -/
  | null {params : List (String × Json)} {entries : List (String × Value)} {name : String}
      {param : Json} {spec : FieldSpec} (declared : definition.field? name = some spec)
      (none : param.isNull = true) (rest : ReadsParams definition params entries) :
      ReadsParams definition ((name, param) :: params) entries
  /-- Any other parameter is read in the type of its field. -/
  | value {params : List (String × Json)} {entries : List (String × Value)} {name : String}
      {param : Json} {spec : FieldSpec} {value : Value}
      (declared : definition.field? name = some spec) (some : param.isNull = false)
      (read : spec.type.ofJson param = .ok value) (rest : ReadsParams definition params entries) :
      ReadsParams definition ((name, param) :: params) ((name, value) :: entries)

/-- The parameter is read as the entry, in the type of the field of its name. -/
def ReadsParam (definition : Definition) (param : String × Json) (entry : String × Value) : Prop :=
  entry.1 = param.1 ∧ ∃ spec, definition.field? param.1 = some spec ∧
    spec.type.ofJson param.2 = .ok entry.2

/-- Parameters are read exactly when those that are null name declared fields and the others are read
one by one. -/
theorem readsParams_iff_filter :
    definition.ReadsParams params entries ↔
      (∀ param ∈ params, param.2.isNull = true → param.1 ∈ definition.fieldNames) ∧
        List.Forall₂ definition.ReadsParam (params.filter fun param => !param.2.isNull) entries := by
  induction params generalizing entries with
  | nil =>
    rw [List.filter_nil, List.forall₂_nil_left_iff]
    constructor
    · rintro ⟨⟩
      exact ⟨by simp, rfl⟩
    · rintro ⟨-, rfl⟩
      exact .nil
  | cons param rest ih =>
    obtain ⟨name, param⟩ := param
    simp only [List.forall_mem_cons]
    cases null : param.isNull with
    | true =>
      -- A null parameter only has to name a field.
      rw [List.filter_cons_of_neg (by simp [null])]
      constructor
      · intro reads
        cases reads with
        | null declared _ reads =>
          obtain ⟨named, each⟩ := ih.mp reads
          exact ⟨⟨fun _ => (field?_isSome name).mp (by simp [declared]), named⟩, each⟩
        | value _ some => cases null.symm.trans some
      · rintro ⟨⟨own, named⟩, each⟩
        obtain ⟨spec, declared⟩ := Option.isSome_iff_exists.mp ((field?_isSome name).mpr (own rfl))
        exact .null declared null (ih.mpr ⟨named, each⟩)
    | false =>
      rw [List.filter_cons_of_pos (by simp [null]), List.forall₂_cons_left_iff]
      constructor
      · intro reads
        cases reads with
        | null _ none => cases none.symm.trans null
        | value declared _ read reads =>
          obtain ⟨named, each⟩ := ih.mp reads
          exact ⟨⟨nofun, named⟩, _, _, ⟨rfl, _, declared, read⟩, each, rfl⟩
      · rintro ⟨⟨-, named⟩, ⟨_, value⟩, more, ⟨rfl, spec, declared, read⟩, each, rfl⟩
        exact .value declared null read (ih.mpr ⟨named, each⟩)

/-- Parameters of which none is null are read one by one. -/
theorem readsParams_iff (given : ∀ param ∈ params, param.2.isNull = false) :
    definition.ReadsParams params entries ↔
      List.Forall₂ definition.ReadsParam params entries := by
  -- None of them is left out.
  have all : (params.filter fun param => !param.2.isNull) = params := by
    simpa [List.filter_eq_self] using given
  rw [readsParams_iff_filter, all, and_iff_right]
  intro param member null
  cases null.symm.trans (given param member)

/-- An entry is read back under its name as the value of the field that has the entry's text. -/
def Rereads (definition : Definition) (given read : String × Value) : Prop :=
  read.1 = given.1 ∧ ∃ spec, definition.field? given.1 = some spec ∧
    spec.type.encode read.2 = .ok given.2.text

/-- Entries that are read back keep their names. -/
theorem names_of_rereads {found : List (String × Value)}
    (rereads : List.Forall₂ definition.Rereads entries found) :
    found.map Prod.fst = entries.map Prod.fst :=
  map_fst_of_forall₂ (fun _ _ reread => reread.1) rereads

/-- The JSON forms of entries give the entries that these are read back as. -/
theorem readsParams_toJson {found : List (String × Value)} :
    definition.ReadsParams (entries.map fun (name, value) => (name, value.toJson)) found ↔
      List.Forall₂ definition.Rereads entries found := by
  -- No value is null, and its JSON form is read as the value that has its text.
  have given : ∀ param ∈ entries.map fun (name, value) => (name, value.toJson),
      param.2.isNull = false := by
    intro param member
    obtain ⟨entry, -, rfl⟩ := List.mem_map.mp member
    exact entry.2.isNull_toJson
  have same (entry read : String × Value) :
      definition.ReadsParam (entry.1, entry.2.toJson) read ↔ definition.Rereads entry read :=
    and_congr_right fun _ => exists_congr fun _ => and_congr_right fun _ => FieldType.ofJson_toJson
  rw [readsParams_iff given, List.forall₂_map_left_iff]
  exact forall₂_congr_mem fun entry _ => same entry

end Definition

namespace Payload

/-- Parameters are read exactly when each of them is, and their entries are put one after the
other. -/
theorem readParams_eq_ok :
    readParams definition params values = .ok fields ↔
      ∃ entries, definition.ReadsParams params entries ∧ fields = values.insertAll entries := by
  -- The values put so far change with each parameter, so they are kept general.
  induction params generalizing values with
  | nil =>
    rw [readParams, Except.ok.injEq]
    constructor
    · rintro rfl
      exact ⟨[], .nil, rfl⟩
    · rintro ⟨_, ⟨⟩, rfl⟩
      rfl
  | cons entry rest ih =>
    obtain ⟨name, param⟩ := entry
    rw [readParams]
    constructor
    · intro passed
      cases declared : definition.field? name with
      | none => simp [declared] at passed
      | some spec =>
        cases null : param.isNull with
        | true =>
          simp only [declared, null, if_true, ih] at passed
          obtain ⟨entries, reads, put⟩ := passed
          exact ⟨entries, .null declared null reads, put⟩
        | false =>
          cases read : spec.type.ofJson param with
          | error cause => simp [declared, null, read] at passed
          | ok value =>
            simp only [declared, null, Bool.false_eq_true, if_false, read, ih] at passed
            obtain ⟨entries, reads, put⟩ := passed
            exact ⟨(name, value) :: entries, .value declared null read reads, put⟩
    · rintro ⟨entries, reads, put⟩
      cases reads with
      | null declared null reads =>
        simp only [declared, null, if_true]
        exact ih.mpr ⟨entries, reads, put⟩
      | value declared null read reads =>
        simp only [declared, null, Bool.false_eq_true, if_false, read]
        exact ih.mpr ⟨_, reads, put⟩

/-- The parameters of values give the fields whose entries the values are read back as. -/
theorem fields_ofValues (subject : String) :
    (Payload.mk subject (ofValues values)).fields definition = .ok fields ↔
      List.Forall₂ definition.Rereads values.entries fields.entries := by
  have read : (Payload.mk subject (ofValues values)).fields definition = .ok fields ↔
      ∃ entries, List.Forall₂ definition.Rereads values.entries entries ∧
        fields = OrderedMap.empty.insertAll entries := by
    simp only [Payload.fields, ofValues, readParams_eq_ok, Definition.readsParams_toJson]
  rw [read]
  constructor
  · rintro ⟨entries, rereads, rfl⟩
    -- What is read back has the names of the values, which are distinct.
    have distinct : (entries.map Prod.fst).Nodup :=
      Definition.names_of_rereads rereads ▸ values.distinct
    rwa [OrderedMap.entries_insertAll distinct]
  · intro rereads
    exact ⟨fields.entries, rereads, fields.insertAll_entries.symm⟩

/-- A payload is made exactly of values whose names are declared. -/
theorem ofFields_eq_ok {payload : Payload} :
    ofFields definition values = .ok payload ↔
      (∀ name ∈ values.keys, name ∈ definition.fieldNames) ∧
        payload = ⟨definition.id, ofValues values⟩ := by
  rw [ofFields, ← Definition.firstUndeclared?_eq_none]
  cases definition.firstUndeclared? values.keys <;> simp [eq_comm]

/-- A payload with the id of a definition asks for this definition. -/
theorem definition_of_asks {payload : Payload} (listed : definition ∈ registry.catalog.definitions)
    (asks : payload.subject = definition.id) : payload.definition registry = .ok definition :=
  Registry.definition_eq_ok.mpr ⟨listed, asks.symm⟩

/-- A payload for a definition of the registry asks for the pattern of the fields that it fixes, and
for the wildcard of the definition where it fixes none. -/
theorem pattern_eq_ok {payload : Payload} {text : String}
    (listed : definition ∈ registry.catalog.definitions) (asks : payload.subject = definition.id) :
    payload.pattern registry = .ok text ↔
      ∃ fields, payload.fields definition = .ok fields ∧
        (fields.isEmpty = true → text = definition.wildcard) ∧
        (fields.isEmpty = false → definition.build fields .pattern = .ok text) := by
  rw [Payload.pattern, bind_eq_ok_iff]
  simp only [definition_of_asks listed asks, Except.ok.injEq, exists_eq_left', bind_eq_ok_iff]
  refine exists_congr fun fields => and_congr_right fun _ => ?_
  cases fields.isEmpty <;> simp [pure, Except.pure, eq_comm]

/-- Values that fit are read back as themselves. -/
theorem rereads_self (fits : definition.FitsPartly values) :
    List.Forall₂ definition.Rereads values.entries values.entries := by
  refine List.forall₂_same.mpr fun entry member => ⟨rfl, ?_⟩
  obtain ⟨spec, declared, token, written⟩ :=
    fits entry.1 entry.2 ((values.get?_eq_some).mpr member)
  exact ⟨spec, declared, FieldType.text_of_encode written ▸ written⟩

/-- There is a pattern for fields that fit, or the wildcard where there are none. -/
theorem exists_pattern (formed : definition.WellFormed) (fits : definition.FitsPartly fields) :
    ∃ text, (fields.isEmpty = true → text = definition.wildcard) ∧
      (fields.isEmpty = false → definition.build fields .pattern = .ok text) := by
  cases fields.isEmpty with
  | true => exact ⟨definition.wildcard, fun _ => rfl, nofun⟩
  | false =>
    obtain ⟨text, built⟩ := formed.build_pattern fits
    exact ⟨text, nofun, fun _ => built⟩

/-- Values that fit travel through a payload: they are its fields again, in their order, and it asks
for the pattern that they build, or for the wildcard where there are none. -/
theorem fields_ofFields (accepted : Registry.ofCatalog catalog = .ok registry)
    (listed : definition ∈ catalog.definitions) (fits : definition.FitsPartly values) :
    ∃ payload text, ofFields definition values = .ok payload ∧
      payload.fields definition = .ok values ∧ payload.pattern registry = .ok text ∧
      (values.isEmpty = true → text = definition.wildcard) ∧
      (values.isEmpty = false → definition.build values .pattern = .ok text) := by
  obtain rfl := Registry.ofCatalog_eq_ok.mp accepted
  have made := ofFields_eq_ok.mpr ⟨fits.declared, rfl⟩
  have back := (fields_ofValues definition.id).mpr (rereads_self fits)
  obtain ⟨text, asked⟩ := exists_pattern (Registry.wellFormed listed) fits
  exact ⟨_, text, made, back, (pattern_eq_ok listed rfl).mpr ⟨values, back, asked⟩, asked⟩

/-- A transaction's type, id and height come back from their payload, which asks for their pattern;
without any values the payload asks for all transactions. -/
theorem fields_ofFields_transaction :
    let values : FieldMap :=
      ((OrderedMap.empty.insert "tx_type" (.label ⟨.transactionType, "script", by decide⟩)).insert
        "tx_id" (.ofIdentifier (.replicate 0xab))).insert "block_height" (.uint 18446744073709551615)
    let pattern := "transactions.18446744073709551615." ++
      "0xabababababababababababababababababababababababababababababababab.*.*.script"
    Registry.ofCatalog .builtin = .ok .builtin ∧
      Builtin.transactions ∈ Catalog.builtin.definitions ∧
      Builtin.transactions.FitsPartly values ∧ Builtin.transactions.FitsPartly .empty ∧
      (∃ payload, ofFields Builtin.transactions values = .ok payload ∧
        payload.fields Builtin.transactions = .ok values ∧
        payload.pattern .builtin = .ok pattern) ∧
      ∃ payload, ofFields Builtin.transactions .empty = .ok payload ∧
        payload.fields Builtin.transactions = .ok .empty ∧
        payload.pattern .builtin = .ok "transactions.>" := by
  intro values pattern
  have accepted : Registry.ofCatalog .builtin = .ok .builtin := Registry.ofCatalog_eq_ok.mpr rfl
  have listed : Builtin.transactions ∈ Catalog.builtin.definitions :=
    Catalog.mem_definitions.mpr ⟨"transactions", _, by simp [Catalog.builtin], Or.inl rfl⟩
  have fits : Builtin.transactions.FitsPartly values := by decide +kernel
  have none : Builtin.transactions.FitsPartly .empty := by decide +kernel
  refine ⟨accepted, listed, fits, none, ?_, ?_⟩
  · obtain ⟨payload, text, made, back, asked, -, built⟩ := fields_ofFields accepted listed fits
    have written : Builtin.transactions.build values .pattern = .ok pattern := by decide +kernel
    obtain rfl : pattern = text := Except.ok.inj (written.symm.trans (built rfl))
    exact ⟨payload, made, back, asked⟩
  · obtain ⟨payload, text, made, back, asked, wildcard, -⟩ := fields_ofFields accepted listed none
    have all : text = "transactions.>" := (wildcard rfl).trans (by decide +kernel)
    exact ⟨payload, made, back, all ▸ asked⟩

end Payload

namespace Definition

/-- The value can be written in the field of this name, or it is a label with a word that the field
lists in its own vocabulary as well. -/
def Carries (definition : Definition) (name : String) (value : Value) : Prop :=
  ∃ spec, definition.field? name = some spec ∧
    ((∃ token, spec.type.encode value = .ok token) ∨ spec.type.Borrows value)

/-- A value is carried exactly when its entry is read back as something. -/
theorem carries_iff {name : String} {value : Value} :
    definition.Carries name value ↔ ∃ read, definition.Rereads (name, value) read := by
  simp only [Carries, Rereads, ← FieldType.exists_encode_text]
  constructor
  · rintro ⟨spec, declared, other, written⟩
    exact ⟨(name, other), rfl, spec, declared, written⟩
  · rintro ⟨⟨_, other⟩, rfl, spec, declared, written⟩
    exact ⟨spec, declared, other, written⟩

/-- What is read back can be written. -/
theorem fitsPartly_of_rereads
    (rereads : List.Forall₂ definition.Rereads entries fields.entries) :
    definition.FitsPartly fields := by
  intro name value held
  -- Each entry that was read back was read from one of the given ones.
  obtain ⟨given, -, same, spec, declared, written⟩ :=
    exists_mem_of_forall₂ rereads ((fields.get?_eq_some).mp held)
  obtain rfl : name = given.1 := same
  exact ⟨spec, declared, _, written⟩

end Definition

namespace Payload

/-- Values are read back from a payload of them exactly when each of them is carried. -/
theorem exists_fields_iff (subject : String) :
    (∃ fields, (Payload.mk subject (ofValues values)).fields definition = .ok fields) ↔
      ∀ name value, values.get? name = some value → definition.Carries name value := by
  have each : (∀ name value, values.get? name = some value → definition.Carries name value) ↔
      ∀ entry ∈ values.entries, ∃ read, definition.Rereads entry read := by
    simp only [OrderedMap.get?_eq_some, Definition.carries_iff, Prod.forall]
  simp only [each, fields_ofValues, ← exists_forall₂_iff]
  constructor
  · rintro ⟨fields, rereads⟩
    exact ⟨fields.entries, rereads⟩
  · rintro ⟨found, rereads⟩
    -- What is read back has the names of the values, which are distinct.
    exact ⟨⟨found, Definition.names_of_rereads rereads ▸ values.distinct⟩, rereads⟩

/-- A payload that is made of values asks for a pattern exactly when each value is carried. -/
theorem exists_pattern_ofFields_iff (listed : definition ∈ registry.catalog.definitions) :
    (∃ payload text, ofFields definition values = .ok payload ∧
        payload.pattern registry = .ok text) ↔
      ∀ name value, values.get? name = some value → definition.Carries name value := by
  rw [← exists_fields_iff definition.id]
  constructor
  · rintro ⟨payload, text, made, asked⟩
    obtain ⟨-, rfl⟩ := ofFields_eq_ok.mp made
    obtain ⟨fields, back, -⟩ := (pattern_eq_ok listed rfl).mp asked
    exact ⟨fields, back⟩
  · rintro ⟨fields, back⟩
    -- What was read back fits, so there is a pattern for it.
    have rereads := (fields_ofValues definition.id).mp back
    obtain ⟨text, asked⟩ :=
      exists_pattern (Registry.wellFormed listed) (Definition.fitsPartly_of_rereads rereads)
    refine ⟨_, text, ofFields_eq_ok.mpr ⟨fun name member => ?_, rfl⟩,
      (pattern_eq_ok listed rfl).mpr ⟨fields, back, asked⟩⟩
    obtain ⟨value, held⟩ := OrderedMap.exists_of_mem_keys member
    obtain ⟨spec, declared, -⟩ := (exists_fields_iff definition.id).mp ⟨fields, back⟩ name value held
    exact (Definition.field?_isSome name).mp (by simp [declared])

/-- No pattern comes of the values: there is no payload of them, or it asks for none. -/
def Refuses (registry : Registry) (definition : Definition) (values : FieldMap) : Prop :=
  (∃ error, ofFields definition values = .error error) ∨
    ∃ payload error, ofFields definition values = .ok payload ∧
      payload.pattern registry = .error error

/-- Values are refused exactly when no payload that is made of them asks for a pattern. -/
theorem refuses_iff :
    Refuses registry definition values ↔
      ¬ ∃ payload text, ofFields definition values = .ok payload ∧
        payload.pattern registry = .ok text := by
  rw [Refuses]
  cases made : ofFields definition values with
  | error error => simp
  | ok payload => cases asked : payload.pattern registry <;> simp [asked]

/-- Values that build no pattern are refused exactly when one of them is not carried, and where they
are not refused, one of them is a label with a borrowed word. -/
theorem refuses_of_build_error (accepted : Registry.ofCatalog catalog = .ok registry)
    (listed : definition ∈ catalog.definitions) {error : TopicError}
    (failed : definition.build values .pattern = .error error) :
    (Refuses registry definition values ↔
        ∃ name value, values.get? name = some value ∧ ¬ definition.Carries name value) ∧
      (¬ Refuses registry definition values →
        ∃ name value spec, values.get? name = some value ∧
          definition.field? name = some spec ∧ spec.type.Borrows value) := by
  obtain rfl := Registry.ofCatalog_eq_ok.mp accepted
  rw [refuses_iff, not_not, exists_pattern_ofFields_iff listed]
  refine ⟨by simp only [not_forall, exists_prop], fun carried => ?_⟩
  -- Values of which none is borrowed would fit, and then they would build a pattern.
  by_contra none
  have fits : definition.FitsPartly values := by
    intro name value held
    obtain ⟨spec, declared, written | borrows⟩ := carried name value held
    · exact ⟨spec, declared, written⟩
    · exact absurd ⟨name, value, spec, held, declared, borrows⟩ none
  obtain ⟨text, built⟩ := (Registry.wellFormed listed).build_pattern fits
  cases failed.symm.trans built

/-- The kind of a receipt is refused as the type of a transaction, which lists no such word. -/
theorem refuses_of_build_error_burn :
    let values : FieldMap :=
      OrderedMap.empty.insert "tx_type" (.label ⟨.receiptType, "burn", by decide⟩)
    Registry.ofCatalog .builtin = .ok .builtin ∧
      Builtin.transactions ∈ Catalog.builtin.definitions ∧
      Builtin.transactions.build values .pattern =
        .error (.invalidField "tx_type" (.typeMismatch "TransactionType" "ReceiptType")) ∧
      Refuses .builtin Builtin.transactions values := by
  intro values
  have accepted : Registry.ofCatalog .builtin = .ok .builtin := Registry.ofCatalog_eq_ok.mpr rfl
  have listed : Builtin.transactions ∈ Catalog.builtin.definitions :=
    Catalog.mem_definitions.mpr ⟨"transactions", _, by simp [Catalog.builtin], Or.inl rfl⟩
  have failed : Builtin.transactions.build values .pattern =
      .error (.invalidField "tx_type" (.typeMismatch "TransactionType" "ReceiptType")) := by
    decide +kernel
  refine ⟨accepted, listed, failed, (refuses_of_build_error accepted listed failed).1.mpr ?_⟩
  refine ⟨"tx_type", .label ⟨.receiptType, "burn", by decide⟩, by decide +kernel, ?_⟩
  rintro ⟨spec, declared, carried⟩
  have type : (Builtin.transactions.field? "tx_type").map FieldSpec.type =
      some (.label .transactionType) := by decide +kernel
  rw [declared, Option.map_some, Option.some.injEq] at type
  rw [type] at carried
  -- The label is of another vocabulary, and the field's own one does not list its word.
  rcases carried with ⟨token, written⟩ | borrows
  · exact absurd (FieldType.encode_label.mp written).1 (by decide)
  · exact absurd borrows.2 (by decide)

/-- The kind of an output is refused by the builder as the kind of an input, but its payload asks
for the inputs of the kind that has the same word. -/
theorem pattern_ofFields_borrowed :
    let values : FieldMap :=
      OrderedMap.empty.insert "input_type" (.label ⟨.outputType, "contract", by decide⟩)
    Builtin.inputs ∈ Catalog.builtin.definitions ∧
      Builtin.inputs.build values .pattern =
        .error (.invalidField "input_type" (.typeMismatch "InputType" "OutputType")) ∧
      ∃ payload, ofFields Builtin.inputs values = .ok payload ∧
        payload.pattern .builtin = .ok "inputs.contract.*.*.*.*" := by
  intro values
  have listed : Builtin.inputs ∈ Catalog.builtin.definitions :=
    Catalog.mem_definitions.mpr ⟨"inputs", _, by simp [Catalog.builtin], Or.inl rfl⟩
  exact ⟨listed, by decide +kernel, _, rfl, by decide +kernel⟩

end Payload

end Topics
