import Topics.Proofs.Definition.Wildcard
import Topics.Proofs.Payload

/-! A payload that sets more parameters asks for less: its pattern is covered by that of a payload
that sets some of them, and by the wildcard of one that sets none. -/

namespace Topics

variable {definition : Definition} {fields more values : FieldMap} {catalog : Catalog}
  {registry : Registry}

namespace Definition

variable {segment : Segment} {segments : List Segment} {part part' wide narrow : String}
  {parts parts' : List String} {mode : BuildMode}

private theorem takes_of_more
    (keeps : ∀ name value, fields.get? name = some value → more.get? name = some value)
    (wrote : definition.Writes fields .pattern segment part)
    (wrote' : definition.Writes more .pattern segment part') : Takes part part' := by
  cases segment with
  | literal text =>
    -- Both patterns have the literal here.
    rw [writes_literal] at wrote wrote'
    exact Or.inr (wrote.trans wrote'.symm)
  | placeholder name =>
    obtain ⟨spec, declared, ⟨value, held, written⟩ | ⟨-, -, opened⟩⟩ := writes_placeholder.mp wrote
    · -- A value of the first pattern is one of the second as well, with the same token.
      have held' := keeps name value held
      obtain ⟨spec', declared', ⟨value', again, written'⟩ | ⟨absent, -, -⟩⟩ :=
        writes_placeholder.mp wrote'
      · cases declared.symm.trans declared'
        cases held'.symm.trans again
        exact Or.inr (Except.ok.inj (written.symm.trans written'))
      · cases held'.symm.trans absent
    · exact Or.inl opened

private theorem forall₂_takes_of_more
    (keeps : ∀ name value, fields.get? name = some value → more.get? name = some value)
    (written : List.Forall₂ (definition.Writes fields .pattern) segments parts)
    (written' : List.Forall₂ (definition.Writes more .pattern) segments parts') :
    List.Forall₂ Takes parts parts' := by
  -- The segments are walked through once, beside the tokens of both patterns.
  induction written generalizing parts' with
  | nil =>
    cases written'
    exact .nil
  | cons wrote _ ih =>
    obtain ⟨token, others, wrote', rest, rfl⟩ := List.forall₂_cons_left_iff.mp written'
    exact .cons (takes_of_more keeps wrote wrote') (ih rest)

/-- A pattern built from some values covers one built from these and more. -/
theorem WellFormed.covers_of_more (formed : definition.WellFormed)
    (keeps : ∀ name value, fields.get? name = some value → more.get? name = some value)
    (built : definition.build fields .pattern = .ok wide)
    (built' : definition.build more .pattern = .ok narrow) : Covers wide narrow := by
  have closed := formed.tailWildcard_not_mem built
  have closed' := formed.tailWildcard_not_mem built'
  have takes := forall₂_takes_of_more keeps (build_eq_ok.mp built).2 (build_eq_ok.mp built').2
  exact covers_of_forall₂ closed closed' takes

/-- The wildcard of a definition with fields covers all its patterns. -/
theorem WellFormed.covers_of_wildcard (formed : definition.WellFormed)
    (placed : definition.fields ≠ []) (built : definition.build values .pattern = .ok narrow) :
    Covers definition.wildcard narrow := by
  intro topic selected
  have closed := formed.tailWildcard_not_mem built
  have matched := (selectsTokens_iff_forall₂ closed).mp selected
  -- Behind the leading literals the pattern has a token for the first placeholder.
  obtain ⟨behind, split, written⟩ := leading_of_build built
  rw [split] at matched
  have literal : ∀ text ∈ definition.leadingLiterals, text ≠ singleWildcard := by
    intro text member
    exact (formed.literal_ne_wildcard (mem_of_mem_literalRun member)).1
  obtain ⟨rest, found, taken⟩ := takes_literals_append literal matched
  have some_segment := mt formed.fields_eq_nil_iff.mpr placed
  have count : rest.length = (definition.segments.drop definition.leadingLiterals.length).length :=
    taken.length_eq.symm.trans written.length_eq.symm
  have some_token : rest ≠ [] := by
    intro none
    rw [none, List.length_nil] at count
    exact some_segment (List.length_eq_zero_iff.mp count.symm)
  -- The tail of the wildcard takes this token and all others.
  obtain ⟨token, others, rfl⟩ := List.exists_cons_of_ne_nil some_token
  exact formed.selects_wildcard_iff.mpr ⟨token, others, found⟩

end Definition

namespace Payload

private theorem writable_of_readsParams {params : List (String × Json)}
    {entries : List (String × Value)} (reads : definition.ReadsParams params entries) :
    ∀ name value, (name, value) ∈ entries →
      ∃ spec, definition.field? name = some spec ∧ ∃ token, spec.type.encode value = .ok token := by
  induction reads with
  | nil => simp
  | null declared none rest ih => exact ih
  | @value params entries name param spec value declared some read rest ih =>
    intro other held member
    rcases List.mem_cons.mp member with same | later
    · cases same
      exact ⟨spec, declared, _, FieldType.encode_of_ofJson read⟩
    · exact ih other held later

/-- The fields of a payload can all be written. -/
theorem fitsPartly_of_fields {payload : Payload} (read : payload.fields definition = .ok fields) :
    definition.FitsPartly fields := by
  rw [Payload.fields] at read
  split at read
  · -- Absent parameters give no fields.
    cases read
    intro name value held
    cases held
  · obtain ⟨entries, reads, rfl⟩ := readParams_eq_ok.mp read
    exact Definition.fitsPartly_insertAll (writable_of_readsParams reads)
  · cases read

/-- A definition for which a value can be written has a field. -/
theorem fields_ne_nil_of_fits (fits : definition.FitsPartly fields)
    (some_value : fields.isEmpty = false) : definition.fields ≠ [] := by
  intro none
  rw [OrderedMap.isEmpty, List.isEmpty_eq_false_iff_exists_mem] at some_value
  obtain ⟨⟨name, value⟩, listed⟩ := some_value
  obtain ⟨spec, declared, -⟩ := fits name value (fields.get?_eq_some.mpr listed)
  simp [Definition.field?, none] at declared

/-- What is asked for with some fields: the wildcard without any, and otherwise the pattern that they
build. -/
def AsksFor (definition : Definition) (fields : FieldMap) (text : String) : Prop :=
  (fields.isEmpty = true → text = definition.wildcard) ∧
    (fields.isEmpty = false → definition.build fields .pattern = .ok text)

/-- What is asked for with some fields covers what is asked for with these and more, also where it
is the wildcard for want of any field. -/
theorem covers_of_asked (formed : definition.WellFormed) (fits : definition.FitsPartly more)
    (keeps : ∀ entry ∈ fields.entries, entry ∈ more.entries) {wide narrow : String}
    (asked : AsksFor definition fields wide) (asked' : AsksFor definition more narrow) :
    Covers wide narrow := by
  obtain ⟨every, some_field⟩ := asked
  obtain ⟨every', some_field'⟩ := asked'
  cases none' : more.isEmpty with
  | true =>
    -- Where the second has no field, the first has none either, and both ask for the wildcard.
    have none : fields.isEmpty = true := by
      rw [OrderedMap.isEmpty, List.isEmpty_iff] at none' ⊢
      exact List.subset_nil.mp (none' ▸ keeps)
    rw [every none, every' none']
    exact fun topic selected => selected
  | false =>
    have built' := some_field' none'
    cases none : fields.isEmpty with
    | true =>
      have placed := fields_ne_nil_of_fits fits none'
      rw [every none]
      exact formed.covers_of_wildcard placed built'
    | false =>
      -- Both ask for a pattern, and what the first looks up the second finds as well.
      have held : ∀ name value, fields.get? name = some value →
          more.get? name = some value := by
        intro name value found
        exact more.get?_eq_some.mpr (keeps _ (fields.get?_eq_some.mp found))
      exact formed.covers_of_more held (some_field none) built'

/-- Of two payloads for the same definition of an accepted catalog, each asks for a pattern, and
where all fields of the first are fields of the second with the same values, its pattern selects
every topic that the other's selects. -/
theorem covers_of_more_fields (accepted : Registry.ofCatalog catalog = .ok registry)
    (listed : definition ∈ catalog.definitions) {payload narrower : Payload}
    (asks : payload.subject = definition.id) (asks' : narrower.subject = definition.id)
    (read : payload.fields definition = .ok fields)
    (read' : narrower.fields definition = .ok more)
    (keeps : ∀ entry ∈ fields.entries, entry ∈ more.entries) :
    ∃ wide narrow, payload.pattern registry = .ok wide ∧
      narrower.pattern registry = .ok narrow ∧ Covers wide narrow := by
  obtain rfl := Registry.ofCatalog_eq_ok.mp accepted
  have formed := Registry.wellFormed listed
  have fits := fitsPartly_of_fields read
  have fits' := fitsPartly_of_fields read'
  -- Fields that can be written give a pattern, so both payloads ask for one.
  obtain ⟨wide, asked⟩ := exists_pattern formed fits
  obtain ⟨narrow, asked'⟩ := exists_pattern formed fits'
  exact ⟨wide, narrow, (pattern_eq_ok listed asks).mpr ⟨fields, read, asked⟩,
    (pattern_eq_ok listed asks').mpr ⟨more, read', asked'⟩,
    covers_of_asked formed fits' keeps asked asked'⟩

/-- All blocks cover those of one height, which cover those of this height with another one set as
well. -/
theorem covers_of_more_fields_blocks :
    let every : Payload := ⟨"blocks", .null⟩
    let high : Payload := ⟨"blocks", .object [("producer", .null), ("height", .string "42")]⟩
    let both : Payload := ⟨"blocks", .object [("height", .string "42"), ("da_height", .string "7")]⟩
    every.pattern .builtin = .ok "blocks.>" ∧ high.pattern .builtin = .ok "blocks.*.*.42" ∧
      both.pattern .builtin = .ok "blocks.*.7.42" ∧
      Covers "blocks.>" "blocks.*.*.42" ∧ Covers "blocks.*.*.42" "blocks.*.7.42" := by
  intro every high both
  have accepted := Registry.ofCatalog_builtin
  have listed : Builtin.blocks ∈ Catalog.builtin.definitions :=
    Catalog.mem_definitions.mpr ⟨"blocks", _, by simp [Catalog.builtin], Or.inl rfl⟩
  let one : FieldMap := OrderedMap.empty.insert "height" (.uint 42)
  have none : every.fields Builtin.blocks = .ok .empty := rfl
  have some : high.fields Builtin.blocks = .ok one := by decide +kernel
  have two : both.fields Builtin.blocks = .ok (one.insert "da_height" (.uint 7)) := by
    decide +kernel
  have asked : every.pattern .builtin = .ok "blocks.>" := by decide +kernel
  have asked' : high.pattern .builtin = .ok "blocks.*.*.42" := by decide +kernel
  have asked'' : both.pattern .builtin = .ok "blocks.*.7.42" := by decide +kernel
  refine ⟨asked, asked', asked'', ?_, ?_⟩
  · obtain ⟨wide, narrow, first, second, covers⟩ :=
      covers_of_more_fields accepted listed rfl rfl none some (by simp [OrderedMap.empty])
    cases asked.symm.trans first
    cases asked'.symm.trans second
    exact covers
  · have kept : ∀ entry ∈ one.entries, entry ∈ (one.insert "da_height" (.uint 7)).entries := by
      decide +kernel
    obtain ⟨wide, narrow, first, second, covers⟩ :=
      covers_of_more_fields accepted listed rfl rfl some two kept
    cases asked'.symm.trans first
    cases asked''.symm.trans second
    exact covers

end Payload

end Topics
