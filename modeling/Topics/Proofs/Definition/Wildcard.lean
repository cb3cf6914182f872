import Topics.Proofs.Definition.Format
import Topics.Proofs.Definition.Selection

/-! The wildcard of a definition selects the topics with its leading literals and something behind
them, so it selects the definition's own topics exactly where there is a field. -/

namespace Topics.Definition

variable {definition : Definition} {values : FieldMap} {mode : BuildMode} {topic text : String}

/-- The tokens of a wildcard are the leading literals and a tail. -/
theorem WellFormed.tokens_wildcard (formed : definition.WellFormed) :
    tokens definition.wildcard = definition.leadingLiterals ++ [tailWildcard] := by
  rw [formed.derived, derivedWildcard, tokens_joinTokens (by simp)]
  -- Neither a literal nor the tail falls apart.
  intro part member
  rcases List.mem_append.mp member with literal | tail
  · exact text_free_of_mem_segments (mem_of_mem_literalRun literal)
  · obtain rfl := List.mem_singleton.mp tail
    decide

/-- A wildcard selects the topics with the leading literals and something behind them. -/
theorem WellFormed.selects_wildcard_iff (formed : definition.WellFormed) :
    selects definition.wildcard topic = true ↔
      ∃ token more, tokens topic = definition.leadingLiterals ++ token :: more := by
  rw [selects, formed.tokens_wildcard, selectsTokens_tail]
  exact fun text member => formed.literal_ne_wildcard (mem_of_mem_literalRun member)

/-- What is built starts with the leading literals, and the other segments are written behind
them. -/
theorem leading_of_build (built : definition.build values mode = .ok text) :
    ∃ more, tokens text = definition.leadingLiterals ++ more ∧
      List.Forall₂ (definition.Writes values mode)
        (definition.segments.drop definition.leadingLiterals.length) more := by
  apply written_literals_append.mp
  rw [leadingLiterals, literalRun_append_drop]
  exact (build_eq_ok.mp built).2

/-- A well-formed definition has no fields exactly where nothing stands behind its leading
literals. -/
theorem WellFormed.fields_eq_nil_iff (formed : definition.WellFormed) :
    definition.fields = [] ↔ definition.segments.drop definition.leadingLiterals.length = [] := by
  have names : definition.fields = [] ↔ definition.placeholders = [] := by
    rw [formed.placed, fieldNames, List.map_eq_nil_iff]
  rw [names]
  have split := literalRun_append_drop definition.segments
  rcases drop_literalRun definition.segments with behind | ⟨name, rest, behind⟩
  · -- Literals alone place no field.
    rw [behind, List.append_nil] at split
    rw [leadingLiterals, behind, placeholders, ← split]
    simp [Segment.name?]
  · have placed : name ∈ definition.placeholders := by
      rw [mem_placeholders, ← split, behind]
      simp
    simp only [leadingLiterals, behind, reduceCtorEq, iff_false]
    exact List.ne_nil_of_mem placed

/-- A topic built from values that fit is selected by the wildcard of its definition exactly when
the definition has a field. -/
theorem selects_wildcard_build (checked : definition.check = .ok ())
    (fits : definition.Fits values) :
    ∃ topic, definition.build values .topic = .ok topic ∧
      (selects definition.wildcard topic = true ↔ definition.fields ≠ []) := by
  have formed := check_eq_ok.mp checked
  obtain ⟨topic, built⟩ := formed.build_topic fits
  refine ⟨topic, built, ?_⟩
  -- The tail of the wildcard needs a token behind the leading literals.
  obtain ⟨more, split, written⟩ := leading_of_build built
  rw [formed.selects_wildcard_iff, ne_eq, formed.fields_eq_nil_iff, split]
  cases behind : definition.segments.drop definition.leadingLiterals.length with
  | nil =>
    rw [behind, List.forall₂_nil_left_iff] at written
    simp [written]
  | cons segment rest =>
    rw [behind, List.forall₂_cons_left_iff] at written
    obtain ⟨token, others, -, -, rfl⟩ := written
    simp

/-- The wildcard of blocks selects the topic of a block. -/
theorem selects_wildcard_build_block :
    Builtin.blocks.check = .ok () ∧ Builtin.blocks.Fits blockValues ∧
      ∃ topic, Builtin.blocks.build blockValues .topic = .ok topic ∧
        selects "blocks.>" topic = true := by
  have checked : Builtin.blocks.check = .ok () := check_family (by decide +kernel)
  have fits : Builtin.blocks.Fits blockValues := by decide +kernel
  obtain ⟨topic, built, selected⟩ := selects_wildcard_build checked fits
  exact ⟨checked, fits, topic, built, selected.mpr (by decide)⟩

/-- A definition without fields passes its check, and its wildcard does not select its only
topic. -/
theorem selects_wildcard_bare :
    let bare : Definition := ⟨"status", "Status", "StatusSubject", "status", "status.>", [], []⟩
    bare.check = .ok () ∧ bare.Fits .empty ∧ bare.build .empty .topic = .ok "status" ∧
      selects bare.wildcard "status" = false := by
  decide +kernel

end Topics.Definition
