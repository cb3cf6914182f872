import Topics.Proofs.Definition.Format

/-! A definition passes its check exactly when the tokens of its format spell it out: every token is
a name in braces or fixed text, the names are the declared ones in their order, and the tokens in
front of the first name give the wildcard. -/

namespace Topics

/-- The token is a name in braces. -/
def IsPlaceholder (token : String) : Prop := ∃ name, token = placeholderToken name

/-- The token can stand in a format as fixed text. -/
structure IsFixedText (token : String) : Prop where
  /-- There is a text. -/
  some_text : token ≠ ""
  /-- It is not the wildcard of one token. -/
  not_single : token ≠ singleWildcard
  /-- It is not the wildcard of a tail. -/
  not_tail : token ≠ tailWildcard
  /-- It has no brace. -/
  no_brace : '{' ∉ token.toList ∧ '}' ∉ token.toList

/-- A literal can be part of a format exactly when it is fixed text. -/
theorem isLiteralToken_iff {token : String} : isLiteralToken token = true ↔ IsFixedText token := by
  simp only [isLiteralToken, Bool.and_eq_true, bne_iff_ne, Bool.not_eq_true', List.any_eq_false,
    Bool.or_eq_true, beq_iff_eq, not_or]
  constructor
  · rintro ⟨⟨⟨some_text, not_single⟩, not_tail⟩, other⟩
    exact ⟨some_text, not_single, not_tail,
      fun member => (other _ member).1 rfl, fun member => (other _ member).2 rfl⟩
  · rintro ⟨some_text, not_single, not_tail, opening, closing⟩
    -- A brace among the characters would be one of the two.
    refine ⟨⟨⟨some_text, not_single⟩, not_tail⟩, fun c member => ⟨?_, ?_⟩⟩
    · rintro rfl
      exact opening member
    · rintro rfl
      exact closing member

/-- A token in braces is read as a placeholder, and only such a token. -/
theorem isPlaceholder_iff {token : String} :
    IsPlaceholder token ↔ (Segment.ofToken token).isLiteral = false := by
  cases read : Segment.ofToken token with
  | literal text =>
    simp only [Segment.isLiteral, Bool.true_eq_false, iff_false]
    rintro ⟨name, rfl⟩
    rw [Segment.ofToken_placeholder] at read
    cases read
  | placeholder name =>
    simp only [Segment.isLiteral, iff_true]
    exact ⟨name, Segment.ofToken_eq_placeholder.mp read⟩

instance : DecidablePred IsPlaceholder := fun _ => decidable_of_iff' _ isPlaceholder_iff

/-- Any other token is read as itself. -/
theorem Segment.ofToken_of_not_isPlaceholder {token : String} (other : ¬ IsPlaceholder token) :
    ofToken token = literal token := by
  cases read : ofToken token with
  | literal text => rw [eq_of_ofToken_eq_literal read]
  | placeholder name => exact absurd ⟨name, ofToken_eq_placeholder.mp read⟩ other

/-- Different names have different tokens. -/
theorem placeholderToken_injective : Function.Injective placeholderToken := by
  intro first second same
  -- A token is read as the placeholder of its name.
  have read := Segment.ofToken_placeholder first
  rw [same, Segment.ofToken_placeholder, Segment.placeholder.injEq] at read
  exact read.symm

/-- The names that tokens place are those of the tokens in braces. -/
theorem map_placeholders (parts : List String) :
    ((parts.map Segment.ofToken).filterMap Segment.name?).map placeholderToken =
      parts.filter (IsPlaceholder ·) := by
  -- Only a token in braces has a name, and in braces again it is the token.
  induction parts with
  | nil => rfl
  | cons part rest ih =>
    by_cases named : IsPlaceholder part
    · obtain ⟨name, rfl⟩ := named
      have own : IsPlaceholder (placeholderToken name) := ⟨name, rfl⟩
      simp only [List.map_cons, Segment.ofToken_placeholder, List.filterMap_cons, Segment.name?, ih,
        List.filter_cons, own, decide_true, if_true]
    · simp only [List.map_cons, Segment.ofToken_of_not_isPlaceholder named, List.filterMap_cons,
        Segment.name?, ih, List.filter_cons, named, decide_false, Bool.false_eq_true, if_false]

/-- The leading literals of tokens are those in front of the first one in braces. -/
theorem literalRun_map_ofToken_eq (parts : List String) :
    literalRun (parts.map Segment.ofToken) = parts.takeWhile (¬ IsPlaceholder ·) := by
  -- Both end at the first token in braces.
  induction parts with
  | nil => rfl
  | cons part rest ih =>
    by_cases named : IsPlaceholder part
    · obtain ⟨name, rfl⟩ := named
      have own : IsPlaceholder (placeholderToken name) := ⟨name, rfl⟩
      simp [Segment.ofToken_placeholder, literalRun, own]
    · simp [Segment.ofToken_of_not_isPlaceholder named, literalRun, named, ih]

namespace Definition

variable {definition : Definition}

/-- What the tokens of a format have to be for the fields and the wildcard of a definition. -/
structure WellSpelled (definition : Definition) : Prop where
  /-- There is a format. -/
  format_ne : definition.format ≠ ""
  /-- Each token is a name in braces or fixed text. -/
  each : ∀ token ∈ tokens definition.format, IsPlaceholder token ∨ IsFixedText token
  /-- The tokens in braces are the declared names in their order. -/
  placed : (tokens definition.format).filter (IsPlaceholder ·) =
    definition.fieldNames.map placeholderToken
  /-- No name is declared twice. -/
  distinct : definition.fieldNames.Nodup
  /-- The wildcard is the tokens in front of the first name, and then the one of a tail. -/
  wildcard : definition.wildcard =
    joinTokens ((tokens definition.format).takeWhile (¬ IsPlaceholder ·) ++ [tailWildcard])

/-- The literals of a format are fixed text exactly when every token is a name in braces or fixed
text. -/
theorem literals_iff :
    (∀ text, Segment.literal text ∈ definition.segments → isLiteralToken text = true) ↔
      ∀ token ∈ tokens definition.format, IsPlaceholder token ∨ IsFixedText token := by
  simp only [isLiteralToken_iff]
  constructor
  · intro literals token member
    -- A token that is not in braces is the text of one of the literals.
    refine (em (IsPlaceholder token)).imp_right fun other => literals token ?_
    exact List.mem_map.mpr ⟨token, member, Segment.ofToken_of_not_isPlaceholder other⟩
  · intro each text member
    obtain ⟨token, listed, read⟩ := List.mem_map.mp member
    obtain rfl := Segment.eq_of_ofToken_eq_literal read
    refine (each text listed).resolve_left fun named => ?_
    rw [isPlaceholder_iff, read] at named
    cases named

/-- The format places the declared names exactly when they are its tokens in braces. -/
theorem placeholders_eq_iff :
    definition.placeholders = definition.fieldNames ↔
      (tokens definition.format).filter (IsPlaceholder ·) =
        definition.fieldNames.map placeholderToken := by
  rw [← map_placeholders, ← segments, ← placeholders]
  exact placeholderToken_injective.list_map.eq_iff.symm

/-- The derived wildcard has the tokens in front of the first name and then the one of a tail. -/
theorem derivedWildcard_eq (definition : Definition) : definition.derivedWildcard =
    joinTokens ((tokens definition.format).takeWhile (¬ IsPlaceholder ·) ++ [tailWildcard]) := by
  rw [derivedWildcard, leadingLiterals, segments, literalRun_map_ofToken_eq]

/-- A definition passes its check exactly when there is a format, every token of it is a name in
braces or fixed text, the names are the declared ones in their order and none is repeated, and the
wildcard is the fixed text in front of the first name with a tail behind it. -/
theorem check_iff_wellSpelled : definition.check = .ok () ↔ definition.WellSpelled := by
  rw [check_eq_ok]
  constructor
  · intro formed
    exact ⟨formed.format_ne, literals_iff.mp formed.literals, placeholders_eq_iff.mp formed.placed,
      formed.distinct, formed.derived.trans definition.derivedWildcard_eq⟩
  · intro spelled
    exact ⟨spelled.format_ne, literals_iff.mpr spelled.each, placeholders_eq_iff.mpr spelled.placed,
      spelled.distinct, spelled.wildcard.trans definition.derivedWildcard_eq.symm⟩

/-- A name may be empty or have braces of its own, but it is placed once. -/
example :
    let placing (format : String) (names : List String) : Definition :=
      ⟨"a", "A", "S", format, "a.>", names.map fun name => ⟨name, .integer .u32, ""⟩, []⟩
    (placing "a.\x7b\x7d.\x7bb\x7dc\x7d" ["", "b\x7dc"]).check.isOk = true ∧
      (placing "a.\x7bb\x7d.\x7bb\x7d" ["b", "b"]).check.isOk = false := by
  decide +kernel

end Definition

end Topics
