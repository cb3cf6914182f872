import Topics.Definition.Family
import Topics.Proofs.Definition.WellFormed

/-! A format is known by its segments, which are literals up to the first placeholder and what
follows it. -/

namespace Topics

namespace Segment

/-- The token of a segment in a format. -/
def token : Segment → String
  | literal text => text
  | placeholder name => placeholderToken name

/-- A token is the placeholder of a name exactly when it is the name in braces. -/
theorem ofToken_eq_placeholder {token name : String} :
    ofToken token = placeholder name ↔ token = placeholderToken name := by
  constructor
  · intro read
    unfold ofToken at read
    split at read
    · rename_i inner shape
      split at read
      · -- What stands between the braces is the name.
        rename_i closed
        cases read
        rw [← String.toList_inj, shape, placeholderToken]
        simpa using (List.dropLast_append_getLast? '}' closed).symm
      · cases read
    · cases read
  · rintro rfl
    exact ofToken_placeholder name

/-- A literal is its own token. -/
theorem eq_of_ofToken_eq_literal {token text : String} (read : ofToken token = literal text) :
    text = token := by
  unfold ofToken at read
  split at read
  · split at read
    · cases read
    · cases read
      rfl
  · cases read
    rfl

/-- Each token is the one of the segment that it is read as. -/
@[simp] theorem token_ofToken (part : String) : (ofToken part).token = part := by
  cases read : ofToken part with
  | literal text => exact eq_of_ofToken_eq_literal read
  | placeholder name => exact (ofToken_eq_placeholder.mp read).symm

end Segment

/-- Segments are the literals before the first placeholder and what follows them. -/
theorem literalRun_append_drop (segments : List Segment) :
    (literalRun segments).map Segment.literal ++ segments.drop (literalRun segments).length =
      segments := by
  induction segments with
  | nil => rfl
  | cons segment rest ih =>
    cases segment with
    | literal text => simp [literalRun, ih]
    | placeholder name => rfl

/-- Without literals and the segment right behind them, segments are what follows. -/
theorem drop_literals (lead : List String) (first : Segment) (rest : List Segment) :
    (lead.map Segment.literal ++ first :: rest).drop (lead.length + 1) = rest := by
  rw [← List.drop_drop, List.drop_left' (List.length_map Segment.literal)]
  rfl

/-- Each leading literal is one of the segments. -/
theorem mem_of_mem_literalRun {segments : List Segment} {text : String}
    (member : text ∈ literalRun segments) : Segment.literal text ∈ segments := by
  rw [← literalRun_append_drop segments]
  exact List.mem_append_left _ (List.mem_map_of_mem member)

/-- Segments without leading literals have a placeholder's token in front. -/
theorem head?_map_token {segments : List Segment} (none : literalRun segments = []) :
    ∀ token ∈ (segments.map Segment.token).head?, ∃ name, token = placeholderToken name := by
  cases segments with
  | nil => simp
  | cons segment rest =>
    cases segment with
    | literal text => cases none
    | placeholder name => simp [Segment.token]

/-- Tokens with a placeholder in front are read as segments without leading literals. -/
theorem literalRun_map_ofToken {parts : List String}
    (opened : ∀ token ∈ parts.head?, ∃ name, token = placeholderToken name) :
    literalRun (parts.map Segment.ofToken) = [] := by
  cases parts with
  | nil => rfl
  | cons part rest =>
    obtain ⟨name, rfl⟩ := opened part rfl
    rw [List.map_cons, Segment.ofToken_placeholder]
    rfl

/-- The first leading literal is the first segment, if this is one. -/
theorem head?_literalRun {segments : List Segment} {text : String} :
    (literalRun segments).head? = some text ↔ segments.head? = some (.literal text) := by
  cases segments with
  | nil => simp [literalRun]
  | cons segment rest => cases segment <;> simp [literalRun]

/-- Behind the leading literals there is nothing or a placeholder. -/
theorem drop_literalRun (segments : List Segment) :
    segments.drop (literalRun segments).length = [] ∨
      ∃ name rest, segments.drop (literalRun segments).length = .placeholder name :: rest := by
  -- A literal there would be one of the leading ones.
  have split := literalRun_append (literalRun segments) (segments.drop (literalRun segments).length)
  rw [literalRun_append_drop, List.self_eq_append_right] at split
  cases behind : segments.drop (literalRun segments).length with
  | nil => exact Or.inl rfl
  | cons segment rest =>
    rw [behind] at split
    cases segment with
    | literal text => cases split
    | placeholder name => exact Or.inr ⟨name, rest, rfl⟩

namespace Definition

/-- The tokens of a format are those of its segments. -/
theorem tokens_format (definition : Definition) :
    tokens definition.format = definition.segments.map Segment.token := by
  simp [segments, Function.comp_def]

/-- The leading literals are tokens that are read as literals. -/
theorem map_ofToken_leadingLiterals (definition : Definition) :
    definition.leadingLiterals.map Segment.ofToken =
      definition.leadingLiterals.map Segment.literal := by
  apply List.map_congr_left
  intro text member
  -- A literal of the format is the token that it was read from.
  obtain ⟨token, -, read⟩ := List.mem_map.mp (mem_of_mem_literalRun member)
  obtain rfl := Segment.eq_of_ofToken_eq_literal read
  exact read

end Definition

end Topics
