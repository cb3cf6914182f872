import Topics.Proofs.Definition.Fault
import Topics.Proofs.Definition.Format
import Topics.Proofs.Definition.Selection

/-! A topic is refused as a mismatch only where the open pattern of the definition does not select
it; the two are the same exactly where no literal stands behind a placeholder. -/

namespace Topics

/-- The token stands in the place of the segment as far as literals go. -/
def Segment.Admits : Segment → String → Prop
  | .literal text, token => text = token
  | .placeholder _, _ => True

private theorem forall₂_admits_of_placeholders {segments : List Segment} {parts : List String}
    (opened : ∀ segment ∈ segments, segment.isLiteral = false)
    (paired : segments.length = parts.length) : List.Forall₂ Segment.Admits segments parts := by
  -- Each placeholder admits the token beside it, so only the numbers count.
  induction segments generalizing parts with
  | nil =>
    obtain rfl := List.length_eq_zero_iff.mp paired.symm
    exact .nil
  | cons segment rest ih =>
    obtain ⟨token, more, rfl⟩ := List.exists_cons_of_length_eq_add_one paired.symm
    have first := opened segment (by simp)
    have others : List.Forall₂ Segment.Admits rest more :=
      ih (fun other member => opened other (by simp [member])) (by simpa using paired)
    cases segment with
    | literal text => cases first
    | placeholder name => exact .cons trivial others

namespace Definition

variable {definition : Definition} {segment : Segment} {segments : List Segment}
  {part token pattern topic : String} {parts found : List String} {position : Nat}
  {error : TopicError} {entries : List (String × Value)}

/-- The topic is refused because it has another shape than the format. -/
def Mismatches (definition : Definition) (topic : String) : Prop :=
  ∃ error, definition.parse topic = .error error ∧ error.isMismatch = true

/-- No literal stands behind a placeholder. -/
def LiteralsLead (definition : Definition) : Prop :=
  ∀ segment ∈ definition.segments.drop definition.leadingLiterals.length, segment.isLiteral = false

instance : Decidable definition.LiteralsLead :=
  inferInstanceAs (Decidable (∀ segment ∈ definition.segments.drop _, segment.isLiteral = false))

/-- Tokens that are read have the literals of the format. -/
theorem Reads.admits (reads : definition.Reads segments parts entries) :
    List.Forall₂ Segment.Admits segments parts := by
  -- A literal was compared with its token when it was read.
  induction reads with
  | nil => exact .nil
  | literal text rest ih => exact .cons rfl ih
  | placeholder declared read rest ih => exact .cons trivial ih

/-- Where the leftmost fault is a mismatch, a token differs from a literal. -/
theorem Faults.not_admits (faults : definition.Faults position segments parts error)
    (mismatch : error.isMismatch = true) : ¬ List.Forall₂ Segment.Admits segments parts := by
  -- The only misfit that is a mismatch is that of a literal.
  induction faults with
  | here misfits =>
    rintro (_ | ⟨first, _⟩)
    cases misfits with
    | literal other => exact other first
    | undeclared absent => cases mismatch
    | refused declared refused => cases mismatch
  | later suits rest ih =>
    rintro (_ | ⟨_, others⟩)
    exact ih mismatch others

/-- Where the leftmost fault is no mismatch, it lies behind the leading literals. -/
theorem Faults.leading (faults : definition.Faults position segments parts error)
    (kept : error.isMismatch = false) : literalRun segments <+: parts := by
  -- The literals in front of a placeholder that is refused have all fitted.
  induction faults with
  | here misfits =>
    cases misfits with
    | literal other => cases kept
    | undeclared absent => exact List.nil_prefix
    | refused declared refused => exact List.nil_prefix
  | @later position segment segments token parts error suits rest ih =>
    cases segment with
    | literal text =>
      obtain rfl : text = token := suits
      exact (List.prefix_cons_inj text).mpr (ih kept)
    | placeholder name => exact List.nil_prefix

/-- A fault behind literals is one of all the segments. -/
theorem Faults.behind_literals {lead : List String}
    (faults : definition.Faults (position + lead.length) segments parts error) :
    definition.Faults position (lead.map Segment.literal ++ segments) (lead ++ parts) error := by
  -- Each literal fits itself and moves the position on by one.
  induction lead generalizing position with
  | nil => exact faults
  | cons text rest ih =>
    refine .later rfl (ih ?_)
    rwa [List.length_cons, Nat.add_comm rest.length, ← Nat.add_assoc] at faults

/-- A topic that is no mismatch starts with the leading literals. -/
theorem WellFormed.leading_of_not_mismatches (formed : definition.WellFormed)
    (kept : ¬ definition.Mismatches topic) : definition.leadingLiterals <+: tokens topic := by
  cases parsed : definition.parse topic with
  | ok fields => exact formed.leading_of_parse parsed
  | error error =>
    have other : error.isMismatch = false := by
      rw [← Bool.not_eq_true]
      exact fun mismatch => kept ⟨error, parsed, mismatch⟩
    rcases parse_eq_error.mp parsed with ⟨-, rfl⟩ | ⟨-, faults⟩
    · cases other
    · exact faults.leading other

/-- A mismatch differs from the format in the number of tokens or in a literal. -/
theorem Mismatches.not_admits (mismatches : definition.Mismatches topic) :
    ¬ List.Forall₂ Segment.Admits definition.segments (tokens topic) := by
  obtain ⟨error, parsed, mismatch⟩ := mismatches
  rcases parse_eq_error.mp parsed with ⟨count, -⟩ | ⟨-, faults⟩
  · exact fun admits => count (definition.length_segments ▸ admits.length_eq)
  · exact faults.not_admits mismatch

/-- A topic that differs from the format in the number of tokens or in a literal is refused. -/
theorem WellFormed.exists_error_of_not_admits (formed : definition.WellFormed)
    (other : ¬ List.Forall₂ Segment.Admits definition.segments (tokens topic)) :
    ∃ error, definition.parse topic = .error error := by
  cases parsed : definition.parse topic with
  | ok fields => exact absurd (formed.parse_eq_ok.mp parsed).admits other
  | error error => exact ⟨error, rfl⟩

private theorem takes_open (literal : ∀ text, segment = .literal text → text ≠ singleWildcard)
    (wrote : definition.Writes .empty .pattern segment part) :
    Takes part token ↔ segment.Admits token := by
  -- Without values each placeholder is left open, and a literal is never taken for a wildcard.
  cases segment with
  | literal text =>
    obtain rfl := writes_literal.mp wrote
    simp [Takes, Segment.Admits, literal part rfl]
  | placeholder name =>
    obtain ⟨spec, -, ⟨value, held, -⟩ | ⟨-, -, rfl⟩⟩ := writes_placeholder.mp wrote
    · cases held
    · simp [Takes, Segment.Admits]

private theorem forall₂_takes_open
    (literals : ∀ text, Segment.literal text ∈ segments → text ≠ singleWildcard)
    (written : List.Forall₂ (definition.Writes .empty .pattern) segments parts) :
    List.Forall₂ Takes parts found ↔ List.Forall₂ Segment.Admits segments found := by
  -- The pattern is written segment by segment, and so it is matched.
  induction written generalizing found with
  | nil => simp only [List.forall₂_nil_left_iff]
  | @cons segment part segments parts wrote _ ih =>
    have first : ∀ text, segment = .literal text → text ≠ singleWildcard :=
      fun text same => literals text (by simp [same])
    have others := fun text member => literals text (List.mem_cons_of_mem segment member)
    cases found with
    | nil => simp
    | cons token more =>
      rw [List.forall₂_cons, List.forall₂_cons, takes_open first wrote, ih others]

/-- An open pattern selects the topics with the literals of the format. -/
theorem WellFormed.selects_open (formed : definition.WellFormed)
    (built : definition.build .empty .pattern = .ok pattern) :
    selects pattern topic = true ↔
      List.Forall₂ Segment.Admits definition.segments (tokens topic) := by
  rw [selects, selectsTokens_iff_forall₂ (formed.tailWildcard_not_mem built)]
  exact forall₂_takes_open (fun text member => (formed.literal_ne_wildcard member).1)
    (build_eq_ok.mp built).2

/-- Where literals only lead, as many tokens with these literals in front are admitted. -/
theorem LiteralsLead.admits (lead : definition.LiteralsLead)
    (paired : definition.segments.length = parts.length)
    (leading : definition.leadingLiterals <+: parts) :
    List.Forall₂ Segment.Admits definition.segments parts := by
  obtain ⟨rest, rfl⟩ := leading
  have behind : List.Forall₂ Segment.Admits
      (definition.segments.drop definition.leadingLiterals.length) rest := by
    apply forall₂_admits_of_placeholders lead
    rw [List.length_drop, paired, List.length_append, Nat.add_sub_cancel_left]
  have front : List.Forall₂ Segment.Admits (definition.leadingLiterals.map Segment.literal)
      definition.leadingLiterals :=
    List.forall₂_map_left_iff.mpr (List.forall₂_same.mpr fun text _ => rfl)
  have both : List.Forall₂ Segment.Admits
      (definition.leadingLiterals.map Segment.literal ++
        definition.segments.drop definition.leadingLiterals.length)
      (definition.leadingLiterals ++ rest) := List.rel_append front behind
  rwa [leadingLiterals, literalRun_append_drop] at both

/-- The leading literals of a definition, and wildcards in all other places. -/
def openParts (definition : Definition) : List String :=
  definition.leadingLiterals ++
    (definition.segments.drop definition.leadingLiterals.length).map fun _ => singleWildcard

/-- Where something stands behind the leading literals, wildcards there are refused as values. -/
theorem WellFormed.faults_openParts (formed : definition.WellFormed)
    (more : definition.segments.drop definition.leadingLiterals.length ≠ []) :
    ∃ name cause,
      definition.Faults 0 definition.segments definition.openParts (.invalidField name cause) := by
  have split := literalRun_append_drop definition.segments
  rcases drop_literalRun definition.segments with none | ⟨name, rest, behind⟩
  · exact absurd none more
  · -- The first of them stands in the place of a field.
    have placed : Segment.placeholder name ∈ definition.segments := by
      rw [← split, behind]
      simp
    obtain ⟨spec, declared⟩ := formed.declared placed
    obtain ⟨cause, refused⟩ := FieldType.exists_decode_singleWildcard spec.type
    refine ⟨name, cause, ?_⟩
    rw [openParts, leadingLiterals, behind, List.map_cons]
    nth_rewrite 1 [← split]
    rw [behind]
    exact Faults.behind_literals (.here (.refused declared refused))

/-- A literal behind a placeholder lets a topic be refused for the placeholder although the literal
differs as well. -/
theorem WellFormed.exists_not_admits_of_late (formed : definition.WellFormed) {text : String}
    (late : Segment.literal text ∈ definition.segments.drop definition.leadingLiterals.length) :
    ∃ topic, ¬ definition.Mismatches topic ∧
      ¬ List.Forall₂ Segment.Admits definition.segments (tokens topic) := by
  have more := List.ne_nil_of_mem late
  -- Neither a literal nor a wildcard falls apart.
  have whole : tokens (joinTokens definition.openParts) = definition.openParts := by
    apply tokens_joinTokens
    · exact List.append_ne_nil_of_right_ne_nil _ (List.map_eq_nil_iff.not.mpr more)
    · intro part member
      rcases List.mem_append.mp member with literal | wildcard
      · exact text_free_of_mem_segments (mem_of_mem_literalRun literal)
      · obtain ⟨_, _, rfl⟩ := List.mem_map.mp wildcard
        decide
  refine ⟨joinTokens definition.openParts, ?_, ?_⟩
  · -- The number of tokens is right, and the leftmost fault is the wildcard.
    obtain ⟨name, cause, faults⟩ := formed.faults_openParts more
    have paired : definition.segmentCount = definition.openParts.length := by
      rw [← length_segments, ← congrArg List.length (literalRun_append_drop definition.segments)]
      simp [openParts, leadingLiterals]
    have parsed := parse_eq_error.mpr (Or.inr ⟨whole.symm ▸ paired, whole.symm ▸ faults⟩)
    rintro ⟨error, again, mismatch⟩
    rw [parsed, Except.error.injEq] at again
    subst again
    cases mismatch
  · rw [whole]
    intro admits
    -- The late literal would have to be the wildcard in its place.
    have last := List.forall₂_drop definition.leadingLiterals.length admits
    rw [openParts, List.drop_left, List.forall₂_map_right_iff, List.forall₂_same] at last
    exact (formed.literal_ne_wildcard (List.mem_of_mem_drop late)).1 (last _ late)

/-- A topic that is refused as a mismatch is not selected by the open pattern of the definition, and
one that is not selected is refused; all that are not selected are mismatches exactly where no
literal stands behind a placeholder. -/
theorem mismatches_iff_unselected (checked : definition.check = .ok ()) :
    ∃ pattern, definition.build .empty .pattern = .ok pattern ∧
      (∀ topic, definition.Mismatches topic → selects pattern topic = false) ∧
      (∀ topic, selects pattern topic = false → ∃ error, definition.parse topic = .error error) ∧
      ((∀ topic, definition.Mismatches topic ↔ selects pattern topic = false) ↔
        definition.LiteralsLead) := by
  have formed := check_eq_ok.mp checked
  obtain ⟨pattern, built⟩ : ∃ pattern, definition.build .empty .pattern = .ok pattern :=
    formed.build_pattern nofun
  have unselected (topic : String) : selects pattern topic = false ↔
      ¬ List.Forall₂ Segment.Admits definition.segments (tokens topic) := by
    rw [← formed.selects_open built, Bool.not_eq_true]
  refine ⟨pattern, built, ?_⟩
  simp only [unselected]
  refine ⟨fun topic => Mismatches.not_admits, fun topic => formed.exists_error_of_not_admits,
    fun law => ?_, fun lead topic => ?_⟩
  · -- A late literal would separate the two.
    intro segment member
    cases segment with
    | placeholder name => rfl
    | literal text =>
      obtain ⟨topic, kept, other⟩ := formed.exists_not_admits_of_late member
      exact absurd ((law topic).mpr other) kept
  · refine ⟨Mismatches.not_admits, fun other => ?_⟩
    -- Anything but a mismatch has the number of tokens and starts with the literals, which are all.
    by_contra kept
    obtain ⟨error, parsed⟩ := formed.exists_error_of_not_admits other
    rcases parse_eq_error.mp parsed with ⟨-, rfl⟩ | ⟨paired, -⟩
    · exact kept ⟨_, parsed, rfl⟩
    · exact other (lead.admits (definition.length_segments.trans paired)
        (formed.leading_of_not_mismatches kept))

/-- All topics that the open pattern of blocks does not select are mismatches. -/
theorem mismatches_iff_unselected_blocks :
    Builtin.blocks.check = .ok () ∧ Builtin.blocks.LiteralsLead ∧
      ∃ pattern, Builtin.blocks.build .empty .pattern = .ok pattern ∧
        ∀ topic, Builtin.blocks.Mismatches topic ↔ selects pattern topic = false := by
  have checked : Builtin.blocks.check = .ok () := check_family (by decide +kernel)
  have lead : Builtin.blocks.LiteralsLead := by decide +kernel
  obtain ⟨pattern, built, -, -, law⟩ := mismatches_iff_unselected checked
  exact ⟨checked, lead, pattern, built, law.mpr lead⟩

/-- With a literal behind a placeholder, a topic that the open pattern does not select is refused
for the value in front of the wrong literal. -/
theorem mismatches_iff_unselected_late :
    let late : Definition := ⟨"inputs", "Input", "InputsSubject", "inputs.\x7bindex\x7d.spent",
      "inputs.>", [⟨"index", .integer .u32, "The index of the input"⟩], []⟩
    late.check = .ok () ∧ late.build .empty .pattern = .ok "inputs.*.spent" ∧
      selects "inputs.*.spent" "inputs.first.unspent" = false ∧
      late.parse "inputs.first.unspent" =
        .error (.invalidField "index" (.invalidInteger "first")) ∧
      (TopicError.invalidField "index" (.invalidInteger "first")).isMismatch = false := by
  decide +kernel

end Definition

end Topics
