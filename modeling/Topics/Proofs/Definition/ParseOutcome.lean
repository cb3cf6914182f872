import Topics.Catalog.Builtin
import Topics.Proofs.Definition.Fault
import Topics.Proofs.Pattern

/-! What parsing gives for any topic: the values of all its tokens where each of them fits, and
otherwise the fault of the leftmost one that does not. -/

namespace Topics.Definition

variable {definition : Definition} {segments : List Segment} {parts : List String}
  {entries : List (String × Value)} {fields : FieldMap} {position : Nat} {error : TopicError}
  {topic : String}

/-- Tokens are read exactly when each of them suits the segment in its place. -/
theorem exists_reads_iff : (∃ entries, definition.Reads segments parts entries) ↔
    List.Forall₂ definition.Suits segments parts := by
  constructor
  · rintro ⟨entries, reads⟩
    -- What was read for a placeholder is a value of its field.
    induction reads with
    | nil => exact .nil
    | literal text rest ih => exact .cons rfl ih
    | placeholder declared read rest ih => exact .cons ⟨_, _, declared, read⟩ ih
  · intro suits
    -- Each token that suits a placeholder puts its value in front of those behind it.
    induction suits with
    | nil => exact ⟨[], .nil⟩
    | @cons segment token segments parts first _ ih =>
      obtain ⟨entries, reads⟩ := ih
      cases segment with
      | literal text =>
        obtain rfl : text = token := first
        exact ⟨entries, .literal text reads⟩
      | placeholder name =>
        obtain ⟨spec, value, declared, read⟩ := first
        exact ⟨(name, value) :: entries, .placeholder declared read reads⟩

/-- In the place of a placeholder, the token is one of the value under its name. -/
def Gives (definition : Definition) (fields : FieldMap) (segment : Segment) (token : String) :
    Prop :=
  ∀ name, segment = .placeholder name → ∃ spec value, definition.field? name = some spec ∧
    spec.type.decode token = .ok value ∧ fields.get? name = some value

/-- The values that are read are those of the tokens in their places. -/
theorem Reads.gives (reads : definition.Reads segments parts entries)
    (held : ∀ name value, (name, value) ∈ entries → fields.get? name = some value) :
    List.Forall₂ (definition.Gives fields) segments parts := by
  -- Each placeholder adds the entry in front, and those behind it are held as well.
  induction reads with
  | nil => exact .nil
  | literal text rest ih => exact .cons nofun (ih held)
  | @placeholder segments parts entries name token spec value declared read rest ih =>
    refine .cons ?_ (ih fun other inner member => held other inner (by simp [member]))
    rintro _ ⟨⟩
    exact ⟨spec, value, declared, read, held name value (by simp)⟩

/-- The format has the segment at the position, and the topic the token. -/
def Places (definition : Definition) (topic : String) (position : Nat) (segment : Segment)
    (token : String) : Prop :=
  definition.segments[position]? = some segment ∧ (tokens topic)[position]? = some token

/-- The token at the position is the leftmost one that does not fit, and the cause of the error. -/
structure FailsAt (definition : Definition) (topic : String) (position : Nat)
    (error : TopicError) : Prop where
  /-- The token cannot stand in the place of the segment. -/
  misfit : ∃ segment token, definition.Places topic position segment token ∧
    definition.Misfits position segment token error
  /-- Each token in front of it can. -/
  front : ∀ earlier < position, ∀ segment token,
    definition.Places topic earlier segment token → definition.Suits segment token

/-- The leftmost token that does not fit is the one at some position where all tokens in front of it
fit. -/
theorem faults_iff : definition.Faults position segments parts error ↔
    ∃ offset,
      (∃ segment token, segments[offset]? = some segment ∧ parts[offset]? = some token ∧
        definition.Misfits (position + offset) segment token error) ∧
      ∀ earlier < offset, ∀ segment token, segments[earlier]? = some segment →
        parts[earlier]? = some token → definition.Suits segment token := by
  constructor
  · intro faults
    -- The offset counts the tokens that have fitted.
    induction faults with
    | @here position segment segments token parts error misfits =>
      exact ⟨0, ⟨segment, token, rfl, rfl, misfits⟩, nofun⟩
    | @later position segment segments token parts error suits rest ih =>
      obtain ⟨offset, ⟨other, found, here, there, misfits⟩, front⟩ := ih
      refine ⟨offset + 1, ⟨other, found, here, there, ?_⟩, fun earlier before => ?_⟩
      · rwa [Nat.add_right_comm, Nat.add_assoc] at misfits
      · -- The first token fits by itself, and the others are in front of the same one.
        cases earlier with
        | zero =>
          rintro _ _ ⟨⟩ ⟨⟩
          exact suits
        | succ earlier => exact front earlier (Nat.lt_of_succ_lt_succ before)
  · rintro ⟨offset, ⟨segment, token, here, there, misfits⟩, front⟩
    -- The walk passes one segment and one token for each position in front.
    induction offset generalizing position segments parts with
    | zero =>
      obtain ⟨rest, rfl⟩ := List.head?_eq_some_iff.mp (List.head?_eq_getElem? ▸ here)
      obtain ⟨more, rfl⟩ := List.head?_eq_some_iff.mp (List.head?_eq_getElem? ▸ there)
      exact .here misfits
    | succ offset ih =>
      cases segments with
      | nil => cases here
      | cons first rest =>
        cases parts with
        | nil => cases there
        | cons part more =>
          refine .later (front 0 (Nat.zero_lt_succ offset) first part rfl rfl)
            (ih (fun earlier before => ?_) here there ?_)
          · exact front (earlier + 1) (Nat.succ_lt_succ before)
          · rwa [Nat.add_right_comm, Nat.add_assoc]

/-- A topic with the right number of tokens is refused exactly for its leftmost token that does not
fit. -/
theorem parse_eq_error_iff_failsAt (paired : definition.segmentCount = (tokens topic).length) :
    definition.parse topic = .error error ↔ ∃ position, definition.FailsAt topic position error := by
  rw [parse_eq_error, faults_iff]
  constructor
  · rintro (⟨other, -⟩ | ⟨-, position, ⟨segment, token, here, there, misfits⟩, front⟩)
    · exact absurd paired other
    · rw [Nat.zero_add] at misfits
      exact ⟨position, ⟨segment, token, ⟨here, there⟩, misfits⟩,
        fun earlier before segment token places =>
          front earlier before segment token places.1 places.2⟩
  · rintro ⟨position, ⟨segment, token, ⟨here, there⟩, misfits⟩, front⟩
    rw [← Nat.zero_add position] at misfits
    exact Or.inr ⟨paired, position, ⟨segment, token, here, there, misfits⟩,
      fun earlier before segment token here there => front earlier before segment token ⟨here, there⟩⟩

/-- A well-formed definition never refuses a topic for a field that is not declared. -/
theorem WellFormed.parse_ne_unknownField (formed : definition.WellFormed) (id name : String) :
    definition.parse topic ≠ .error (.unknownField id name) := by
  intro refused
  rcases parse_eq_error.mp refused with ⟨-, other⟩ | ⟨-, faults⟩
  · cases other
  · obtain ⟨offset, ⟨segment, token, here, -, misfits⟩, -⟩ := faults_iff.mp faults
    -- Only a placeholder without a field could be the cause, and there is none.
    cases misfits with
    | undeclared absent =>
      obtain ⟨spec, declared⟩ := formed.declared (List.mem_of_getElem? here)
      rw [absent] at declared
      cases declared

/-- A topic is parsed exactly when it has as many tokens as the format and each of them suits the
segment in its place. -/
theorem WellFormed.exists_parse_iff (formed : definition.WellFormed) :
    (∃ fields, definition.parse topic = .ok fields) ↔
      definition.segmentCount = (tokens topic).length ∧ ∀ position segment token,
        definition.Places topic position segment token → definition.Suits segment token := by
  have suited : (∃ fields, definition.parse topic = .ok fields) ↔
      List.Forall₂ definition.Suits definition.segments (tokens topic) := by
    rw [← exists_reads_iff]
    constructor
    · rintro ⟨fields, parsed⟩
      exact ⟨fields.entries, formed.parse_eq_ok.mp parsed⟩
    · rintro ⟨entries, reads⟩
      obtain ⟨fields, parsed, -⟩ := formed.parse_of_reads reads
      exact ⟨fields, parsed⟩
  rw [suited, forall₂_iff_inPlace, length_segments]
  simp only [Places, and_imp]

/-- The values of a topic are those of its tokens in the places of their fields. -/
theorem WellFormed.gives_of_parse (formed : definition.WellFormed)
    (parsed : definition.parse topic = .ok fields) {segment : Segment} {token : String}
    (places : definition.Places topic position segment token) :
    definition.Gives fields segment token := by
  have reads := formed.parse_eq_ok.mp parsed
  have each := reads.gives fun name value member => (fields.get?_eq_some).mpr member
  exact (forall₂_iff_inPlace.mp each).2 position segment token places.1 places.2

/-- A topic is parsed exactly when it has the number of tokens of the format, with each literal in
its place and a value of its field in the place of each placeholder. The values are then listed in
the order in which the fields are declared. Any other topic is refused for its number of tokens,
or else for the leftmost token that does not fit, and never for a field that is not declared. -/
theorem parse_outcome (checked : definition.check = .ok ()) (topic : String) :
    ((∃ fields, definition.parse topic = .ok fields) ↔
      definition.segmentCount = (tokens topic).length ∧ ∀ position segment token,
        definition.Places topic position segment token → definition.Suits segment token) ∧
    (∀ fields, definition.parse topic = .ok fields →
      fields.keys = definition.fieldNames ∧ ∀ position name token,
        definition.Places topic position (.placeholder name) token →
          ∃ spec value, definition.field? name = some spec ∧ spec.type.decode token = .ok value ∧
            fields.get? name = some value) ∧
    (definition.segmentCount ≠ (tokens topic).length → definition.parse topic =
      .error (.segmentCount definition.segmentCount (tokens topic).length)) ∧
    (definition.segmentCount = (tokens topic).length → ∀ error,
      definition.parse topic = .error error ↔
        ∃ position, definition.FailsAt topic position error) ∧
    ∀ id name, definition.parse topic ≠ .error (.unknownField id name) := by
  have formed := check_eq_ok.mp checked
  refine ⟨formed.exists_parse_iff, fun fields parsed => ⟨formed.keys_of_parse parsed, ?_⟩,
    fun other => parse_eq_error.mpr (Or.inl ⟨other, rfl⟩),
    fun paired _ => parse_eq_error_iff_failsAt paired, formed.parse_ne_unknownField⟩
  intro position name token places
  exact formed.gives_of_parse parsed places name rfl

/-- A transaction's topic with three bad values is refused for the leftmost of them. -/
theorem parse_outcome_transaction :
    let topic := "transactions.7.ab.07.success.none"
    Builtin.transactions.check = .ok () ∧
      Builtin.transactions.segmentCount = (tokens topic).length ∧
      Builtin.transactions.FailsAt topic 2 (.invalidField "tx_id" .unmarked) ∧
      Builtin.transactions.parse topic = .error (.invalidField "tx_id" .unmarked) := by
  intro topic
  have checked : Builtin.transactions.check = .ok () := check_family (by decide +kernel)
  have paired : Builtin.transactions.segmentCount = (tokens topic).length := by decide +kernel
  have fails : Builtin.transactions.FailsAt topic 2 (.invalidField "tx_id" .unmarked) := by
    refine ⟨⟨.placeholder "tx_id", "ab", ⟨by decide +kernel, by decide +kernel⟩,
      .refused rfl rfl⟩, fun earlier before segment token ⟨here, there⟩ => ?_⟩
    -- In front of it stand the literal and a height.
    match earlier, before with
    | 0, _ =>
      cases here.symm.trans
        (by decide +kernel : Builtin.transactions.segments[0]? = some (.literal "transactions"))
      cases there.symm.trans (by decide +kernel : (tokens topic)[0]? = some "transactions")
      rfl
    | 1, _ =>
      cases here.symm.trans
        (by decide +kernel : Builtin.transactions.segments[1]? = some (.placeholder "block_height"))
      cases there.symm.trans (by decide +kernel : (tokens topic)[1]? = some "7")
      exact ⟨_, _, rfl, rfl⟩
  obtain ⟨-, -, -, refused, -⟩ := parse_outcome checked topic
  exact ⟨checked, paired, fails, (refused paired _).mpr ⟨2, fails⟩⟩

end Topics.Definition
