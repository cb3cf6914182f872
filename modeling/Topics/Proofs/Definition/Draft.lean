import Topics.Definition.Draft
import Topics.Proofs.Definition.BuildOutcome

/-! A draft keeps the value that was chosen last for each field, so what it builds depends neither on
the order in which the fields were chosen nor on the values that were replaced. -/

namespace Topics

/-- What is chosen for a field in one step. -/
inductive Choice where
  /-- A value. -/
  | certain (field : String) (value : Value)
  /-- A value, or none, which leaves the field as it is. -/
  | perhaps (field : String) (value : Option Value)

namespace Choice

/-- The value that a choice gives to a field. -/
def valueFor? (field : String) : Choice → Option Value
  | certain other value => if other = field then some value else none
  | perhaps other value => if other = field then value else none

/-- The last value that is given to a field. -/
def lastValue? (field : String) (choices : List Choice) : Option Value :=
  (choices.filterMap (valueFor? field)).getLast?

/-- A first choice counts where no later one gives a value. -/
theorem lastValue?_cons (field : String) (choice : Choice) (rest : List Choice) :
    lastValue? field (choice :: rest) = (lastValue? field rest).or (choice.valueFor? field) := by
  unfold lastValue?
  -- A choice that gives the field no value drops out of the list.
  cases given : choice.valueFor? field with
  | none => rw [List.filterMap_cons_none given, Option.or_none]
  | some value => rw [List.filterMap_cons_some given, List.getLast?_cons, Option.or_some]

end Choice

namespace Draft

variable {definition : Definition} {first second : List Choice} {text : String}

/-- The draft after one choice. -/
def after (draft : Draft) : Choice → Draft
  | .certain field value => draft.choose field value
  | .perhaps field value => draft.choose? field value

/-- The draft after some choices. -/
def afterAll (draft : Draft) (choices : List Choice) : Draft := choices.foldl after draft

/-- A choice gives its value to the field, and all else stays as it is. -/
theorem get?_after (draft : Draft) (choice : Choice) (field : String) :
    (draft.after choice).values.get? field =
      (choice.valueFor? field).or (draft.values.get? field) := by
  cases choice with
  | certain other value =>
    rw [after, choose, OrderedMap.get?_insert, Choice.valueFor?]
    split <;> rfl
  | perhaps other value =>
    cases value with
    | none =>
      -- The draft stays as it is.
      simp [after, choose?, Choice.valueFor?]
    | some held =>
      rw [after, choose?, choose, OrderedMap.get?_insert, Choice.valueFor?]
      split <;> rfl

/-- After some choices a field has the last value that they give to it, and without any the one that
it had before. -/
theorem get?_afterAll (draft : Draft) (choices : List Choice) (field : String) :
    (draft.afterAll choices).values.get? field =
      (Choice.lastValue? field choices).or (draft.values.get? field) := by
  -- The draft before the other choices changes with each of them.
  induction choices generalizing draft with
  | nil => rfl
  | cons choice rest ih =>
    have step : draft.afterAll (choice :: rest) = (draft.after choice).afterAll rest := rfl
    rw [step, ih, get?_after, Choice.lastValue?_cons, Option.or_assoc]

/-- Choices leave the family as it is. -/
theorem definition_afterAll (draft : Draft) (choices : List Choice) :
    (draft.afterAll choices).definition = draft.definition := by
  induction choices generalizing draft with
  | nil => rfl
  | cons choice rest ih =>
    -- Each choice touches the values only.
    have step : (draft.after choice).definition = draft.definition := by
      cases choice with
      | certain field value => rfl
      | perhaps field value => cases value <;> rfl
    exact (ih (draft.after choice)).trans step

private theorem build_of_lastValue {mode : BuildMode}
    (same : ∀ field, Choice.lastValue? field first = Choice.lastValue? field second)
    (built : definition.build ((ofDefinition definition).afterAll first).values mode = .ok text) :
    definition.build ((ofDefinition definition).afterAll second).values mode = .ok text := by
  -- The two drafts differ at most in the order of their values.
  refine Definition.build_congr (fun name => ?_) built
  rw [get?_afterAll, get?_afterAll, same name]

/-- Choices that give the same last value to each field make the same topic and the same pattern, or
none at all. -/
theorem builds_of_lastValue
    (same : ∀ field, Choice.lastValue? field first = Choice.lastValue? field second) :
    (∀ text, ((ofDefinition definition).afterAll first).topic = .ok text ↔
        ((ofDefinition definition).afterAll second).topic = .ok text) ∧
      ∀ text, ((ofDefinition definition).afterAll first).pattern = .ok text ↔
        ((ofDefinition definition).afterAll second).pattern = .ok text := by
  have same' := fun field => (same field).symm
  -- Topics and patterns are built from the same values.
  simp only [topic, pattern, definition_afterAll]
  exact ⟨fun text => ⟨build_of_lastValue same, build_of_lastValue same'⟩,
    fun text => ⟨build_of_lastValue same, build_of_lastValue same'⟩⟩

/-- A block whose height is chosen twice and one whose fields are chosen in another order have the
same topic, which is their pattern as well. -/
theorem builds_of_lastValue_block :
    let producer : Value := .ofIdentifier (.replicate 0xab)
    let first : List Choice := [.certain "height" (.uint 9), .certain "producer" producer,
      .perhaps "da_height" none, .certain "da_height" (.uint 0), .certain "height" (.uint 7)]
    let second : List Choice := [.perhaps "da_height" (some (.uint 0)), .certain "height" (.uint 7),
      .perhaps "height" none, .certain "producer" producer]
    let topic := "blocks.0xabababababababababababababababababababababababababababababababab.0.7"
    (∀ field, Choice.lastValue? field first = Choice.lastValue? field second) ∧
      ((ofDefinition Builtin.blocks).afterAll first).values ≠
        ((ofDefinition Builtin.blocks).afterAll second).values ∧
      ((ofDefinition Builtin.blocks).afterAll first).topic = .ok topic ∧
      ((ofDefinition Builtin.blocks).afterAll second).topic = .ok topic ∧
      ((ofDefinition Builtin.blocks).afterAll second).pattern = .ok topic := by
  intro producer first second topic
  have same : ∀ field, Choice.lastValue? field first = Choice.lastValue? field second := by
    intro field
    by_cases height : field = "height"
    · subst height
      rfl
    · by_cases layer : field = "da_height"
      · subst layer
        rfl
      · simp [first, second, Choice.lastValue?, Choice.valueFor?, Ne.symm height, Ne.symm layer]
  have built : ((ofDefinition Builtin.blocks).afterAll first).topic = .ok topic := by decide +kernel
  have built' : ((ofDefinition Builtin.blocks).afterAll first).pattern = .ok topic :=
    Definition.build_pattern_of_topic built
  obtain ⟨topics, patterns⟩ := builds_of_lastValue same
  exact ⟨same, by decide +kernel, built, (topics topic).mp built, (patterns topic).mp built'⟩

end Draft

end Topics
