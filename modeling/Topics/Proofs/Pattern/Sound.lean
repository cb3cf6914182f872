import Topics.Proofs.Pattern.Covering

/-! A text without fault is one that selects some topic. Its steps select the same topics as the
text itself, and nothing but the text exactly if it has no wildcard. -/

namespace Topics

variable {parts found : List String}

/-- A text has no fault exactly if no token is empty and nothing stands behind a tail. -/
theorem patternFault?_eq_none {text : String} :
    patternFault? text = none ↔ "" ∉ tokens text ∧ TailsLast (tokens text) := by
  unfold patternFault? TailsLast
  by_cases empty : "" ∈ tokens text
  · simp [empty]
  · by_cases tailed : tailWildcard ∈ (tokens text).dropLast <;> simp [empty, tailed]

/-- An empty token takes an empty token only. -/
theorem Selects.empty_mem (selected : Selects parts found) (empty : "" ∈ parts) : "" ∈ found := by
  induction selected with
  | done => exact empty
  | tail token more => simp [tailWildcard] at empty
  | step single takes rest ih =>
    rcases List.mem_cons.mp empty with here | later
    · subst here
      -- The empty token is no wildcard.
      have same := takes.resolve_left (by decide)
      simp [← same]
    · simp [ih later]

/-- A text has no fault exactly if it selects some topic that has no empty token. -/
theorem sound_iff_selects (text : String) :
    patternFault? text = none ↔
      ∃ topic, "" ∉ tokens topic ∧ selects text topic = true := by
  rw [patternFault?_eq_none]
  constructor
  · rintro ⟨full, closed⟩
    -- The text is such a topic itself.
    exact ⟨text, full, selectsTokens_iff.mpr (.refl closed)⟩
  · rintro ⟨topic, full, selected⟩
    have taken := selectsTokens_iff.mp selected
    exact ⟨fun empty => full (taken.empty_mem empty), taken.tailsLast⟩

/-- Without wildcards, a pattern selects its own tokens only. -/
theorem selectsTokens_literals
    (literal : ∀ part ∈ parts, part ≠ singleWildcard ∧ part ≠ tailWildcard) :
    selectsTokens parts found = true ↔ found = parts := by
  have closed : tailWildcard ∉ parts := fun member => (literal _ member).2 rfl
  rw [selectsTokens_iff_forall₂ closed]
  constructor
  · intro each
    rw [← List.append_nil parts] at each
    obtain ⟨more, split, rest⟩ :=
      takes_literals_append (fun part member => (literal part member).1) each
    cases rest
    simpa using split
  · intro same
    subst same
    exact List.forall₂_same.mpr fun _ _ => Or.inr rfl

/-- A token without wildcard that the given one can stand for. -/
def sampleToken (part : String) : String :=
  if part = singleWildcard ∨ part = tailWildcard then "any" else part

/-- The sample of a token is no wildcard. -/
theorem sampleToken_ne (part : String) :
    sampleToken part ≠ singleWildcard ∧ sampleToken part ≠ tailWildcard := by
  unfold sampleToken
  split
  · decide
  · rename_i plain
    exact not_or.mp plain

/-- A text with a wildcard, and nothing behind a tail, selects a topic that is not the text. -/
theorem exists_selects_ne {text : String} (closed : TailsLast (tokens text))
    (wildcard : singleWildcard ∈ tokens text ∨ tailWildcard ∈ tokens text) :
    ∃ topic, selects text topic = true ∧ topic ≠ text := by
  let samples := (tokens text).map sampleToken
  -- Each token of the text stands for its sample, so the text selects the topic made of them.
  have stands : ∀ part ∈ tokens text, StandsFor part (sampleToken part) := by
    intro part _
    by_cases tail : part = tailWildcard
    · exact Or.inl tail
    · by_cases single : part = singleWildcard
      · exact Or.inr (Or.inl single)
      · exact Or.inr (Or.inr (by simp [sampleToken, tail, single]))
  have selected : Selects (tokens text) samples :=
    .of_forall₂ closed (List.forall₂_map_right_iff.mpr (List.forall₂_same.mpr stands))
  have free : ∀ token ∈ samples, separator ∉ token.toList := by
    intro token member
    obtain ⟨part, inside, same⟩ := List.mem_map.mp member
    rw [← same, sampleToken]
    split
    · decide
    · exact tokens_members_free inside
  have split : tokens (joinTokens samples) = samples :=
    tokens_joinTokens (by simp [samples, tokens_ne_nil]) free
  refine ⟨joinTokens samples, ?_, ?_⟩
  · rw [selects, split]
    exact selectsTokens_iff.mpr selected
  · intro same
    -- The text would have no wildcard, because none of its tokens' samples is one.
    have none : ∀ token ∈ tokens text, token ≠ singleWildcard ∧ token ≠ tailWildcard := by
      intro token member
      rw [← same, split] at member
      obtain ⟨part, _, sampled⟩ := List.mem_map.mp member
      exact sampled ▸ sampleToken_ne part
    rcases wildcard with single | tail
    · exact (none _ single).1 rfl
    · exact (none _ tail).2 rfl

/-- The steps of tokens select what the tokens select, if nothing stands behind a tail. -/
theorem selectsSteps_eq (closed : TailsLast parts) :
    selectsSteps (parts.map PatternStep.ofToken) found = selectsTokens parts found := by
  -- Both go through the pattern and the topic together, so the topic is kept general.
  induction parts generalizing found with
  | nil => rfl
  | cons part parts ih =>
    have behind (rest : List String) :
        selectsSteps (parts.map PatternStep.ofToken) rest = selectsTokens parts rest :=
      ih closed.behind
    by_cases tail : part = tailWildcard
    · -- The steps leave out to ask whether the tail is the last token, and it is.
      have ended : parts = [] := by simpa [tailsLast_cons, tail] using closed
      subst tail ended
      cases found <;> rfl
    · by_cases single : part = singleWildcard
      · have step : PatternStep.ofToken part = .single := by simp [PatternStep.ofToken, single]
        cases found with
        | nil => simp [step, selectsSteps, selectsTokens, tail]
        | cons token found =>
          have any : (part == singleWildcard) = true := by simpa using single
          simp [step, selectsSteps, selectsTokens, tail, any, behind]
      · have step : PatternStep.ofToken part = .exact part := by
          simp [PatternStep.ofToken, single, tail]
        cases found with
        | nil => simp [step, selectsSteps, selectsTokens, tail]
        | cons token found =>
          have other : (part == singleWildcard) = false := by simpa using single
          simp [step, selectsSteps, selectsTokens, tail, other, behind]

namespace Pattern

/-- A pattern is made from its own text, and from no other. -/
theorem ofText_eq_ok {text : String} {pattern : Pattern} :
    ofText text = .ok pattern ↔ pattern.text = text := by
  unfold ofText
  constructor
  · intro made
    split at made
    · cases made
    · cases made
      rfl
  · intro same
    subst same
    split
    · rename_i found fault
      simp [pattern.sound] at fault
    · -- The steps follow from the text.
      obtain ⟨text, steps, sound, compiled⟩ := pattern
      subst compiled
      rfl

/-- Exactly the texts without fault are made into patterns. -/
theorem exists_ofText_iff {text : String} :
    (∃ pattern, ofText text = .ok pattern) ↔ patternFault? text = none := by
  constructor
  · rintro ⟨pattern, made⟩
    rw [← ofText_eq_ok.mp made]
    exact pattern.sound
  · intro sound
    exact ⟨⟨text, _, sound, rfl⟩, ofText_eq_ok.mpr rfl⟩

/-- A pattern selects the topics that its text selects. -/
theorem selects_eq (pattern : Pattern) (topic : String) :
    pattern.selects topic = Topics.selects pattern.text topic := by
  have closed := (patternFault?_eq_none.mp pattern.sound).2
  rw [Pattern.selects, pattern.compiled, selectsSteps_eq closed, Topics.selects]

/-- A pattern is literal exactly if no token of its text is a wildcard. -/
theorem isLiteral_iff (pattern : Pattern) :
    pattern.isLiteral = true ↔
      ∀ part ∈ tokens pattern.text, part ≠ singleWildcard ∧ part ≠ tailWildcard := by
  rw [isLiteral, pattern.compiled, List.all_map, List.all_eq_true]
  refine forall₂_congr fun part _ => ?_
  by_cases single : part = singleWildcard
  · simp [PatternStep.ofToken, single]
  · by_cases tail : part = tailWildcard
    · simp [PatternStep.ofToken, tail, tail ▸ single]
    · simp [PatternStep.ofToken, single, tail]

/-- Exactly the texts without fault are made into patterns. Such a pattern selects what its text
selects, and it is literal exactly if its text is the only topic that it selects. -/
theorem ofText_agrees (text : String) :
    ((∃ pattern, ofText text = .ok pattern) ↔ patternFault? text = none) ∧
      ∀ pattern, ofText text = .ok pattern →
        (∀ topic, pattern.selects topic = Topics.selects text topic) ∧
          (pattern.isLiteral = true ↔ ∀ topic, pattern.selects topic = true ↔ topic = text) := by
  refine ⟨exists_ofText_iff, fun pattern made => ?_⟩
  have same := ofText_eq_ok.mp made
  have agrees (topic : String) : pattern.selects topic = Topics.selects text topic :=
    same ▸ pattern.selects_eq topic
  refine ⟨agrees, ?_⟩
  simp only [agrees]
  rw [pattern.isLiteral_iff, same]
  constructor
  · intro literal topic
    -- Texts are known by their tokens.
    rw [Topics.selects, selectsTokens_literals literal, tokens_inj]
  · intro only part member
    have closed := (patternFault?_eq_none.mp (same ▸ pattern.sound)).2
    -- With a wildcard, the text would not be the only topic.
    have plain : ¬ (singleWildcard ∈ tokens text ∨ tailWildcard ∈ tokens text) := by
      intro wildcard
      obtain ⟨topic, selected, other⟩ := exists_selects_ne closed wildcard
      exact other ((only topic).mp selected)
    exact ⟨fun single => plain (Or.inl (single ▸ member)),
      fun tail => plain (Or.inr (tail ▸ member))⟩

/-- A pattern is made for the coins among the inputs, which selects more than its own text. -/
theorem ofText_agrees_coins :
    ∃ pattern, ofText "inputs.coin.*.>" = .ok pattern ∧
      pattern.selects "inputs.coin.7.2" = true ∧ pattern.selects "inputs.coin.7" = false ∧
      pattern.isLiteral = false := by
  obtain ⟨made, each⟩ := ofText_agrees "inputs.coin.*.>"
  obtain ⟨pattern, made⟩ := made.mpr (by decide)
  obtain ⟨agrees, literal⟩ := each pattern made
  have longer : pattern.selects "inputs.coin.7.2" = true := by
    rw [agrees]
    decide
  have short : pattern.selects "inputs.coin.7" = false := by
    rw [agrees]
    decide
  refine ⟨pattern, made, longer, short, ?_⟩
  rw [Bool.eq_false_iff]
  intro plain
  exact absurd ((literal.mp plain _).mp longer) (by decide)

end Pattern

end Topics
