/-! Topics and patterns are read as the tokens between their dots. -/

namespace Topics

/-- The character that stands between two tokens. -/
def separator : Char := '.'

/-- The runs of characters between separators; an empty text is one empty run. -/
def splitRuns : List Char → List (List Char)
  | [] => [[]]
  | c :: rest =>
    if c = separator then [] :: splitRuns rest
    else match splitRuns rest with
      | [] => [[c]]
      | run :: runs => (c :: run) :: runs

/-- Runs of characters put together with one separator between neighbours. -/
def joinRuns : List (List Char) → List Char
  | [] => []
  | [run] => run
  | run :: next :: runs => run ++ separator :: joinRuns (next :: runs)

/-- The tokens of a text, in order; there is always at least one. -/
def tokens (text : String) : List String :=
  (splitRuns text.toList).map String.ofList

/-- The text whose tokens are the given ones. -/
def joinTokens (parts : List String) : String :=
  String.ofList (joinRuns (parts.map String.toList))

/-- Splitting always yields a first run. -/
theorem splitRuns_ne_nil (cs : List Char) : splitRuns cs ≠ [] := by
  cases cs with
  | nil => simp [splitRuns]
  | cons c rest =>
    simp only [splitRuns]
    split
    · simp
    · split <;> simp

/-- A separator in front opens with an empty run. -/
theorem splitRuns_separator (cs : List Char) :
    splitRuns (separator :: cs) = [] :: splitRuns cs := by
  simp [splitRuns]

/-- Any other character in front lengthens the first run. -/
theorem splitRuns_cons {c : Char} {cs run : List Char} {runs : List (List Char)}
    (other : c ≠ separator) (tail : splitRuns cs = run :: runs) :
    splitRuns (c :: cs) = (c :: run) :: runs := by
  simp [splitRuns, other, tail]

/-- Putting the runs of a text together again gives the text. -/
theorem joinRuns_splitRuns (cs : List Char) : joinRuns (splitRuns cs) = cs := by
  induction cs with
  | nil => rfl
  | cons c rest ih =>
    -- The remaining text has a first run, which `c` either precedes or joins.
    cases tail : splitRuns rest with
    | nil => exact absurd tail (splitRuns_ne_nil rest)
    | cons run runs =>
      rw [tail] at ih
      by_cases dot : c = separator
      · subst dot
        rw [splitRuns_separator, tail, joinRuns, ih, List.nil_append]
      · rw [splitRuns_cons dot tail]
        cases runs with
        | nil => simpa [joinRuns] using ih
        | cons next more => simpa [joinRuns] using ih

/-- A run without separators is its own only run. -/
theorem splitRuns_free {run : List Char} (free : separator ∉ run) : splitRuns run = [run] := by
  induction run with
  | nil => rfl
  | cons c rest ih =>
    simp only [List.mem_cons, not_or] at free
    exact splitRuns_cons (Ne.symm free.1) (ih free.2)

/-- A run without separators, a separator and a text split into the run and the text's runs. -/
theorem splitRuns_append {run : List Char} (free : separator ∉ run) (cs : List Char) :
    splitRuns (run ++ separator :: cs) = run :: splitRuns cs := by
  -- Each character of the run lengthens the first run of what follows it.
  induction run with
  | nil => exact splitRuns_separator cs
  | cons c rest ih =>
    simp only [List.mem_cons, not_or] at free
    exact splitRuns_cons (Ne.symm free.1) (ih free.2)

/-- Runs without separators are found again after they are put together. -/
theorem splitRuns_joinRuns {runs : List (List Char)} (some_run : runs ≠ [])
    (free : ∀ run ∈ runs, separator ∉ run) : splitRuns (joinRuns runs) = runs := by
  -- The first separator in the joined text is the one behind the first run.
  induction runs with
  | nil => exact absurd rfl some_run
  | cons run rest ih =>
    have head : separator ∉ run := free run (by simp)
    cases rest with
    | nil => exact splitRuns_free head
    | cons next more =>
      rw [joinRuns, splitRuns_append head, ih (by simp) (fun r member => free r (by simp [member]))]

/-- No run holds a separator. -/
theorem splitRuns_members_free (cs : List Char) : ∀ run ∈ splitRuns cs, separator ∉ run := by
  -- A separator opens a new run, and only other characters lengthen one.
  induction cs with
  | nil => simp [splitRuns]
  | cons c rest ih =>
    intro run member
    by_cases dot : c = separator
    · subst dot
      rw [splitRuns_separator] at member
      rcases List.mem_cons.mp member with rfl | member
      · simp
      · exact ih run member
    · cases tail : splitRuns rest with
      | nil => exact absurd tail (splitRuns_ne_nil rest)
      | cons first runs =>
        rw [splitRuns_cons dot tail] at member
        rcases List.mem_cons.mp member with rfl | member
        · have free := ih first (by simp [tail])
          simp [free, Ne.symm dot]
        · exact ih run (by simp [tail, member])

/-- A text has at least one token. -/
theorem tokens_ne_nil (text : String) : tokens text ≠ [] := by
  simp [tokens, splitRuns_ne_nil]

/-- Joining the tokens of a text gives the text. -/
theorem joinTokens_tokens (text : String) : joinTokens (tokens text) = text := by
  simp [joinTokens, tokens, Function.comp_def, joinRuns_splitRuns]

/-- Texts with the same tokens are the same. -/
theorem tokens_inj {first second : String} : tokens first = tokens second ↔ first = second := by
  constructor
  · intro same
    rw [← joinTokens_tokens first, same, joinTokens_tokens]
  · intro same
    rw [same]

/-- No token of a text holds a separator. -/
theorem tokens_members_free {text part : String} (member : part ∈ tokens text) :
    separator ∉ part.toList := by
  simp only [tokens, List.mem_map] at member
  obtain ⟨run, found, rfl⟩ := member
  simpa using splitRuns_members_free text.toList run found

/-- Parts without separators are the tokens of the text they are joined to. -/
theorem tokens_joinTokens {parts : List String} (some_part : parts ≠ [])
    (free : ∀ part ∈ parts, separator ∉ part.toList) : tokens (joinTokens parts) = parts := by
  -- What holds of runs of characters carries over to texts.
  rw [tokens, joinTokens, String.toList_ofList, splitRuns_joinRuns]
  · simp [Function.comp_def]
  · simpa using some_part
  · intro run member
    simp only [List.mem_map] at member
    obtain ⟨part, found, rfl⟩ := member
    exact free part found

end Topics
