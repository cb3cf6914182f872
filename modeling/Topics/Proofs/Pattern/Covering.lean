import Topics.Proofs.Pattern

/-! A pattern can be tried on another pattern as if that one were a topic. It covers what it selects
in this way, unless only the other one ends in a tail. -/

namespace Topics

/-- Whether a token of a pattern can stand for one token of a topic, as a tail can for any. -/
def StandsFor (part token : String) : Prop := part = tailWildcard ∨ Takes part token

/-- How the tokens of a pattern select the tokens of a topic. -/
inductive Selects : List String → List String → Prop where
  /-- Both end together. -/
  | done : Selects [] []
  /-- A tail as the last token takes all that is left, which is something. -/
  | tail (token : String) (more : List String) : Selects [tailWildcard] (token :: more)
  /-- Any other token takes one token. -/
  | step {part token : String} {parts found : List String} (single : part ≠ tailWildcard)
      (takes : Takes part token) (rest : Selects parts found) :
      Selects (part :: parts) (token :: found)

/-- Whether the last token is a tail. -/
def EndsInTail (parts : List String) : Prop := parts.getLast? = some tailWildcard

/-- Whether no token stands behind a tail. -/
def TailsLast (parts : List String) : Prop := tailWildcard ∉ parts.dropLast

instance (parts : List String) : Decidable (EndsInTail parts) :=
  inferInstanceAs (Decidable (parts.getLast? = some tailWildcard))

instance (parts : List String) : Decidable (TailsLast parts) :=
  inferInstanceAs (Decidable (tailWildcard ∉ parts.dropLast))

variable {part token : String} {parts found wide narrow : List String}

/-- The tokens of a pattern select those of a topic exactly when each is tried in its turn. -/
theorem selectsTokens_iff : selectsTokens parts found = true ↔ Selects parts found := by
  constructor
  · intro selected
    -- The topic grows shorter along with the pattern, so it is kept general.
    induction parts generalizing found with
    | nil =>
      have ended : found = [] := by simpa [selectsTokens] using selected
      subst ended
      exact .done
    | cons part parts ih =>
      cases found with
      | nil => simp [selectsTokens] at selected
      | cons token found =>
        by_cases last : part = tailWildcard
        · -- A tail selects only as the last token.
          have ended : parts = [] := by simpa [selectsTokens, last] using selected
          subst last ended
          exact .tail token found
        · simp only [selectsTokens, if_neg last, Bool.and_eq_true, Bool.or_eq_true,
            beq_iff_eq] at selected
          exact .step last selected.1 (ih selected.2)
  · intro selected
    induction selected with
    | done => rfl
    | tail token more => simp [selectsTokens]
    | step single takes rest ih => simpa [selectsTokens, single, ih, Takes] using takes

/-- Where the first token is no tail, it plays no part in how the tokens end. -/
theorem endsInTail_cons (single : part ≠ tailWildcard) :
    EndsInTail (part :: parts) ↔ EndsInTail parts := by
  cases parts <;> simp [EndsInTail, single]

/-- The first token is the only one, or no tail. -/
theorem tailsLast_cons :
    TailsLast (part :: parts) ↔ parts = [] ∨ (part ≠ tailWildcard ∧ TailsLast parts) := by
  cases parts <;> simp [TailsLast, eq_comm]

/-- What holds of all tokens holds of those behind the first one. -/
theorem TailsLast.behind (closed : TailsLast (part :: parts)) : TailsLast parts := by
  rcases tailsLast_cons.mp closed with ended | ⟨_, behind⟩
  · simp [ended, TailsLast]
  · exact behind

namespace Selects

/-- What selects anything has nothing behind a tail. -/
theorem tailsLast (selected : Selects parts found) : TailsLast parts := by
  induction selected with
  | done => simp [TailsLast]
  | tail token more => simp [TailsLast]
  | step single takes rest ih => exact tailsLast_cons.mpr (Or.inr ⟨single, ih⟩)

/-- Tokens that stand for one token each select as many, if nothing stands behind a tail. -/
theorem of_forall₂ (closed : TailsLast parts) (each : List.Forall₂ StandsFor parts found) :
    Selects parts found := by
  induction each with
  | nil => exact .done
  | @cons part token parts found stands others ih =>
    by_cases last : part = tailWildcard
    · -- The tail is the last token, and so is the one that it takes.
      have ended : parts = [] := by simpa [tailsLast_cons, last] using closed
      subst last ended
      cases others
      exact .tail token []
    · exact .step last (stands.resolve_left last) (ih closed.behind)

/-- A pattern selects itself if nothing stands behind a tail. -/
theorem refl (closed : TailsLast parts) : Selects parts parts :=
  .of_forall₂ closed (List.forall₂_same.mpr fun _ _ => Or.inr (Or.inr rfl))

/-- A pattern that ends in a tail goes on selecting when more tokens follow. -/
theorem append (ends : EndsInTail parts) (selected : Selects parts found) (more : List String) :
    Selects parts (found ++ more) := by
  induction selected with
  | done => simp [EndsInTail] at ends
  | tail token others => exact .tail token (others ++ more)
  | step single takes rest ih =>
    exact .step single takes (ih ((endsInTail_cons single).mp ends))

/-- A pattern that does not end in a tail selects topics of its own length only. -/
theorem length_eq (ends : ¬ EndsInTail parts) (selected : Selects parts found) :
    parts.length = found.length := by
  induction selected with
  | done => rfl
  | tail token others => simp [EndsInTail] at ends
  | step single takes rest ih =>
    have lengths := ih fun behind => ends ((endsInTail_cons single).mpr behind)
    rw [List.length_cons, List.length_cons, lengths]

/-- What a pattern selects of another pattern's tokens, it selects of that pattern's topics, if it
ends in a tail wherever the other one does. -/
theorem trans (ends : EndsInTail narrow → EndsInTail wide) (first : Selects wide narrow)
    (second : Selects narrow found) : Selects wide found := by
  -- The induction is on how the first pattern selects the second one.
  induction first generalizing found with
  | done => exact second
  | tail token more =>
    -- All that is asked of the topic is that it has a token.
    cases second with
    | tail token others => exact .tail token others
    | @step _ token _ found _ _ _ => exact .tail token found
  | @step part _ _ _ single takes rest ih =>
    cases second with
    | tail token others =>
      -- The second pattern ends here in a tail, and the first one in a token that is none.
      cases rest
      have same : part = tailWildcard := by simpa [EndsInTail] using ends
      exact absurd same single
    | step single' takes' rest' =>
      rw [endsInTail_cons single, endsInTail_cons single'] at ends
      exact .step single (takes.trans takes') (ih ends rest')

end Selects

/-- A pattern that ends in its only tail selects a topic that is one token longer. -/
theorem exists_selects_longer {narrow : String} (closed : TailsLast (tokens narrow))
    (ends : EndsInTail (tokens narrow)) :
    ∃ topic, selects narrow topic = true ∧
      (tokens topic).length = (tokens narrow).length + 1 := by
  have free : ∀ token ∈ tokens narrow ++ [tailWildcard], separator ∉ token.toList := by
    intro token member
    rcases List.mem_append.mp member with inside | last
    · exact tokens_members_free inside
    · rw [List.mem_singleton.mp last]
      decide
  have split := tokens_joinTokens (by simp) free
  -- The pattern selects itself, and whatever is put behind it.
  have longer := (Selects.refl closed).append ends [tailWildcard]
  refine ⟨joinTokens (tokens narrow ++ [tailWildcard]), ?_, ?_⟩
  · rw [selects, split]
    exact selectsTokens_iff.mpr longer
  · rw [split, List.length_append, List.length_singleton]

/-- A pattern covers another one exactly if that one selects nothing, or if it selects that one as a
topic and ends in a tail wherever that one does. -/
theorem covers_iff_selects (wide narrow : String) :
    Covers wide narrow ↔ ¬ TailsLast (tokens narrow) ∨
      (selects wide narrow = true ∧ (EndsInTail (tokens narrow) → EndsInTail (tokens wide))) := by
  constructor
  · intro covers
    by_cases closed : TailsLast (tokens narrow)
    · -- The other pattern is among its own topics.
      have taken := covers narrow (selectsTokens_iff.mpr (.refl closed))
      refine Or.inr ⟨taken, fun ends => ?_⟩
      by_contra short
      -- So is a longer topic, and the first pattern cannot be as long as both.
      obtain ⟨topic, longer, length⟩ := exists_selects_longer closed ends
      have first := (selectsTokens_iff.mp taken).length_eq short
      have second := (selectsTokens_iff.mp (covers topic longer)).length_eq short
      omega
    · exact Or.inl closed
  · intro either topic selected
    have inner := selectsTokens_iff.mp selected
    rcases either with idle | ⟨taken, ends⟩
    · exact absurd inner.tailsLast idle
    · exact selectsTokens_iff.mpr (.trans ends (selectsTokens_iff.mp taken) inner)

/-- A pattern that selects another one as a topic selects what the other one selects, unless only
the other one ends in a tail. -/
theorem selects_trans {wide narrow topic : String} (first : selects wide narrow = true)
    (second : selects narrow topic = true)
    (ends : ¬ EndsInTail (tokens narrow) ∨ EndsInTail (tokens wide)) :
    selects wide topic = true := by
  have outer := selectsTokens_iff.mp first
  have inner := selectsTokens_iff.mp second
  have tails : EndsInTail (tokens narrow) → EndsInTail (tokens wide) := by
    intro tailed
    exact ends.resolve_left fun short => short tailed
  exact selectsTokens_iff.mpr (.trans tails outer inner)

/-- The pattern of all outputs selects that of the coins among them, and so their topics. -/
theorem selects_trans_outputs :
    selects "outputs.*.>" "outputs.coin.>" = true ∧
      selects "outputs.coin.>" "outputs.coin.7.2" = true ∧
      EndsInTail (tokens "outputs.*.>") ∧ selects "outputs.*.>" "outputs.coin.7.2" = true := by
  have first : selects "outputs.*.>" "outputs.coin.>" = true := by decide
  have second : selects "outputs.coin.>" "outputs.coin.7.2" = true := by decide
  have ends : EndsInTail (tokens "outputs.*.>") := by decide
  exact ⟨first, second, ends, selects_trans first second (Or.inr ends)⟩

/-- It is not enough to take the tail as one token, because the tail takes more. -/
example : selects "outputs.*" "outputs.>" = true ∧ selects "outputs.>" "outputs.coin.7" = true ∧
    selects "outputs.*" "outputs.coin.7" = false := by
  decide

end Topics
