import Topics.Pattern
import Mathlib.Data.List.Forall2

/-! A pattern without a tail selects token by token, and one with a tail by what stands in front. -/

namespace Topics

/-- Whether one token of a pattern takes one token of a topic. -/
def Takes (part token : String) : Prop := part = singleWildcard ∨ part = token

/-- Without a tail wildcard, a pattern selects the topics whose tokens it takes one by one. -/
theorem selectsTokens_iff_forall₂ {parts found : List String} (closed : tailWildcard ∉ parts) :
    selectsTokens parts found = true ↔ List.Forall₂ Takes parts found := by
  induction parts generalizing found with
  | nil => cases found <;> simp [selectsTokens]
  | cons part rest ih =>
    -- The first part is no tail wildcard, so it stands for one token.
    simp only [List.mem_cons, not_or] at closed
    cases found with
    | nil => simp [selectsTokens, Ne.symm closed.1]
    | cons token more =>
      simp only [selectsTokens, if_neg (Ne.symm closed.1), Bool.and_eq_true, Bool.or_eq_true,
        beq_iff_eq, ih closed.2, List.forall₂_cons, Takes]

/-- Behind other tokens, a tail wildcard stands for one token or more, and nothing may stand behind
it. -/
theorem selectsTokens_append_tail {front back found : List String} (closed : tailWildcard ∉ front) :
    selectsTokens (front ++ tailWildcard :: back) found = true ↔
      back = [] ∧ ∃ taken token more, found = taken ++ token :: more ∧
        List.Forall₂ Takes front taken := by
  induction front generalizing found with
  | nil =>
    -- The tail is reached, and it takes whatever there is.
    cases found <;> simp [selectsTokens]
  | cons part rest ih =>
    simp only [List.mem_cons, not_or] at closed
    cases found with
    | nil => simp [selectsTokens, Ne.symm closed.1]
    | cons first others =>
      -- The first part is no tail wildcard, so it stands for one token.
      simp only [List.cons_append, selectsTokens, if_neg (Ne.symm closed.1), Bool.and_eq_true,
        Bool.or_eq_true, beq_iff_eq, ih closed.2]
      constructor
      · rintro ⟨takes, rfl, taken, token, more, rfl, each⟩
        exact ⟨rfl, first :: taken, token, more, rfl, .cons takes each⟩
      · rintro ⟨rfl, taken, token, more, split, each⟩
        obtain ⟨_, taken, takes, others, rfl⟩ := List.forall₂_cons_left_iff.mp each
        simp only [List.cons_append, List.cons.injEq] at split
        obtain ⟨rfl, rfl⟩ := split
        exact ⟨takes, rfl, taken, token, more, rfl, others⟩

/-- Literals take themselves only, whatever stands behind them. -/
theorem takes_literals_append {lead parts found : List String}
    (literal : ∀ text ∈ lead, text ≠ singleWildcard)
    (takes : List.Forall₂ Takes (lead ++ parts) found) :
    ∃ more, found = lead ++ more ∧ List.Forall₂ Takes parts more := by
  induction lead generalizing found with
  | nil => exact ⟨found, rfl, takes⟩
  | cons text rest ih =>
    obtain ⟨token, more, first, others, rfl⟩ := List.forall₂_cons_left_iff.mp takes
    -- The literal is no wildcard, so the token is the literal.
    have same : text = token := first.resolve_left (literal text (by simp))
    have behind : ∀ other ∈ rest, other ≠ singleWildcard := by
      intro other member
      exact literal other (by simp [member])
    obtain ⟨last, split, taken⟩ := ih behind others
    exact ⟨last, by rw [split, same, List.cons_append], taken⟩

/-- Literals and a tail select the topics with the literals in front and something behind them. -/
theorem selectsTokens_tail {lead found : List String}
    (literal : ∀ text ∈ lead, text ≠ singleWildcard ∧ text ≠ tailWildcard) :
    selectsTokens (lead ++ [tailWildcard]) found = true ↔
      ∃ token more, found = lead ++ token :: more := by
  have closed : tailWildcard ∉ lead := fun member => (literal _ member).2 rfl
  rw [selectsTokens_append_tail closed]
  constructor
  · rintro ⟨-, taken, token, more, rfl, each⟩
    -- What the literals take are the literals, and nothing is left over in front of the tail.
    rw [← List.append_nil lead] at each
    obtain ⟨rest, rfl, none⟩ :=
      takes_literals_append (fun text member => (literal text member).1) each
    cases none
    exact ⟨token, more, by rw [List.append_nil]⟩
  · rintro ⟨token, more, rfl⟩
    exact ⟨rfl, lead, token, more, rfl, List.forall₂_same.mpr fun _ _ => Or.inr rfl⟩

/-- The first pattern selects each topic that the second one selects. -/
def Covers (wide narrow : String) : Prop :=
  ∀ topic, selects narrow topic = true → selects wide topic = true

/-- No topic is selected by both patterns. -/
def Apart (first second : String) : Prop :=
  ∀ topic, ¬ (selects first topic = true ∧ selects second topic = true)

/-- A token that takes another one takes all that the other takes. -/
theorem Takes.trans {part token found : String} (first : Takes part token)
    (second : Takes token found) : Takes part found := by
  rcases first with rfl | rfl
  · exact Or.inl rfl
  · exact second

private theorem forall₂_takes_trans {parts others found : List String}
    (first : List.Forall₂ Takes parts others) (second : List.Forall₂ Takes others found) :
    List.Forall₂ Takes parts found := by
  -- All three lists grow shorter together, so the last one is kept general.
  induction first generalizing found with
  | nil => exact second
  | cons takes _ ih =>
    obtain ⟨token, more, again, rest, rfl⟩ := List.forall₂_cons_left_iff.mp second
    exact .cons (takes.trans again) (ih rest)

/-- Without tails, a pattern that takes the tokens of another pattern covers it. -/
theorem covers_of_forall₂ {wide narrow : String} (closed : tailWildcard ∉ tokens wide)
    (closed' : tailWildcard ∉ tokens narrow)
    (takes : List.Forall₂ Takes (tokens wide) (tokens narrow)) : Covers wide narrow := by
  intro topic selected
  have matched := (selectsTokens_iff_forall₂ closed').mp selected
  exact (selectsTokens_iff_forall₂ closed).mpr (forall₂_takes_trans takes matched)

/-- Each token of a pattern takes the token of the topic in its place, as far as both go. -/
def TakesInPlace (parts found : List String) : Prop :=
  ∀ (i : Nat) (part token : String),
    parts[i]? = some part → found[i]? = some token → Takes part token

/-- Lists are related member by member exactly when they are of one length and related in each
place. -/
theorem forall₂_iff_inPlace {α : Type u} {β : Type v} {R : α → β → Prop} {xs : List α}
    {ys : List β} : List.Forall₂ R xs ys ↔ xs.length = ys.length ∧
      ∀ (i : Nat) (x : α) (y : β), xs[i]? = some x → ys[i]? = some y → R x y := by
  rw [List.forall₂_iff_get]
  refine and_congr_right fun _ => ⟨fun each i x y here there => ?_, fun each i inside inside' => ?_⟩
  · -- A place where both have a member is a place inside both.
    obtain ⟨inside, rfl⟩ := List.getElem?_eq_some_iff.mp here
    obtain ⟨inside', rfl⟩ := List.getElem?_eq_some_iff.mp there
    exact each i inside inside'
  · exact each i _ _ (List.getElem?_eq_getElem inside) (List.getElem?_eq_getElem inside')

/-- Tokens are taken one by one exactly when there are as many, each taken in its place. -/
theorem forall₂_takes_iff {parts found : List String} :
    List.Forall₂ Takes parts found ↔ parts.length = found.length ∧ TakesInPlace parts found :=
  forall₂_iff_inPlace

/-- What stands behind the last token of a pattern plays no part. -/
theorem takesInPlace_append {parts taken more : List String}
    (lengths : parts.length = taken.length) :
    TakesInPlace parts (taken ++ more) ↔ TakesInPlace parts taken := by
  have same (i : Nat) (inside : i < parts.length) : (taken ++ more)[i]? = taken[i]? :=
    List.getElem?_append_left (lengths ▸ inside)
  constructor
  · intro each i part token here there
    obtain ⟨inside, -⟩ := List.getElem?_eq_some_iff.mp here
    exact each i part token here ((same i inside).trans there)
  · intro each i part token here there
    obtain ⟨inside, -⟩ := List.getElem?_eq_some_iff.mp here
    exact each i part token here ((same i inside).symm.trans there)

/-- Tokens with more behind them are taken one by one exactly when there are enough, each taken in
its place. -/
theorem exists_taken_iff {front found : List String} :
    (∃ taken token more, found = taken ++ token :: more ∧ List.Forall₂ Takes front taken) ↔
      front.length < found.length ∧ TakesInPlace front found := by
  constructor
  · rintro ⟨taken, token, more, rfl, each⟩
    obtain ⟨lengths, places⟩ := forall₂_takes_iff.mp each
    refine ⟨?_, (takesInPlace_append lengths).mpr places⟩
    simp only [List.length_append, List.length_cons]
    omega
  · rintro ⟨enough, places⟩
    -- The topic falls apart behind as many tokens as the pattern has in front of its tail.
    have split : found = found.take front.length ++ found[front.length] ::
        found.drop (front.length + 1) := by
      rw [← List.drop_eq_getElem_cons enough, List.take_append_drop]
    have lengths : front.length = (found.take front.length).length := by
      rw [List.length_take, Nat.min_eq_left (Nat.le_of_lt enough)]
    rw [split, takesInPlace_append lengths] at places
    exact ⟨_, _, _, split, forall₂_takes_iff.mpr ⟨lengths, places⟩⟩

/-- A pattern selects a topic exactly in two cases: it has no tail wildcard, and each of its tokens
takes the one token of the topic in its place; or its only tail wildcard is its last token, the topic
has at least as many tokens, and each token in front of the tail takes the one in its place. -/
theorem selects_iff_takesInPlace (pattern topic : String) :
    selects pattern topic = true ↔
      (tailWildcard ∉ tokens pattern ∧ (tokens pattern).length = (tokens topic).length ∧
        TakesInPlace (tokens pattern) (tokens topic)) ∨
      ∃ front, tokens pattern = front ++ [tailWildcard] ∧ tailWildcard ∉ front ∧
        (tokens pattern).length ≤ (tokens topic).length ∧ TakesInPlace front (tokens topic) := by
  rw [selects]
  by_cases tailed : tailWildcard ∈ tokens pattern
  · -- Only what stands in front of the first tail is compared token by token.
    obtain ⟨front, back, shape, closed⟩ := List.eq_append_cons_of_mem tailed
    rw [shape, selectsTokens_append_tail closed, exists_taken_iff]
    constructor
    · rintro ⟨rfl, enough, places⟩
      exact Or.inr ⟨front, rfl, closed, by simpa [Nat.succ_le_iff] using enough, places⟩
    · rintro (⟨absent, -⟩ | ⟨front', same, closed', enough, places⟩)
      · exact absurd (by simp) absent
      · -- Both ways of dividing the pattern end before its first tail.
        obtain ⟨rfl, -, rfl⟩ := (List.append_cons_inj_of_notMem closed' (by simp)).mp same.symm
        exact ⟨rfl, by simpa [Nat.succ_le_iff] using enough, places⟩
  · rw [selectsTokens_iff_forall₂ tailed, forall₂_takes_iff]
    constructor
    · exact fun each => Or.inl ⟨tailed, each⟩
    · rintro (⟨-, each⟩ | ⟨front, shape, -⟩)
      · exact each
      · exact absurd (by simp [shape]) tailed

/-- A tail takes one token at least, and selects nothing where a token stands behind it. -/
example : selects "outputs.*.>" "outputs.coin.7" = true ∧
    selects "outputs.*.>" "outputs.coin" = false ∧
    selects "outputs.>.7" "outputs.coin.7" = false := by
  decide

end Topics
