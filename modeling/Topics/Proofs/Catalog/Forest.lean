import Topics.Proofs.Definition.Wildcard
import Topics.Proofs.Registry.Resolve

/-! The wildcards of a checked catalog form a forest: a base's wildcard covers those of its variants,
and any other two wildcards have no topic in common. -/

namespace Topics

namespace Definition

variable {first second : Definition} {topic : String}

/-- A wildcard covers another one where its literals are in front of the other's. -/
theorem WellFormed.covers_wildcard (formed : first.WellFormed) (formed' : second.WellFormed)
    (front : first.leadingLiterals <+: second.leadingLiterals) :
    Covers first.wildcard second.wildcard := by
  intro topic selected
  obtain ⟨rest, split⟩ := front
  obtain ⟨token, more, found⟩ := formed'.selects_wildcard_iff.mp selected
  -- What stands behind the shorter literals starts with the rest of the longer ones.
  have longer : tokens topic = first.leadingLiterals ++ (rest ++ token :: more) := by
    rw [found, ← split, List.append_assoc]
  apply formed.selects_wildcard_iff.mpr
  cases rest with
  | nil => exact ⟨token, more, longer⟩
  | cons text others => exact ⟨text, others ++ token :: more, longer⟩

/-- Of two wildcards that select the same topic, one has its literals in front of the other's. -/
theorem WellFormed.prefix_or_prefix (formed : first.WellFormed) (formed' : second.WellFormed)
    (selected : selects first.wildcard topic = true)
    (selected' : selects second.wildcard topic = true) :
    first.leadingLiterals <+: second.leadingLiterals ∨
      second.leadingLiterals <+: first.leadingLiterals := by
  obtain ⟨token, more, found⟩ := formed.selects_wildcard_iff.mp selected
  obtain ⟨token', more', found'⟩ := formed'.selects_wildcard_iff.mp selected'
  -- Both are the first tokens of the topic.
  have front : first.leadingLiterals <+: tokens topic := ⟨_, found.symm⟩
  have front' : second.leadingLiterals <+: tokens topic := ⟨_, found'.symm⟩
  exact List.prefix_or_prefix_of_prefix front front'

end Definition

namespace Catalog

variable {catalog : Catalog} {entity : String} {base first second : Definition}

/-- The second definition is listed as a variant of the first, which is a base of the catalog. -/
def IsBaseOf (catalog : Catalog) (base variant : Definition) : Prop :=
  ∃ entity word, (entity, base) ∈ catalog ∧ (word, variant) ∈ base.variants

/-- Of two definitions of one base that passes, one with its literals in front of the other's is the
other or its base. -/
theorem EntryPasses.eq_or_base_of_front (passes : EntryPasses entity base)
    (place : first = base ∨ ∃ word, (word, first) ∈ base.variants)
    (place' : second = base ∨ ∃ word, (word, second) ∈ base.variants)
    (front : first.leadingLiterals <+: second.leadingLiterals) :
    first = second ∨ (first = base ∧ ∃ word, (word, second) ∈ base.variants) := by
  rcases place with rfl | ⟨word, listed⟩
  · -- The base itself is in front of all its variants.
    rcases place' with rfl | below
    · exact Or.inl rfl
    · exact Or.inr ⟨rfl, below⟩
  · left
    have own := passes.leading_variant listed
    rcases place' with rfl | ⟨word', listed'⟩
    · -- A variant has one literal more than the base, so it is not in front of it.
      have short := front.length_le
      rw [own, List.length_append, List.length_singleton] at short
      omega
    · -- Two variants have as many literals, so these are the same and end with the same key.
      have own' := passes.leading_variant listed'
      have equal := front.eq_of_length (by simp [own, own'])
      have key : word = word' := by simpa [own, own'] using equal
      subst key
      have found := (lookupEntry_eq_some passes.nodup_keys).mpr listed
      have found' := (lookupEntry_eq_some passes.nodup_keys).mpr listed'
      exact Option.some.inj (found.symm.trans found')

/-- In a checked catalog, a definition with its literals in front of another's is its base. -/
theorem isBaseOf_of_front (checked : catalog.check = .ok ())
    (listed : first ∈ catalog.definitions) (listed' : second ∈ catalog.definitions)
    (other : first ≠ second) (front : first.leadingLiterals <+: second.leadingLiterals) :
    catalog.IsBaseOf first second := by
  obtain ⟨key, base, member, place⟩ := mem_definitions.mp listed
  obtain ⟨key', base', member', place'⟩ := mem_definitions.mp listed'
  have passes := passes_of_check checked member
  have passes' := passes_of_check checked member'
  -- The shorter literals start with an entity key, and so do the longer ones.
  have head := passes.head_leading (mem_candidates_entry.mpr place)
  have head' := passes'.head_leading (mem_candidates_entry.mpr place')
  obtain ⟨rest, split⟩ := front
  have same : key = key' := by
    rw [← split, List.head?_append, head, Option.some_or, Option.some.injEq] at head'
    exact head'
  subst same
  -- No other entry has this key, so both belong to the same base.
  have distinct := ((check_eq_ok catalog).mp checked).2.1
  have found := (lookupEntry_eq_some distinct).mpr member
  have found' := (lookupEntry_eq_some distinct).mpr member'
  obtain rfl : base = base' := Option.some.inj (found.symm.trans found')
  rcases passes.eq_or_base_of_front place place' ⟨rest, split⟩ with equal | ⟨rfl, word, below⟩
  · exact absurd equal other
  · exact ⟨key, word, member, below⟩

/-- The wildcards of an accepted catalog form a forest: that of a base selects all that those of its
variants select, and two definitions of which neither is the base of the other have wildcards
without a common topic. -/
theorem wildcards_forest (checked : catalog.check = .ok ()) (listed : first ∈ catalog.definitions)
    (listed' : second ∈ catalog.definitions) (other : first ≠ second) :
    (catalog.IsBaseOf first second → Covers first.wildcard second.wildcard) ∧
      (¬ catalog.IsBaseOf first second → ¬ catalog.IsBaseOf second first →
        Apart first.wildcard second.wildcard) := by
  have formed := wellFormed_of_check checked listed
  have formed' := wellFormed_of_check checked listed'
  constructor
  · rintro ⟨entity, word, member, below⟩
    -- The variant's literals are those of the base and its key.
    have leading := (passes_of_check checked member).leading_variant below
    exact formed.covers_wildcard formed' ⟨[word], leading.symm⟩
  · intro unrelated unrelated' topic selected
    -- A common topic would make one of the two the base of the other.
    rcases formed.prefix_or_prefix formed' selected.1 selected.2 with front | front
    · exact unrelated (isBaseOf_of_front checked listed listed' other front)
    · exact unrelated' (isBaseOf_of_front checked listed' listed other.symm front)

/-- The wildcard of all inputs covers that of the coins among them, which has no topic in common with
the wildcard of the coins among the outputs. -/
theorem wildcards_forest_coins :
    Catalog.builtin.check = .ok () ∧ Covers "inputs.>" "inputs.coin.>" ∧
      Apart "inputs.coin.>" "outputs.coin.>" := by
  have inputs := inputs_listed
  have outputs : ("outputs", Builtin.outputs) ∈ Catalog.builtin := by simp [Catalog.builtin]
  -- Coins are listed first among the kinds of inputs, and among those of outputs.
  let spent := (Builtin.inputs.variants.head (List.cons_ne_nil _ _)).2
  let made := (Builtin.outputs.variants.head (List.cons_ne_nil _ _)).2
  have below : ("coin", spent) ∈ Builtin.inputs.variants := List.mem_cons_self
  have below' : ("coin", made) ∈ Builtin.outputs.variants := List.mem_cons_self
  have base : Builtin.inputs ∈ Catalog.builtin.definitions :=
    mem_definitions.mpr ⟨"inputs", _, inputs, Or.inl rfl⟩
  have listed : spent ∈ Catalog.builtin.definitions :=
    mem_definitions.mpr ⟨"inputs", _, inputs, Or.inr ⟨"coin", below⟩⟩
  have listed' : made ∈ Catalog.builtin.definitions :=
    mem_definitions.mpr ⟨"outputs", _, outputs, Or.inr ⟨"coin", below'⟩⟩
  -- Neither kind of coin has variants, so it is the base of nothing.
  have leaf : ∀ variant, ¬ Catalog.builtin.IsBaseOf spent variant := by
    rintro variant ⟨_, word, -, inside⟩
    cases inside
  have leaf' : ∀ variant, ¬ Catalog.builtin.IsBaseOf made variant := by
    rintro variant ⟨_, word, -, inside⟩
    cases inside
  have different : Builtin.inputs ≠ spent :=
    fun same => absurd (congrArg Definition.id same) (by decide)
  have different' : spent ≠ made :=
    fun same => absurd (congrArg Definition.id same) (by decide)
  obtain ⟨covers, -⟩ := wildcards_forest check_builtin base listed different
  obtain ⟨-, apart⟩ := wildcards_forest check_builtin listed listed' different'
  exact ⟨check_builtin, covers ⟨"inputs", "coin", inputs, below⟩, apart (leaf made) (leaf' spent)⟩

end Catalog

end Topics
