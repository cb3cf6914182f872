import Topics.Proofs.Definition.Mismatch
import Topics.Proofs.Registry.Resolve

/-! Trying all definitions on a topic gives what the base under the topic's first token and its
variant under the token behind the leading literals give by themselves. -/

namespace Topics

variable {topic : String} {fault : Option TopicError} {skipped : List Definition}
  {definition : Definition} {catalog : Catalog} {registry : Registry}

namespace Definition

/-- What a topic is read as under a definition. -/
def reading? (definition : Definition) (topic : String) : Option Resolution :=
  (definition.parse topic).toOption.map fun fields => ⟨definition, fields⟩

/-- Why a topic cannot be read under a definition, if it is no mismatch. -/
def fault? (definition : Definition) (topic : String) : Option TopicError :=
  match definition.parse topic with
  | .ok _ => none
  | .error error => if error.isMismatch then none else some error

private theorem reading?_of_ok {fields : FieldMap} (parsed : definition.parse topic = .ok fields) :
    definition.reading? topic = some ⟨definition, fields⟩ := by
  simp [reading?, parsed, Except.toOption]

private theorem reading?_of_error {error : TopicError}
    (failed : definition.parse topic = .error error) : definition.reading? topic = none := by
  simp [reading?, failed, Except.toOption]

private theorem fault?_of_error {error : TopicError}
    (failed : definition.parse topic = .error error) :
    definition.fault? topic = if error.isMismatch then none else some error := by
  simp [fault?, failed]

/-- Neither values nor a fault come of a mismatch. -/
theorem Mismatches.reading?_fault? (mismatches : definition.Mismatches topic) :
    definition.reading? topic = none ∧ definition.fault? topic = none := by
  obtain ⟨error, failed, mismatch⟩ := mismatches
  exact ⟨reading?_of_error failed, by rw [fault?_of_error failed, if_pos mismatch]⟩

end Definition

/-- The first reading of a topic under some definitions, or else its first fault. -/
def readAmong (topic : String) (definitions : List Definition) : Except TopicError Resolution :=
  match definitions.findSome? (·.reading? topic) with
  | some found => .ok found
  | none => .error ((definitions.findSome? (·.fault? topic)).getD (.unknownSubject topic))

/-- A fault met before counts where nothing is read, and ahead of the later ones. -/
theorem resolveAmong_eq (definitions : List Definition) :
    resolveAmong topic fault definitions =
      match definitions.findSome? (·.reading? topic) with
      | some found => .ok found
      | none => .error ((fault <|> definitions.findSome? (·.fault? topic)).getD
          (.unknownSubject topic)) := by
  -- The fault that is remembered changes with each definition, so it is kept general.
  induction definitions generalizing fault with
  | nil => simp [resolveAmong]
  | cons first rest ih =>
    cases parsed : first.parse topic with
    | ok fields =>
      simp only [resolveAmong, parsed, List.findSome?_cons, Definition.reading?_of_ok parsed]
    | error error =>
      simp only [resolveAmong, parsed, ih, List.findSome?_cons,
        Definition.reading?_of_error parsed, Definition.fault?_of_error parsed]
      cases error.isMismatch <;> cases fault <;> rfl

/-- Trying definitions one after the other finds the first reading, or else the first fault. -/
theorem resolveAmong_eq_readAmong (definitions : List Definition) :
    resolveAmong topic none definitions = readAmong topic definitions :=
  resolveAmong_eq definitions

/-- Definitions under which a topic is a mismatch play no part. -/
theorem readAmong_skip (front back : List Definition)
    (mismatches : ∀ other ∈ skipped, other.Mismatches topic) :
    readAmong topic (front ++ (skipped ++ back)) = readAmong topic (front ++ back) := by
  have unread : skipped.findSome? (·.reading? topic) = none :=
    List.findSome?_eq_none_iff.mpr fun other member => (mismatches other member).reading?_fault?.1
  have faultless : skipped.findSome? (·.fault? topic) = none :=
    List.findSome?_eq_none_iff.mpr fun other member => (mismatches other member).reading?_fault?.2
  simp only [readAmong, List.findSome?_append, unread, faultless, Option.none_or]

namespace Catalog

variable {key : String} {base : Definition}

/-- What a topic is read as by the base under its first token and by the base's variant under the
token behind the leading literals. -/
def dispatch (catalog : Catalog) (topic : String) : Except TopicError Resolution :=
  match lookupEntry ((tokens topic).head (tokens_ne_nil topic)) catalog with
  | none => .error (.unknownSubject topic)
  | some base =>
    let variant := (tokens topic)[base.leadingLiterals.length]?.bind base.variant?
    readAmong topic (variant.toList ++ [base])

/-- A topic that starts with another token than the entity key is a mismatch under each definition
of the entry. -/
theorem EntryPasses.mismatches_of_head (passes : EntryPasses key base)
    (member : definition ∈ base.variants.map Prod.snd ++ [base])
    (other : (tokens topic).head? ≠ some key) : definition.Mismatches topic := by
  by_contra kept
  -- Any other topic has the leading literals, of which the entity key is the first.
  have leading := (passes.wellFormed member).leading_of_not_mismatches kept
  exact other (passes.head_of_leading member leading)

/-- A topic with another token than the key of a variant behind the leading literals of the base is
a mismatch under the variant. -/
theorem EntryPasses.mismatches_of_key (passes : EntryPasses key base)
    {entry : String × Definition} (listed : entry ∈ base.variants)
    (other : (tokens topic)[base.leadingLiterals.length]? ≠ some entry.1) :
    entry.2.Mismatches topic := by
  by_contra kept
  -- Any other topic has the variant's leading literals, of which the key is the last.
  have formed := passes.wellFormed (List.mem_append_left _ (List.mem_map_of_mem listed))
  have leading := formed.leading_of_not_mismatches kept
  rw [passes.leading_variant listed] at leading
  obtain ⟨rest, split⟩ := leading
  apply other
  rw [← split]
  simp

/-- Of the definitions of an entry that passes, only the variant under the token behind the leading
literals and the base play a part. -/
theorem EntryPasses.readAmong_entry (passes : EntryPasses key base) :
    readAmong topic (base.variants.map Prod.snd ++ [base]) =
      readAmong topic
        (((tokens topic)[base.leadingLiterals.length]?.bind base.variant?).toList ++ [base]) := by
  cases chosen : (tokens topic)[base.leadingLiterals.length]?.bind base.variant? with
  | none =>
    -- No variant has the token as its key.
    apply readAmong_skip []
    intro definition member
    obtain ⟨entry, listed, rfl⟩ := List.mem_map.mp member
    apply passes.mismatches_of_key listed
    intro found
    rw [found, Option.bind_some, Definition.variant?, lookupEntry_eq_none] at chosen
    exact chosen (List.mem_map_of_mem listed)
  | some variant =>
    obtain ⟨word, found, listed⟩ := Option.bind_eq_some_iff.mp chosen
    obtain ⟨front, back, split, others⟩ := exists_split_of_lookup passes.nodup_keys listed
    -- All variants in front of this one and behind it have other keys.
    have mismatches {entries : List (String × Definition)} (within : entries ⊆ front ++ back) :
        ∀ other ∈ entries.map Prod.snd, other.Mismatches topic := by
      intro definition member
      obtain ⟨entry, inside, rfl⟩ := List.mem_map.mp member
      obtain ⟨own, other⟩ := others entry (within inside)
      apply passes.mismatches_of_key own
      rw [found, ne_eq, Option.some.injEq]
      exact other.symm
    calc readAmong topic (base.variants.map Prod.snd ++ [base])
        = readAmong topic ([] ++ (front.map Prod.snd ++
            (variant :: (back.map Prod.snd ++ [base])))) := by simp [split]
      _ = readAmong topic ([variant] ++ (back.map Prod.snd ++ [base])) :=
          readAmong_skip _ _ (mismatches (List.subset_append_left front back))
      _ = readAmong topic ([variant] ++ [base]) :=
          readAmong_skip _ _ (mismatches (List.subset_append_right front back))

/-- A topic that starts with none of the entity keys is a mismatch under all candidates. -/
theorem mismatches_of_others (each : ∀ entry ∈ catalog, EntryPasses entry.1 entry.2)
    (others : ∀ entry ∈ catalog, (tokens topic).head? ≠ some entry.1) :
    ∀ other ∈ catalog.candidates, other.Mismatches topic := by
  intro other member
  obtain ⟨entry, listed, inside⟩ := List.mem_flatMap.mp member
  exact (each entry listed).mismatches_of_head inside (others entry listed)

/-- A topic whose first token is no entity key is unknown. -/
theorem readAmong_candidates_of_none (each : ∀ entry ∈ catalog, EntryPasses entry.1 entry.2)
    {first : String} (head : (tokens topic).head? = some first)
    (found : lookupEntry first catalog = none) :
    readAmong topic catalog.candidates = .error (.unknownSubject topic) := by
  -- No entry is under the first token, so all candidates are skipped.
  have others : ∀ entry ∈ catalog, (tokens topic).head? ≠ some entry.1 := by
    intro entry listed same
    rw [head, Option.some.injEq] at same
    exact lookupEntry_eq_none.mp found (List.mem_map.mpr ⟨entry, listed, same.symm⟩)
  have skipped := readAmong_skip [] [] (mismatches_of_others each others)
  simpa [readAmong] using skipped

/-- Of all candidates only the base under the first token and its variants play a part. -/
theorem readAmong_candidates (each : ∀ entry ∈ catalog, EntryPasses entry.1 entry.2)
    (distinct : (catalog.map Prod.fst).Nodup) {first : String}
    (head : (tokens topic).head? = some first) (found : lookupEntry first catalog = some base) :
    readAmong topic catalog.candidates =
      readAmong topic (base.variants.map Prod.snd ++ [base]) := by
  obtain ⟨front, back, split, others⟩ := exists_split_of_lookup distinct found
  -- All entries in front of the base's and behind it have other keys.
  have mismatches {entries : Catalog} (within : entries ⊆ front ++ back) :
      ∀ other ∈ entries.candidates, other.Mismatches topic := by
    apply mismatches_of_others
    · intro entry listed
      exact each entry (others entry (within listed)).1
    · intro entry listed
      rw [head, ne_eq, Option.some.injEq]
      exact (others entry (within listed)).2.symm
  calc readAmong topic catalog.candidates
      = readAmong topic ([] ++ (candidates front ++
          ((base.variants.map Prod.snd ++ [base]) ++ (candidates back ++ [])))) := by
        simp [split, candidates]
    _ = readAmong topic ((base.variants.map Prod.snd ++ [base]) ++ (candidates back ++ [])) :=
        readAmong_skip _ _ (mismatches (List.subset_append_left front back))
    _ = readAmong topic ((base.variants.map Prod.snd ++ [base]) ++ []) :=
        readAmong_skip _ _ (mismatches (List.subset_append_right front back))
    _ = readAmong topic (base.variants.map Prod.snd ++ [base]) := by rw [List.append_nil]

end Catalog

namespace Registry

open Catalog

/-- Resolving a topic by trying all definitions of an accepted catalog gives the same reading or the
same error as the base under the topic's first token and its variant under the token behind the
leading literals. -/
theorem resolve_eq_dispatch (accepted : ofCatalog catalog = .ok registry) (topic : String) :
    registry.resolve topic = catalog.dispatch topic := by
  obtain rfl := ofCatalog_eq_ok.mp accepted
  obtain ⟨each, distinct, -⟩ := (check_eq_ok _).mp registry.checked
  have head := List.head?_eq_some_head (tokens_ne_nil topic)
  rw [resolve_eq, resolveAmong_eq_readAmong, dispatch]
  cases found : lookupEntry ((tokens topic).head (tokens_ne_nil topic)) registry.catalog with
  | none => exact readAmong_candidates_of_none each head found
  | some base =>
    have passes := each _ ((lookupEntry_eq_some distinct).mp found)
    rw [readAmong_candidates each distinct head found]
    exact passes.readAmong_entry

/-- A coin's topic with a bad block height is refused for this height, as it is by the family of
coins, and not for its number of tokens, as it is by the family of all inputs. -/
theorem resolve_eq_dispatch_coin :
    ofCatalog Catalog.builtin = .ok builtin ∧
      builtin.resolve "inputs.coin.seven.id.0.1.owner.asset" =
        Catalog.builtin.dispatch "inputs.coin.seven.id.0.1.owner.asset" ∧
      Catalog.builtin.dispatch "inputs.coin.seven.id.0.1.owner.asset" =
        .error (.invalidField "block_height" (.invalidInteger "seven")) := by
  have accepted : ofCatalog Catalog.builtin = .ok builtin := ofCatalog_eq_ok.mpr rfl
  exact ⟨accepted, resolve_eq_dispatch accepted _, by rfl⟩

end Registry

end Topics
