import Topics.Catalog.Check

/-! Definitions whose format is some fixed tokens followed by all fields pass their check. -/

namespace Topics

/-- A token that can be fixed text: a literal without separators. -/
def isFixedToken (token : String) : Bool :=
  isLiteralToken token && !token.toList.contains separator

/-- A placeholder for a field. -/
def placeholderToken (name : String) : String := "\x7b" ++ name ++ "\x7d"

/-- A family whose topics are fixed tokens followed by all its fields. -/
def Definition.family (id entity subject : String) (lead : List String) (fields : List FieldSpec)
    (variants : List (String × Definition)) : Definition where
  id := id
  entity := entity
  subject := subject
  format := joinTokens (lead ++ fields.map fun spec => placeholderToken spec.name)
  wildcard := joinTokens (lead ++ [tailWildcard])
  fields := fields
  variants := variants

/-- A placeholder token is read as a placeholder of its name. -/
theorem Segment.ofToken_placeholder (name : String) :
    Segment.ofToken (placeholderToken name) = .placeholder name := by
  -- The token's characters are the name's between two braces.
  have chars : (placeholderToken name).toList = '{' :: (name.toList ++ ['}']) := by
    simp [placeholderToken]
  rw [Segment.ofToken, chars]
  simp

/-- A token without braces is read as a literal. -/
theorem Segment.ofToken_literal {token : String} (clean : isLiteralToken token = true) :
    Segment.ofToken token = .literal token := by
  rw [Segment.ofToken]
  split
  · rename_i inner chars
    -- A token that opened with a brace would not be clean.
    simp [isLiteralToken, chars] at clean
  · rfl

/-- Literals in front of segments lengthen their leading literals. -/
theorem literalRun_append (lead : List String) (rest : List Segment) :
    literalRun (lead.map Segment.literal ++ rest) = lead ++ literalRun rest := by
  induction lead with
  | nil => rfl
  | cons token more ih => simp [literalRun, ih]

/-- The placeholders behind literals are all the placeholders. -/
theorem filterMap_name_append (lead : List String) (names : List String) :
    (lead.map Segment.literal ++ names.map Segment.placeholder).filterMap Segment.name? = names := by
  -- Literals have no name, and every placeholder has its own.
  have none : (lead.map Segment.literal).filterMap Segment.name? = [] := by
    simp [List.filterMap_map, Function.comp_def, Segment.name?]
  have all : (names.map Segment.placeholder).filterMap Segment.name? = names := by
    simp [List.filterMap_map, Function.comp_def, Segment.name?]
  rw [List.filterMap_append, none, all, List.nil_append]

/-- Where no two members have the same key, a member is the first one with its key. -/
theorem find?_of_nodup_key {α : Type u} {key : α → String} {xs : List α} {x : α}
    (distinct : (xs.map key).Nodup) (member : x ∈ xs) :
    xs.find? (fun other => key other == key x) = some x := by
  -- The members in front of it have other keys.
  obtain ⟨front, back, rfl⟩ := List.append_of_mem member
  rw [List.find?_eq_some_iff_append]
  refine ⟨by simp, front, back, rfl, fun other inFront => ?_⟩
  rw [List.map_append, List.map_cons, List.nodup_append] at distinct
  simpa using distinct.2.2 (key other) (List.mem_map_of_mem inFront) (key x) (by simp)

namespace Definition

variable {id entity subject : String} {lead : List String} {fields : List FieldSpec}
  {variants : List (String × Definition)}

/-- What a family's fixed tokens and field names need to be for its format to say them. -/
structure IsFamily (lead : List String) (fields : List FieldSpec) : Prop where
  /-- There is a first fixed token. -/
  some_lead : lead ≠ []
  /-- Each fixed token can stand in a format. -/
  fixed : ∀ token ∈ lead, isFixedToken token = true
  /-- No field's name falls apart into tokens. -/
  whole : ∀ spec ∈ fields, separator ∉ spec.name.toList
  /-- No two fields have the same name. -/
  distinct : (fields.map FieldSpec.name).Nodup

instance : Decidable (IsFamily lead fields) :=
  decidable_of_iff
    (lead ≠ [] ∧ (∀ token ∈ lead, isFixedToken token = true) ∧
      (∀ spec ∈ fields, separator ∉ spec.name.toList) ∧ (fields.map FieldSpec.name).Nodup)
    ⟨fun ⟨a, b, c, d⟩ => ⟨a, b, c, d⟩, fun ⟨a, b, c, d⟩ => ⟨a, b, c, d⟩⟩

/-- The segments of a family are its fixed tokens and then its fields. -/
theorem segments_family (ok : IsFamily lead fields) :
    (family id entity subject lead fields variants).segments =
      lead.map Segment.literal ++ (fields.map FieldSpec.name).map Segment.placeholder := by
  -- No part of the format holds a separator, so splitting gives the parts back.
  have split : tokens (joinTokens (lead ++ fields.map fun spec => placeholderToken spec.name)) =
      lead ++ fields.map fun spec => placeholderToken spec.name := by
    apply tokens_joinTokens
    · simp [ok.some_lead]
    · intro part member
      rcases List.mem_append.mp member with member | member
      · have fixed := ok.fixed part member
        simp only [isFixedToken, Bool.and_eq_true] at fixed
        simpa using fixed.2
      · obtain ⟨spec, declared, rfl⟩ := List.mem_map.mp member
        simpa [placeholderToken, separator] using ok.whole spec declared
  simp only [segments, family, split, List.map_append, List.map_map]
  congr 1
  · apply List.map_congr_left
    intro token member
    have fixed := ok.fixed token member
    simp only [isFixedToken, Bool.and_eq_true] at fixed
    exact Segment.ofToken_literal fixed.1
  · apply List.map_congr_left
    intro spec _
    exact Segment.ofToken_placeholder spec.name

/-- The leading literals of a family are its fixed tokens. -/
theorem leadingLiterals_family (ok : IsFamily lead fields) :
    (family id entity subject lead fields variants).leadingLiterals = lead := by
  rw [leadingLiterals, segments_family ok, literalRun_append]
  -- No literal comes first behind them.
  cases fields <;> simp [literalRun]

/-- The placeholders of a family are its fields' names. -/
theorem placeholders_family (ok : IsFamily lead fields) :
    (family id entity subject lead fields variants).placeholders =
      fields.map FieldSpec.name := by
  rw [placeholders, segments_family ok, filterMap_name_append]

/-- A declared field of a family is found under its name. -/
theorem field?_family (ok : IsFamily lead fields) {spec : FieldSpec} (member : spec ∈ fields) :
    (family id entity subject lead fields variants).field? spec.name = some spec :=
  find?_of_nodup_key ok.distinct member

/-- A family passes its check. -/
theorem check_family (ok : IsFamily lead fields) :
    (family id entity subject lead fields variants).check = .ok () := by
  simp only [check, bind_eq_ok, require_eq_ok, forM_eq_ok]
  refine ⟨?_, ?_, ?_, ?_, ?_⟩
  · -- An empty format would have an empty literal in front.
    intro none
    have segments : (family id entity subject lead fields variants).segments = _ :=
      segments_family ok
    rw [Definition.segments, none] at segments
    obtain ⟨token, rest, shape⟩ := List.exists_cons_of_ne_nil ok.some_lead
    have fixed := ok.fixed token (by simp [shape])
    have empty : Segment.ofToken "" = .literal token := by
      have head := congrArg List.head? segments
      simpa [shape, tokens, splitRuns] using head
    have same : token = "" := by simpa [Segment.ofToken, eq_comm] using empty
    simp [same, isFixedToken, isLiteralToken] at fixed
  · intro segment member
    rw [segments_family ok] at member
    rcases List.mem_append.mp member with member | member
    · obtain ⟨token, listed, rfl⟩ := List.mem_map.mp member
      have fixed := ok.fixed token listed
      simp only [isFixedToken, Bool.and_eq_true] at fixed
      simp [checkSegment, require_eq_ok, fixed.1]
    · obtain ⟨name, listed, rfl⟩ := List.mem_map.mp member
      obtain ⟨spec, declared, rfl⟩ := List.mem_map.mp listed
      simp [checkSegment, require_eq_ok, field?_family ok declared]
  · intro name listed
    rw [checkPlaced, require_eq_ok, placeholders_family ok]
    exact ok.distinct.count.trans (if_pos listed)
  · exact placeholders_family ok
  · rw [derivedWildcard, leadingLiterals_family ok]
    rfl

/-- Fields that base and variant share pass the check of their segments. -/
theorem checkShared_names (parent variant : Definition) (names more : List String)
    (same : ∀ name ∈ names, (parent.field? name).map FieldSpec.type =
      (variant.field? name).map FieldSpec.type) :
    parent.checkShared variant
      ((names.map Segment.placeholder).zip ((names ++ more).map Segment.placeholder)) = .ok () := by
  induction names with
  | nil => rfl
  | cons name rest ih =>
    simp only [List.map_cons, List.cons_append, List.zip_cons_cons, checkShared, bind_eq_ok,
      require_eq_ok, true_and]
    exact ⟨same name (by simp), ih fun other member => same other (by simp [member])⟩

variable {variantId baseSubject variantSubject key : String} {fixed : FieldSpec}
  {shared shared' own : List FieldSpec}

/-- A variant refines its base when its fixed tokens are the base's and the key, and its fields
start with the base's fields behind the one that the key fixes. -/
theorem checkVariant_family {baseVariants : List (String × Definition)}
    (base : IsFamily lead (fixed :: shared)) (variant : IsFamily (lead ++ [key]) (shared' ++ own))
    (first : baseVariants.head?.map (fun entry => entry.2.leadingLiterals.length) =
      some (lead.length + 1))
    (decodes : (fixed.type.decode key).isOk = true)
    (same : shared'.map (fun spec => (spec.name, spec.type)) =
      shared.map (fun spec => (spec.name, spec.type))) :
    (family id entity baseSubject lead (fixed :: shared) baseVariants).checkVariant key
      (family variantId entity variantSubject (lead ++ [key]) (shared' ++ own) []) = .ok () := by
  -- The base's variants fix the field in front.
  have discriminant :
      (family id entity baseSubject lead (fixed :: shared) baseVariants).discriminant? =
        some fixed := by
    obtain ⟨entry, head, length⟩ := Option.map_eq_some_iff.mp first
    rw [discriminant?, segments_family base]
    simp only [family, head, length, Option.bind_eq_bind, Option.bind_some]
    simp [field?]
  have names : shared'.map FieldSpec.name = shared.map FieldSpec.name := by
    simpa [List.map_map, Function.comp_def] using congrArg (List.map Prod.fst) same
  obtain ⟨value, decoded⟩ : ∃ value, fixed.type.decode key = .ok value := by
    cases result : fixed.type.decode key with
    | ok value => exact ⟨value, rfl⟩
    | error cause => simp [result, Except.isOk, Except.toBool] at decodes
  have refines :
      (family id entity baseSubject lead (fixed :: shared) baseVariants).checkRefinement key
        (family variantId entity variantSubject (lead ++ [key]) (shared' ++ own) []) =
        .ok () := by
    rw [checkRefinement, bind_eq_ok, require_eq_ok, leadingLiterals_family base,
      leadingLiterals_family variant]
    refine ⟨rfl, ?_⟩
    rw [discriminant]
    simp only [bind_eq_ok, require_eq_ok, decoded, segments_family base, segments_family variant]
    refine ⟨by simp, ?_, ?_⟩
    · -- Behind the key stand the shared fields and perhaps some more.
      have lengths := congrArg List.length names
      simp only [List.length_map] at lengths
      simp [lengths]
    · -- Shared fields have the same types on both sides.
      have behind : ∀ (tokens : List String) (segments : List Segment) (n : Nat),
          n = tokens.length → (tokens.map Segment.literal ++ segments).drop n = segments := by
        rintro tokens segments n rfl
        simp
      rw [← List.drop_drop, behind _ _ _ rfl, behind _ _ _ rfl]
      simp only [List.map_cons, List.drop_succ_cons, List.drop_zero, List.map_append, ← names]
      rw [← List.map_append]
      apply checkShared_names
      intro name listed
      obtain ⟨spec, member, rfl⟩ := List.mem_map.mp listed
      -- The base has a field of the same name and type.
      have pair : (spec.name, spec.type) ∈ shared.map (fun other => (other.name, other.type)) :=
        same ▸ List.mem_map_of_mem member
      obtain ⟨other, declared, equal⟩ := List.mem_map.mp pair
      simp only [Prod.mk.injEq] at equal
      rw [field?_family variant (List.mem_append_left own member), ← equal.1,
        field?_family base (List.mem_cons_of_mem fixed declared)]
      simp [equal.2]
  simp only [checkVariant, bind_eq_ok, require_eq_ok]
  exact ⟨rfl, rfl, by rw [refines]; rfl⟩

end Definition

end Topics
