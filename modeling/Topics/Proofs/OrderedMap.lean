import Topics.OrderedMap
import Mathlib.Data.List.Nodup

/-! Ordered maps are known by their names and what stands under them. -/

namespace Topics

/-- Nothing is found under a name exactly when the name is not listed. -/
theorem lookupEntry_eq_none {α : Type u} {name : String} {entries : List (String × α)} :
    lookupEntry name entries = none ↔ name ∉ entries.map Prod.fst := by
  rw [← lookupEntry_isSome, Option.not_isSome_iff_eq_none]

/-- Behind other entries a name is looked up where it is not among these. -/
theorem lookupEntry_append {α : Type u} (name : String) (front back : List (String × α)) :
    lookupEntry name (front ++ back) = (lookupEntry name front).or (lookupEntry name back) := by
  induction front with
  | nil => rfl
  | cons entry rest ih =>
    obtain ⟨key, value⟩ := entry
    -- The first entry answers for both sides, or is passed over by both.
    by_cases same : key = name <;> simp [lookupEntry, same, ih]

/-- What is found under a name is listed under it. -/
theorem mem_of_lookupEntry {α : Type u} {name : String} {value : α} {entries : List (String × α)}
    (found : lookupEntry name entries = some value) : (name, value) ∈ entries := by
  induction entries with
  | nil => cases found
  | cons entry rest ih =>
    obtain ⟨key, held⟩ := entry
    by_cases same : key = name
    · subst same
      simp only [lookupEntry, if_true, Option.some.injEq] at found
      simp [found]
    · simp only [lookupEntry, same, if_false] at found
      exact List.mem_cons_of_mem _ (ih found)

/-- Where names are distinct, look-ups do not depend on the order of the entries. -/
theorem lookupEntry_eq_of_perm {α : Type u} {first second : List (String × α)}
    (permuted : first.Perm second) (distinct : (first.map Prod.fst).Nodup) (name : String) :
    lookupEntry name first = lookupEntry name second := by
  have distinct' := (permuted.map Prod.fst).nodup_iff.mp distinct
  apply Option.ext
  intro value
  rw [lookupEntry_eq_some distinct, lookupEntry_eq_some distinct', permuted.mem_iff]

/-- Where names are distinct, a name that is looked up divides the entries into others. -/
theorem exists_split_of_lookup {α : Type u} {name : String} {value : α}
    {entries : List (String × α)} (distinct : (entries.map Prod.fst).Nodup)
    (found : lookupEntry name entries = some value) :
    ∃ front back, entries = front ++ (name, value) :: back ∧
      ∀ entry ∈ front ++ back, entry ∈ entries ∧ entry.1 ≠ name := by
  obtain ⟨front, back, rfl⟩ := List.append_of_mem ((lookupEntry_eq_some distinct).mp found)
  -- The name stands once, so it is not among the names in front of it and behind it.
  rw [List.map_append, List.map_cons, List.nodup_middle, List.nodup_cons, ← List.map_append]
    at distinct
  refine ⟨front, back, rfl, fun entry member => ⟨?_, ?_⟩⟩
  · exact (List.Sublist.append_left (List.sublist_cons_self _ back) front).mem member
  · rintro rfl
    exact distinct.1 (List.mem_map.mpr ⟨entry, member, rfl⟩)

/-- Where names are distinct, the entries follow from the names and what is found under them. -/
theorem entries_eq_of_lookup {α : Type u} {first second : List (String × α)}
    (distinct : (first.map Prod.fst).Nodup) (names : first.map Prod.fst = second.map Prod.fst)
    (same : ∀ name, lookupEntry name first = lookupEntry name second) : first = second := by
  induction first generalizing second with
  | nil => exact (List.map_eq_nil_iff.mp names.symm).symm
  | cons entry rest ih =>
    obtain ⟨key, value⟩ := entry
    cases second with
    | nil => simp at names
    | cons other more =>
      obtain ⟨otherKey, held⟩ := other
      simp only [List.map_cons, List.cons.injEq] at names
      obtain ⟨rfl, names⟩ := names
      simp only [List.map_cons, List.nodup_cons] at distinct
      -- The first entries are found under their name, and no later entry has this name.
      have head := same key
      simp only [lookupEntry, if_true, Option.some.injEq] at head
      subst head
      congr 1
      refine ih distinct.2 names fun name => ?_
      -- Behind the first entries only other names are looked up.
      by_cases again : key = name
      · subst again
        rw [lookupEntry_eq_none.mpr distinct.1, lookupEntry_eq_none.mpr (names ▸ distinct.1)]
      · simpa [lookupEntry, again] using same name

/-- A name that is not listed yet is put last. -/
theorem putEntry_fresh {α : Type u} {name : String} {value : α} {entries : List (String × α)}
    (fresh : name ∉ entries.map Prod.fst) :
    putEntry name value entries = entries ++ [(name, value)] := by
  induction entries with
  | nil => rfl
  | cons entry rest ih =>
    obtain ⟨key, old⟩ := entry
    simp only [List.map_cons, List.mem_cons, not_or] at fresh
    rw [putEntry, if_neg (Ne.symm fresh.1), ih fresh.2, List.cons_append]

namespace OrderedMap

variable {α : Type u}

/-- Two maps that list the same names in the same order with the same values are the same map. -/
theorem eq_of_get? {first second : OrderedMap α} (names : first.keys = second.keys)
    (same : ∀ name, first.get? name = second.get? name) : first = second :=
  ext (entries_eq_of_lookup first.distinct names same)

/-- The map without a name, the others in their order. -/
def erase (map : OrderedMap α) (name : String) : OrderedMap α where
  entries := map.entries.filter fun entry => entry.1 != name
  distinct := map.distinct.sublist (List.filter_sublist.map Prod.fst)

/-- After an erasure nothing stands under the erased name, and all else is as before. -/
theorem get?_erase (map : OrderedMap α) (name other : String) :
    (map.erase name).get? other = if other = name then none else map.get? other := by
  apply Option.ext
  intro value
  rw [get?_eq_some]
  -- An entry is kept exactly when its name is another one.
  simp only [erase, List.mem_filter, ← get?_eq_some, bne_iff_ne, ne_eq]
  by_cases gone : other = name <;> simp [gone]

/-- After an erasure the other names are listed. -/
theorem mem_keys_erase (map : OrderedMap α) (name other : String) :
    other ∈ (map.erase name).keys ↔ other ≠ name ∧ other ∈ map.keys := by
  rw [← get?_isSome, ← get?_isSome, get?_erase]
  -- A name is listed exactly when something stands under it.
  by_cases gone : other = name <;> simp [gone]

/-- A map has no names exactly when nothing stands under any name. -/
theorem isEmpty_iff (map : OrderedMap α) :
    map.isEmpty = true ↔ ∀ name, map.get? name = none := by
  rw [isEmpty, List.isEmpty_iff]
  constructor
  · intro none name
    rw [get?, none]
    rfl
  · intro none
    -- A first entry would be found under its name.
    refine List.eq_nil_iff_forall_not_mem.mpr fun entry member => ?_
    cases (none entry.1).symm.trans (map.get?_eq_some.mpr member)

/-- A name has a value in one of two maps with the same look-ups exactly when it is listed in the
other. -/
theorem mem_keys_of_get? {first second : OrderedMap α}
    (same : ∀ name, first.get? name = second.get? name) (name : String) :
    name ∈ first.keys ↔ name ∈ second.keys := by
  rw [← get?_isSome, ← get?_isSome, same name]

/-- A value stands under each listed name. -/
theorem exists_of_mem_keys {map : OrderedMap α} {name : String} (listed : name ∈ map.keys) :
    ∃ value, map.get? name = some value :=
  Option.isSome_iff_exists.mp ((map.get?_isSome name).mpr listed)

/-- Entries are put one list after the other. -/
theorem insertAll_append (map : OrderedMap α) (first second : List (String × α)) :
    map.insertAll (first ++ second) = (map.insertAll first).insertAll second :=
  List.foldl_append

/-- Entries under new and distinct names come behind the others. -/
theorem entries_insertAll {map : OrderedMap α} {entries : List (String × α)}
    (distinct : ((map.entries ++ entries).map Prod.fst).Nodup) :
    (map.insertAll entries).entries = map.entries ++ entries := by
  -- Each entry is new when its turn comes, and the map has grown by it for the next one.
  induction entries generalizing map with
  | nil => simp [insertAll]
  | cons entry rest ih =>
    obtain ⟨name, value⟩ := entry
    have fresh : name ∉ map.entries.map Prod.fst := by
      rw [List.map_append, List.map_cons, List.nodup_append] at distinct
      exact fun member => distinct.2.2 name member name (by simp) rfl
    have put : (map.insert name value).entries = map.entries ++ [(name, value)] :=
      putEntry_fresh fresh
    have grown : (map.insert name value).entries ++ rest = map.entries ++ (name, value) :: rest := by
      rw [put, List.append_assoc, List.singleton_append]
    rw [← grown] at distinct ⊢
    exact ih distinct

/-- Of the entries that are put under a name the last one counts, and without any what stood there
before. -/
theorem get?_insertAll (map : OrderedMap α) (entries : List (String × α)) (name : String) :
    (map.insertAll entries).get? name =
      (lookupEntry name entries.reverse).or (map.get? name) := by
  -- What stands there before the other entries changes with each of them.
  induction entries generalizing map with
  | nil => rfl
  | cons entry rest ih =>
    have first : (map.insertAll (entry :: rest)).get? name =
        ((map.insert entry.1 entry.2).insertAll rest).get? name := rfl
    rw [first, ih, get?_insert, List.reverse_cons, lookupEntry_append, Option.or_assoc]
    -- The first entry counts where none of the others has the name.
    by_cases same : entry.1 = name <;> simp [lookupEntry, same]

/-- A value after some entries are put is that of one of them or was there before. -/
theorem mem_of_get?_insertAll {map : OrderedMap α} {entries : List (String × α)} {name : String}
    {value : α} (found : (map.insertAll entries).get? name = some value) :
    (name, value) ∈ entries ∨ map.get? name = some value := by
  rw [get?_insertAll, Option.or_eq_some_iff] at found
  rcases found with last | ⟨-, before⟩
  · exact Or.inl (List.mem_reverse.mp (mem_of_lookupEntry last))
  · exact Or.inr before

/-- Putting the entries of a map into the empty map gives the map. -/
theorem insertAll_entries (map : OrderedMap α) : empty.insertAll map.entries = map :=
  ext (entries_insertAll map.distinct)

end OrderedMap

end Topics
