/-! Insertion-ordered maps from names to values, each name at most once. -/

namespace Topics

/-- The value listed first under a name. -/
def lookupEntry {α : Type u} (name : String) : List (String × α) → Option α
  | [] => none
  | (key, value) :: rest => if key = name then some value else lookupEntry name rest

/-- Overwrites the value of a listed name where it stands, and appends a new name. -/
def putEntry {α : Type u} (name : String) (value : α) : List (String × α) → List (String × α)
  | [] => [(name, value)]
  | (key, old) :: rest =>
    if key = name then (key, value) :: rest else (key, old) :: putEntry name value rest

/-- Putting an entry adds its name at most at the end. -/
theorem putEntry_keys {α : Type u} (name : String) (value : α) (entries : List (String × α)) :
    (putEntry name value entries).map Prod.fst =
      if name ∈ entries.map Prod.fst then entries.map Prod.fst
      else entries.map Prod.fst ++ [name] := by
  -- The walk stops at the name where it is listed, and runs to the end where it is not.
  induction entries with
  | nil => simp [putEntry]
  | cons entry rest ih =>
    obtain ⟨key, old⟩ := entry
    by_cases same : key = name
    · simp [putEntry, same]
    · have other : ¬ name = key := Ne.symm same
      simp only [putEntry, if_neg same, List.map_cons, ih, List.mem_cons, other, false_or]
      split <;> simp

/-- Putting an entry keeps names distinct. -/
theorem putEntry_nodup {α : Type u} {entries : List (String × α)} (name : String) (value : α)
    (distinct : (entries.map Prod.fst).Nodup) :
    ((putEntry name value entries).map Prod.fst).Nodup := by
  -- Either the names stay as they are, or a name that is not among them comes last.
  rw [putEntry_keys]
  split
  · exact distinct
  · rename_i fresh
    exact List.nodup_append.mpr ⟨distinct, by simp, fun key member other => by
      simp only [List.mem_singleton]
      rintro rfl same
      exact fresh (same ▸ member)⟩

/-- Looking up a name after a put finds the value that was put last under it. -/
theorem lookupEntry_putEntry {α : Type u} (name other : String) (value : α)
    (entries : List (String × α)) :
    lookupEntry other (putEntry name value entries) =
      if name = other then some value else lookupEntry other entries := by
  -- Entries in front of the one that is put are passed over by both sides.
  induction entries with
  | nil => simp [putEntry, lookupEntry]
  | cons entry rest ih =>
    obtain ⟨key, old⟩ := entry
    by_cases same : key = name
    · subst same
      by_cases hit : key = other <;> simp [putEntry, lookupEntry, hit]
    · by_cases hit : key = other
      · subst hit
        simp [putEntry, lookupEntry, same, Ne.symm same]
      · simp [putEntry, lookupEntry, same, hit, ih]

/-- A name has a value exactly when it is listed. -/
theorem lookupEntry_isSome {α : Type u} (name : String) (entries : List (String × α)) :
    (lookupEntry name entries).isSome ↔ name ∈ entries.map Prod.fst := by
  induction entries with
  | nil => simp [lookupEntry]
  | cons entry rest ih =>
    obtain ⟨key, value⟩ := entry
    by_cases same : key = name
    · simp [lookupEntry, same]
    · simp [lookupEntry, same, Ne.symm same, ih]

/-- Where names are distinct, a name's value is the one it is listed with. -/
theorem lookupEntry_eq_some {α : Type u} {name : String} {value : α}
    {entries : List (String × α)} (distinct : (entries.map Prod.fst).Nodup) :
    lookupEntry name entries = some value ↔ (name, value) ∈ entries := by
  induction entries with
  | nil => simp [lookupEntry]
  | cons entry rest ih =>
    obtain ⟨key, held⟩ := entry
    simp only [List.map_cons, List.nodup_cons] at distinct
    by_cases same : key = name
    · subst same
      simp only [lookupEntry, if_pos, Option.some.injEq, List.mem_cons, Prod.mk.injEq, true_and]
      -- A second entry under this name would repeat the name.
      constructor
      · rintro rfl
        exact Or.inl rfl
      · rintro (rfl | member)
        · rfl
        · exact absurd (List.mem_map_of_mem (f := Prod.fst) member) distinct.1
    · simp [lookupEntry, same, Ne.symm same, ih distinct.2]

/-- A map that lists its names in the order in which they were first put. -/
structure OrderedMap (α : Type u) where
  /-- The names with their values, oldest name first. -/
  entries : List (String × α)
  /-- Each name is listed once. -/
  distinct : (entries.map Prod.fst).Nodup
  deriving DecidableEq

namespace OrderedMap

variable {α : Type u}

/-- The map without names. -/
def empty : OrderedMap α := ⟨[], by simp⟩

instance : Inhabited (OrderedMap α) := ⟨empty⟩

/-- Puts a value under a name, in place where the name is already listed. -/
def insert (map : OrderedMap α) (name : String) (value : α) : OrderedMap α :=
  ⟨putEntry name value map.entries, putEntry_nodup name value map.distinct⟩

/-- The map with entries put one after the other. -/
def insertAll (map : OrderedMap α) (entries : List (String × α)) : OrderedMap α :=
  entries.foldl (fun held entry => held.insert entry.1 entry.2) map

/-- The value under a name. -/
def get? (map : OrderedMap α) (name : String) : Option α := lookupEntry name map.entries

/-- The names, in order. -/
def keys (map : OrderedMap α) : List String := map.entries.map Prod.fst

/-- Whether the map has no names. -/
def isEmpty (map : OrderedMap α) : Bool := map.entries.isEmpty

/-- Two maps with the same entries in the same order are the same map. -/
theorem ext {a b : OrderedMap α} (same : a.entries = b.entries) : a = b := by
  cases a
  cases b
  simpa using same

/-- The empty map has no value under any name. -/
@[simp] theorem get?_empty (name : String) : (empty : OrderedMap α).get? name = none := rfl

/-- A lookup after an insertion sees the inserted value under its own name only. -/
theorem get?_insert (map : OrderedMap α) (name other : String) (value : α) :
    (map.insert name value).get? other = if name = other then some value else map.get? other :=
  lookupEntry_putEntry name other value map.entries

/-- An insertion lists a new name last and moves no other. -/
theorem keys_insert (map : OrderedMap α) (name : String) (value : α) :
    (map.insert name value).keys = if name ∈ map.keys then map.keys else map.keys ++ [name] :=
  putEntry_keys name value map.entries

/-- A name has a value exactly when it is one of the keys. -/
theorem get?_isSome (map : OrderedMap α) (name : String) :
    (map.get? name).isSome ↔ name ∈ map.keys :=
  lookupEntry_isSome name map.entries

/-- A name's value is the one that it is listed with. -/
theorem get?_eq_some (map : OrderedMap α) {name : String} {value : α} :
    map.get? name = some value ↔ (name, value) ∈ map.entries :=
  lookupEntry_eq_some map.distinct

end OrderedMap

end Topics
