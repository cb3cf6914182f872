import Mathlib.Data.List.TakeDrop

/-! Texts as runs of characters: in lower case, and divided at a mark. -/

namespace Topics

/-- What a table of the first 128 characters shows holds of each character below 128. -/
theorem holds_of_table {P : Char → Prop} (c : Char) (small : c.toNat < 128)
    (table : ∀ code < 128, P (Char.ofNat code)) : P c := by
  -- A character is the one of its own code.
  have entry := table c.toNat small
  rwa [Char.ofNat_toNat] at entry

/-- A character is its own lower case exactly when it is no upper-case letter. -/
theorem toLower_eq_self_iff (c : Char) : c.toLower = c ↔ c.isUpper = false := by
  -- Both sides ask whether the character lies between `A` and `Z`.
  delta Char.toLower Char.isUpper
  split <;> rename_i letter <;> simpa [UInt32.le_iff_toNat_le, Char.ext_iff] using letter

/-- A text is put in lower case character by character. -/
theorem toList_toLower (text : String) : text.toLower.toList = text.toList.map Char.toLower :=
  String.toList_map

/-- A text is its own lower case exactly when it has no upper-case letter. -/
theorem toLower_text_eq_self_iff (text : String) :
    text.toLower = text ↔ ∀ c ∈ text.toList, c.isUpper = false := by
  rw [← String.toList_inj, toList_toLower]
  constructor
  · intro same c member
    have kept : text.toList.map Char.toLower = text.toList.map id := by rw [same, List.map_id]
    exact (toLower_eq_self_iff c).mp (List.map_inj_left.mp kept c member)
  · intro none
    -- A map that changes no member changes no list.
    calc text.toList.map Char.toLower
        = text.toList.map id :=
          List.map_congr_left fun c member => (toLower_eq_self_iff c).mpr (none c member)
      _ = text.toList := List.map_id _

/-- A run is divided where the mark stands first, and not at all without a mark. -/
theorem span_append {mark : Char} {front : List Char} (free : mark ∉ front)
    (rest : List Char) (marked : ∀ c ∈ rest.head?, c = mark) :
    (front ++ rest).span (· ≠ mark) = (front, rest) := by
  -- All of the front is passed over.
  have passed : ∀ c ∈ front, decide (c ≠ mark) = true := by
    intro c member
    rw [decide_eq_true_eq]
    rintro rfl
    exact free member
  rw [List.span_eq_takeWhile_dropWhile, List.takeWhile_append_of_pos passed,
    List.dropWhile_append_of_pos passed]
  -- Of the rest nothing is, because it begins with the mark.
  cases rest with
  | nil => simp
  | cons c more =>
    obtain rfl : c = mark := marked c rfl
    simp

/-- What stands in front of the first mark is found without looking behind it. -/
theorem takeWhile_append {mark : Char} {front : List Char} (free : mark ∉ front)
    (rest : List Char) (marked : ∀ c ∈ rest.head?, c = mark) :
    (front ++ rest).takeWhile (· ≠ mark) = front := by
  have divided := span_append free rest marked
  rw [List.span_eq_takeWhile_dropWhile, Prod.mk.injEq] at divided
  exact divided.1

/-- A text with a mark is divided by the first one. -/
theorem exists_divided {mark : Char} {sign text : String} (single : sign.toList = [mark])
    (marked : mark ∈ text.toList) :
    ∃ front back, text = front ++ sign ++ back ∧ mark ∉ front.toList := by
  obtain ⟨front, back, shape, free⟩ := List.eq_append_cons_of_mem marked
  refine ⟨String.ofList front, String.ofList back, ?_, by simpa using free⟩
  rw [← String.toList_inj, shape]
  simp [single]

end Topics
