import Topics.Proofs.Catalog.WellFormed

/-! Whether a catalog passes its check depends neither on the order of its bases nor on that of the
variants of a base. -/

namespace Topics

/-- Related lists agree on a property that related members agree on. -/
theorem forall_mem_iff_of_forall₂ {α : Type u} {β : Type v} {R : α → β → Prop} {P : α → Prop}
    {Q : β → Prop} {xs : List α} {ys : List β} (related : List.Forall₂ R xs ys)
    (each : ∀ x y, R x y → (P x ↔ Q y)) : (∀ x ∈ xs, P x) ↔ ∀ y ∈ ys, Q y := by
  -- Both lists are walked through together.
  induction related with
  | nil => simp
  | cons first _ ih =>
    rw [List.forall_mem_cons, List.forall_mem_cons, each _ _ first, ih]

namespace Definition

variable {first second variant : Definition} {key : String}

/-- The second definition is the first with its variants in another order. -/
def Reorders (first second : Definition) : Prop :=
  ∃ variants, first.variants.Perm variants ∧ second = { first with variants }

namespace Reorders

/-- A definition is the same up to the order of its variants as itself. -/
theorem refl (definition : Definition) : definition.Reorders definition := by
  cases definition
  exact ⟨_, .rfl, rfl⟩

/-- An order of variants can be taken back. -/
theorem symm (reorders : first.Reorders second) : second.Reorders first := by
  obtain ⟨variants, permuted, rfl⟩ := reorders
  cases first
  exact ⟨_, permuted.symm, rfl⟩

/-- The variants are the same ones in another order. -/
theorem variants_perm (reorders : first.Reorders second) :
    first.variants.Perm second.variants := by
  obtain ⟨variants, permuted, rfl⟩ := reorders
  exact permuted

/-- The id is the same whatever the order of the variants. -/
theorem id_eq (reorders : first.Reorders second) : second.id = first.id := by
  obtain ⟨variants, -, rfl⟩ := reorders
  rfl

/-- The leading literals are the same whatever the order of the variants. -/
theorem leadingLiterals_eq (reorders : first.Reorders second) :
    second.leadingLiterals = first.leadingLiterals := by
  obtain ⟨variants, -, rfl⟩ := reorders
  rfl

/-- The own check of a definition does not look at the variants. -/
theorem check_eq (reorders : first.Reorders second) : second.check = first.check := by
  obtain ⟨variants, -, rfl⟩ := reorders
  rfl

/-- A variant is in the same relation to a base whatever the order of the variants. -/
theorem checkedVariant (reorders : first.Reorders second)
    (fixes : variant.entity = first.entity ∧ variant.variants = [] ∧
      ∃ field shared own, first.Fixes key variant field shared own) :
    variant.entity = second.entity ∧ variant.variants = [] ∧
      ∃ field shared own, second.Fixes key variant field shared own := by
  obtain ⟨variants, -, rfl⟩ := reorders
  obtain ⟨entity, leaf, field, shared, own, fixed⟩ := fixes
  -- None of what is said of the base is about its variants.
  exact ⟨entity, leaf, field, shared, own, fixed.declared, fixed.keyed, fixed.base_tokens,
    fixed.variant_tokens, fixed.behind, fixed.types⟩

end Reorders

end Definition

namespace Catalog

variable {first second : Catalog} {base base' : Definition} {key : String}

/-- An entry that passes does so with its variants in another order. -/
theorem EntryPasses.of_reorders (reorders : base.Reorders base') (passes : EntryPasses key base) :
    EntryPasses key base' := by
  obtain ⟨head, checked, each, distinct⟩ := passes
  have permuted := reorders.variants_perm
  -- The check of a variant takes the field from the first one, but it is the same for all of them.
  have fixed := Definition.forall_checkVariant_eq_ok.mp fun entry listed => (each entry listed).2
  have fixed' := Definition.forall_checkVariant_eq_ok.mpr fun entry listed =>
    reorders.checkedVariant (fixed entry (permuted.mem_iff.mpr listed))
  refine ⟨?_, ?_, fun entry listed => ?_, (permuted.map Prod.fst).nodup_iff.mp distinct⟩
  · rw [reorders.leadingLiterals_eq, head]
  · rw [reorders.check_eq, checked]
  · exact ⟨(each entry (permuted.mem_iff.mpr listed)).1, fixed' entry listed⟩

/-- An entry passes exactly where it does so with its variants in another order. -/
theorem entryPasses_iff_of_reorders (reorders : base.Reorders base') :
    EntryPasses key base ↔ EntryPasses key base' :=
  ⟨fun passes => passes.of_reorders reorders, fun passes => passes.of_reorders reorders.symm⟩

/-- The two entries have the same key, and the same base up to the order of its variants. -/
def SameEntry (entry entry' : String × Definition) : Prop :=
  entry.1 = entry'.1 ∧ entry.2.Reorders entry'.2

/-- The second catalog has the entries of the first in another order, and within each of them the
variants in another order. -/
def Reorders (first second : Catalog) : Prop :=
  ∃ middle, first.Perm middle ∧ List.Forall₂ SameEntry middle second

private theorem keys_eq (same : List.Forall₂ SameEntry first second) :
    first.map Prod.fst = second.map Prod.fst := by
  -- Entry by entry the keys are the same.
  induction same with
  | nil => rfl
  | cons entry _ ih => rw [List.map_cons, List.map_cons, entry.1, ih]

private theorem allIds_perm (same : List.Forall₂ SameEntry first second) :
    first.allIds.Perm second.allIds := by
  induction same with
  | nil => exact .nil
  | @cons entry entry' rest rest' here _ ih =>
    -- The base keeps its id, and those of its variants change places.
    have own : (entry.2.id :: ids entry.2.variants).Perm (entry'.2.id :: ids entry'.2.variants) := by
      rw [here.2.id_eq]
      exact (here.2.variants_perm.map fun variant => variant.2.id).cons entry.2.id
    exact own.append ih

namespace Reorders

/-- The entity keys are the same ones in another order. -/
theorem keys (reorders : first.Reorders second) :
    (first.map Prod.fst).Perm (second.map Prod.fst) := by
  obtain ⟨middle, permuted, same⟩ := reorders
  rw [← keys_eq same]
  exact permuted.map Prod.fst

/-- The ids are the same ones in another order. -/
theorem allIds (reorders : first.Reorders second) : first.allIds.Perm second.allIds := by
  obtain ⟨middle, permuted, same⟩ := reorders
  have moved : first.allIds.Perm (Catalog.allIds middle) := permuted.flatMap_right _
  exact moved.trans (allIds_perm same)

/-- Each base of the one catalog is a base of the other under the same key, up to the order of its
variants. -/
theorem exists_base (reorders : first.Reorders second) (member : (key, base) ∈ first) :
    ∃ base', (key, base') ∈ second ∧ base.Reorders base' := by
  obtain ⟨middle, permuted, same⟩ := reorders
  have listed := permuted.mem_iff.mp member
  clear permuted member
  -- The base of the second catalog stands where the first one's stands between the two.
  induction same with
  | nil => cases listed
  | @cons entry entry' rest rest' here _ ih =>
    rcases List.mem_cons.mp listed with rfl | later
    · obtain ⟨key', base'⟩ := entry'
      obtain ⟨rfl, reordered⟩ := here
      exact ⟨base', List.mem_cons_self, reordered⟩
    · obtain ⟨base', found, reordered⟩ := ih later
      exact ⟨base', List.mem_cons_of_mem _ found, reordered⟩

/-- A catalog passes its check exactly where it does so in another order. -/
theorem check_iff (reorders : first.Reorders second) :
    first.check = .ok () ↔ second.check = .ok () := by
  -- What is asked of each entry is asked of the same entries, up to the order of their variants.
  have passes : (∀ entry ∈ first, EntryPasses entry.1 entry.2) ↔
      ∀ entry ∈ second, EntryPasses entry.1 entry.2 := by
    obtain ⟨middle, permuted, same⟩ := reorders
    have moved : (∀ entry ∈ first, EntryPasses entry.1 entry.2) ↔
        ∀ entry ∈ middle, EntryPasses entry.1 entry.2 := by
      simp only [permuted.mem_iff]
    rw [moved]
    apply forall_mem_iff_of_forall₂ same
    rintro ⟨key, base⟩ ⟨_, base'⟩ ⟨rfl, reordered⟩
    exact entryPasses_iff_of_reorders reordered
  -- The rest is about keys and ids that are not repeated, in whatever order.
  rw [check_eq_ok, check_eq_ok, passes, reorders.keys.nodup_iff, reorders.allIds.nodup_iff]

end Reorders

/-- The entries from the last to the first, each with its variants from the last to the first. -/
def backwards (catalog : Catalog) : Catalog :=
  catalog.reverse.map fun (key, base) => (key, { base with variants := base.variants.reverse })

/-- A catalog that is read backwards has the same entries. -/
theorem reorders_backwards (catalog : Catalog) : catalog.Reorders catalog.backwards := by
  refine ⟨catalog.reverse, catalog.reverse_perm.symm, ?_⟩
  rw [backwards, List.forall₂_map_right_iff, List.forall₂_same]
  intro entry _
  exact ⟨rfl, _, entry.2.variants.reverse_perm.symm, rfl⟩

end Catalog

end Topics
