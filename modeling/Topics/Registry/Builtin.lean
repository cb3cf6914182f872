import Topics.Catalog.Builtin
import Topics.Registry

/-! The built-in catalog passes its check, so there is a registry of it. -/

namespace Topics

open Definition (IsFamily family check_family checkVariant_family leadingLiterals_family)

namespace Catalog

variable {id entity subject key : String} {fixed : FieldSpec} {shared : List FieldSpec}

/-- A family without variants passes where its only fixed token is its entity key. -/
theorem entryPasses_single {fields : List FieldSpec} (base : IsFamily [key] fields) :
    EntryPasses key (family id entity subject [key] fields []) := by
  refine ⟨?_, check_family base, ?_, ?_⟩
  · rw [leadingLiterals_family base]
    rfl
  · intro entry member
    cases member
  · exact List.nodup_nil

/-- A listed family has the given shared fields and then its own. -/
def ExtendsFamily (entity key : String) (shared : List FieldSpec)
    (entry : String × Definition) : Prop :=
  ∃ id subject shared' own,
    entry.2 = family id entity subject [key, entry.1] (shared' ++ own) [] ∧
    shared'.map (fun spec => (spec.name, spec.type)) =
      shared.map (fun spec => (spec.name, spec.type))

/-- A family with variants passes where each variant fixes the family's first field. -/
theorem entryPasses_variants {variants : List (String × Definition)}
    (base : IsFamily [key] (fixed :: shared)) (distinct : (variants.map Prod.fst).Nodup)
    (sound : ∀ entry ∈ variants, IsFamily [key, entry.1] entry.2.fields)
    (decodes : ∀ entry ∈ variants, (fixed.type.decode entry.1).isOk = true)
    (each : ∀ entry ∈ variants, ExtendsFamily entity key shared entry) :
    EntryPasses key (family id entity subject [key] (fixed :: shared) variants) := by
  -- Any variant has the base's fixed token and its own key in front.
  have lengths : ∀ entry ∈ variants, entry.2.leadingLiterals.length = 2 := by
    intro entry member
    obtain ⟨_, _, _, _, shape, _⟩ := each entry member
    have ok := sound entry member
    rw [shape] at ok ⊢
    simp only [family] at ok
    exact congrArg List.length (leadingLiterals_family ok)
  refine ⟨?_, check_family base, ?_, distinct⟩
  · rw [leadingLiterals_family base]
    rfl
  · intro entry member
    obtain ⟨variantId, variantSubject, shared', own, shape, same⟩ := each entry member
    have ok := sound entry member
    rw [shape] at ok ⊢
    simp only [family] at ok
    refine ⟨check_family ok, ?_⟩
    have first : variants.head?.map (fun entry => entry.2.leadingLiterals.length) =
        some ([key].length + 1) := by
      have here : entry ∈ variants := member
      cases listed : variants with
      | nil => simp [listed] at here
      | cons head rest => simpa using lengths head (by simp [listed])
    exact checkVariant_family base ok first (decodes entry member) same

/-- The fields that place an input have the same names and types whatever the item is called. -/
theorem inputPlace_same (item other : String) :
    (Builtin.inputPlace item).map (fun spec => (spec.name, spec.type)) =
      (Builtin.inputPlace other).map (fun spec => (spec.name, spec.type)) := rfl

/-- Inputs pass with their variants. -/
theorem inputs_pass : EntryPasses "inputs" Builtin.inputs := by
  refine entryPasses_variants (by decide +kernel) (by decide +kernel) (by decide +kernel)
    (by decide +kernel) ?_
  intro entry member
  simp only [Builtin.inputVariants, List.mem_cons, List.not_mem_nil, or_false] at member
  rcases member with rfl | rfl | rfl <;> exact ⟨_, _, _, _, rfl, inputPlace_same _ _⟩

/-- The fields that place an output have the same names and types whatever the item is called. -/
theorem outputPlace_same (item other : String) :
    (Builtin.outputPlace item).map (fun spec => (spec.name, spec.type)) =
      (Builtin.outputPlace other).map (fun spec => (spec.name, spec.type)) := rfl

/-- Outputs pass with their variants. -/
theorem outputs_pass : EntryPasses "outputs" Builtin.outputs := by
  refine entryPasses_variants (by decide +kernel) (by decide +kernel) (by decide +kernel)
    (by decide +kernel) ?_
  intro entry member
  simp only [Builtin.outputVariants, List.mem_cons, List.not_mem_nil, or_false] at member
  rcases member with rfl | rfl | rfl | rfl | rfl <;>
    exact ⟨_, _, _, _, rfl, outputPlace_same _ _⟩

/-- The fields that place a receipt have the same names and types whatever the item is called. -/
theorem receiptPlace_same (item other : String) :
    (Builtin.receiptPlace item).map (fun spec => (spec.name, spec.type)) =
      (Builtin.receiptPlace other).map (fun spec => (spec.name, spec.type)) := rfl

/-- Receipts pass with their variants. -/
theorem receipts_pass : EntryPasses "receipts" Builtin.receipts := by
  refine entryPasses_variants (by decide +kernel) (by decide +kernel) (by decide +kernel)
    (by decide +kernel) ?_
  intro entry member
  simp only [Builtin.receiptVariants, List.mem_cons, List.not_mem_nil, or_false] at member
  rcases member with rfl | rfl | rfl | rfl | rfl | rfl | rfl | rfl | rfl | rfl | rfl | rfl | rfl <;>
    exact ⟨_, _, _, _, rfl, receiptPlace_same _ _⟩

/-- The built-in catalog has no fault. -/
theorem check_builtin : Catalog.builtin.check = .ok () := by
  rw [check_eq_ok]
  refine ⟨?_, by decide +kernel, by decide +kernel⟩
  intro entry member
  simp only [builtin, List.mem_cons, List.not_mem_nil, or_false] at member
  rcases member with rfl | rfl | rfl | rfl | rfl | rfl
  · exact entryPasses_single (by decide +kernel)
  · exact entryPasses_single (by decide +kernel)
  · exact inputs_pass
  · exact outputs_pass
  · exact receipts_pass
  · exact entryPasses_single (by decide +kernel)

/-- The inputs of transactions are listed in the built-in catalog. -/
theorem inputs_listed : ("inputs", Builtin.inputs) ∈ builtin := by simp [builtin]

end Catalog

/-- The registry of the built-in catalog. -/
def Registry.builtin : Registry := ⟨Catalog.builtin, Catalog.check_builtin⟩

end Topics
