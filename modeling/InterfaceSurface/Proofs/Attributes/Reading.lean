import InterfaceSurface.Metadata.Attribute
import Mathlib.Logic.Function.Basic

/-! # What is read off attributes

An attribute is of one known kind at most (`Attribute.eq_of_isKnown`).  Arguments are found by
their shape, the first of a shape or the one at a position, and attributes by their kind; these
lemmas say what was passed over on the way. -/
set_option autoImplicit false
namespace InterfaceSurface

theorem KnownAttribute.simpleName_injective : Function.Injective simpleName := by
  intro a b same
  cases a <;> cases b <;> first | rfl | exact absurd same (by decide)

/-! ## Arguments -/

namespace AttributeArg

variable {arg : AttributeArg}

theorem word?_eq_some_iff {value : UInt32} : arg.word? = some value ↔ arg = .word value := by
  cases arg <;> simp [word?]

theorem text?_eq_some_iff {value : String} : arg.text? = some value ↔ arg = .text value := by
  cases arg <;> simp [text?]

theorem type?_eq_some_iff {name : TypeName} : arg.type? = some name ↔ arg = .type name := by
  cases arg <;> simp [type?]

theorem enumerator?_eq_some_iff {value : EnumValue} :
    arg.enumerator? = some value ↔ arg = .enumerator value := by
  cases arg <;> simp [enumerator?]

/-- A search for arguments of a shape finds nothing just if there are none. -/
theorem findSome?_eq_none_iff {α : Type} {shape : AttributeArg → Option α}
    {build : α → AttributeArg}
    (shaped : ∀ arg value, shape arg = some value ↔ arg = build value) {args : List AttributeArg} :
    args.findSome? shape = none ↔ ∀ value, build value ∉ args := by
  rw [List.findSome?_eq_none_iff]
  constructor
  · intro unread value listed
    cases (unread _ listed).symm.trans ((shaped _ value).mpr rfl)
  · intro unlisted arg listed
    cases read : shape arg with
    | none => rfl
    | some value =>
        obtain rfl := (shaped arg value).mp read
        exact absurd listed (unlisted value)

end AttributeArg

namespace Attribute

variable {a : Attribute}

theorem isKnown_iff {kind : KnownAttribute} :
    a.isKnown kind = true ↔ a.type = ⟨metadataSpace, kind.simpleName⟩ :=
  beq_iff_eq

theorem eq_of_isKnown {kind kindToo : KnownAttribute} (known : a.isKnown kind = true)
    (knownToo : a.isKnown kindToo = true) : kind = kindToo := by
  have types := (isKnown_iff.mp known).symm.trans (isKnown_iff.mp knownToo)
  exact KnownAttribute.simpleName_injective (TypeName.mk.inj types).2

theorem isKnown_eq_false {kind kindToo : KnownAttribute} (known : a.isKnown kind = true)
    (other : kind ≠ kindToo) : a.isKnown kindToo = false :=
  Bool.eq_false_iff.mpr fun knownToo => other (eq_of_isKnown known knownToo)

theorem firstType?_eq_none_iff : a.firstType? = none ↔ ∀ owner, AttributeArg.type owner ∉ a.args :=
  AttributeArg.findSome?_eq_none_iff fun _ _ => AttributeArg.type?_eq_some_iff

theorem firstEnum?_eq_none_iff :
    a.firstEnum? = none ↔ ∀ value, AttributeArg.enumerator value ∉ a.args :=
  AttributeArg.findSome?_eq_none_iff fun _ _ => AttributeArg.enumerator?_eq_some_iff

theorem firstEnum?_eq_some_iff {value : EnumValue} :
    a.firstEnum? = some value ↔ ∃ before after, a.args = before ++ .enumerator value :: after ∧
      ∀ other, AttributeArg.enumerator other ∉ before := by
  rw [firstEnum?, List.findSome?_eq_some_iff]
  constructor
  · rintro ⟨before, arg, after, split, read, skipped⟩
    obtain rfl := AttributeArg.enumerator?_eq_some_iff.mp read
    refine ⟨before, after, split, ?_⟩
    exact (AttributeArg.findSome?_eq_none_iff fun _ _ =>
      AttributeArg.enumerator?_eq_some_iff).mp (List.findSome?_eq_none_iff.mpr skipped)
  · rintro ⟨before, after, split, skipped⟩
    refine ⟨before, _, after, split, rfl, ?_⟩
    exact List.findSome?_eq_none_iff.mp ((AttributeArg.findSome?_eq_none_iff fun _ _ =>
      AttributeArg.enumerator?_eq_some_iff).mpr skipped)

theorem textArg?_eq_some_iff {position : Nat} {text : String} :
    a.textArg? position = some text ↔ a.args[position]? = some (.text text) := by
  simp [textArg?, Option.bind_eq_some_iff, AttributeArg.text?_eq_some_iff]

theorem wordArg?_eq_some_iff {position : Nat} {packed : UInt32} :
    a.wordArg? position = some packed ↔ a.args[position]? = some (.word packed) := by
  simp [wordArg?, Option.bind_eq_some_iff, AttributeArg.word?_eq_some_iff]

/-! ## Kinds -/

/-- The attribute is the first of its kind in the list. -/
def FirstOf (kind : KnownAttribute) (attributes : List Attribute) (a : Attribute) : Prop :=
  a.isKnown kind = true ∧
    ∃ front back, attributes = front ++ a :: back ∧ ∀ b ∈ front, b.isKnown kind = false

theorem firstKnown?_eq_some_iff {kind : KnownAttribute} {attributes : List Attribute} :
    firstKnown? attributes kind = some a ↔ FirstOf kind attributes a := by
  simp [firstKnown?, FirstOf, List.find?_eq_some_iff_append]

end Attribute
end InterfaceSurface
