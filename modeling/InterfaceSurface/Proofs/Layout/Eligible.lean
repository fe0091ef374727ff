import InterfaceSurface.Proofs.Layout.Growth

/-! # Who gets into the leading part

Eligible entries say how many places the leading part has, and the layout key says who
gets them.  Both prefer the same entries but for one thing: an own default comes first
even if it is not eligible.  So the marked entries are the eligible ones unless such a
default takes the place of an eligible entry that is no default
(`leading_order_iff_eligible`). -/
set_option autoImplicit false
namespace InterfaceSurface

variable {repo : Repository}

namespace Exposure

/-- An own default ranks before all that are no defaults. -/
theorem below_of_default {a b : Exposure} (own : a.2.base = false)
    (isDefault : a.2.isDefault = true) (other : b.2.isDefault = false) : a.Below repo b :=
  below_of_newer own (.inl isDefault) other fun otherToo => by simp [isDefault] at otherToo

end Exposure

namespace Surface

variable {s : Surface} {entry : Exposure}

theorem mem_toList_order : entry ∈ (s.order repo true).toList ↔
      (∃ a ∈ (s.leadingPart repo).map Prod.fst, a.markLeading = entry) ∨
        entry ∈ s.remainder repo := by
  rw [order, if_pos rfl, toList_layOut, List.mem_append, List.mem_map]

/-- There are as many places as eligible entries, so if only eligible ones have them, none is
left over. -/
theorem not_eligible_of_remainder
    (leading : ∀ a ∈ (s.leadingPart repo).map Prod.fst, a.eligible = true) :
    ∀ b ∈ s.remainder repo, b.eligible = false := by
  have total : ((s.leadingPart repo).map Prod.fst ++ s.remainder repo).countP Exposure.eligible =
      s.leadingCount := parts_perm.countP_eq _
  have front : ((s.leadingPart repo).map Prod.fst).countP Exposure.eligible = s.leadingCount := by
    rw [List.countP_eq_length.mpr leading, List.length_map, length_leadingPart]
  rw [List.countP_append, front] at total
  have none : (s.remainder repo).countP Exposure.eligible = 0 := by omega
  simpa using List.countP_eq_zero.mp none

theorem leading_iff_eligible_iff (plain : ∀ entry ∈ s.toList, entry.2.leading = false) :
    (∀ entry ∈ (s.order repo true).toList, entry.2.leading = true ↔ entry.eligible = true) ↔
      ∀ a ∈ (s.leadingPart repo).map Prod.fst, a.eligible = true := by
  constructor
  · intro same a leads
    exact (same a.markLeading (mem_toList_order.mpr (.inl ⟨a, leads, rfl⟩))).mp rfl
  · intro leading entry member
    rcases mem_toList_order.mp member with ⟨a, leads, rfl⟩ | rest
    · exact iff_of_true rfl (leading a leads)
    · have unmarked := plain entry (remainder_sublist.mem rest)
      have ineligible := not_eligible_of_remainder leading entry rest
      simp [unmarked, ineligible]

/-- No default is in the way: all own defaults are eligible, or nothing else is. -/
theorem eligible_of_leadingPart (distinct : s.names.Nodup)
    (noneInTheWay :
      (∀ a ∈ s.toList, a.2.base = false → a.2.isDefault = true → a.eligible = true) ∨
        ∀ a ∈ s.toList, a.eligible = true → a.2.isDefault = true) :
    ∀ a ∈ (s.leadingPart repo).map Prod.fst, a.eligible = true := by
  intro a leads
  have member : a ∈ s.toList := mem_parts_iff.mp (.inl leads)
  obtain ⟨own, eligible | ⟨isDefault, last, listed, eligible, other⟩⟩ :=
    eligible_or_default_of_leading distinct leads
  · exact eligible
  · rcases noneInTheWay with defaultsEligible | eligibleDefaults
    · exact defaultsEligible a member own isDefault
    · cases other.symm.trans (eligibleDefaults last listed eligible)

/-- A default that is not eligible keeps out an eligible entry that is no default. -/
theorem noneInTheWay_of_leadingPart (distinct : s.names.Nodup)
    (leading : ∀ a ∈ (s.leadingPart repo).map Prod.fst, a.eligible = true) :
    (∀ a ∈ s.toList, a.2.base = false → a.2.isDefault = true → a.eligible = true) ∨
      ∀ a ∈ s.toList, a.eligible = true → a.2.isDefault = true := by
  by_cases defaultsEligible :
      ∀ a ∈ s.toList, a.2.base = false → a.2.isDefault = true → a.eligible = true
  · exact .inl defaultsEligible
  · right
    intro b bMember eligible
    push Not at defaultsEligible
    obtain ⟨a, aMember, own, isDefault, ineligible⟩ := defaultsEligible
    have aRest : a ∈ s.remainder repo :=
      (mem_parts_iff.mpr aMember).resolve_left fun leads => ineligible (leading a leads)
    have bLeads : b ∈ (s.leadingPart repo).map Prod.fst :=
      (mem_parts_iff.mpr bMember).resolve_right fun rest => by
        cases eligible.symm.trans (not_eligible_of_remainder leading b rest)
    cases other : b.2.isDefault with
    | true => rfl
    | false =>
        have before : b.Below repo a := leadingPart_below_remainder distinct bLeads aRest
        exact absurd (Exposure.below_of_default own isDefault other) before.asymm

variable (repo) in
/-- What is marked is own, and a default if it is not eligible; and the marked entries are the
eligible ones just if all own defaults are eligible or all eligible entries are defaults. -/
theorem leading_order_iff_eligible (distinct : s.names.Nodup)
    (plain : ∀ entry ∈ s.toList, entry.2.leading = false) :
    (∀ entry ∈ (s.order repo true).toList, entry.2.leading = true → entry.2.base = false) ∧
      (∀ entry ∈ (s.order repo true).toList, entry.2.leading = true → entry.eligible = false →
        entry.2.base = false ∧ entry.2.isDefault = true) ∧
      ((∀ entry ∈ (s.order repo true).toList,
          entry.2.leading = true ↔ entry.eligible = true) ↔
        (∀ entry ∈ s.toList, entry.2.base = false → entry.2.isDefault = true →
            entry.eligible = true) ∨
          ∀ entry ∈ s.toList, entry.eligible = true → entry.2.isDefault = true) := by
  have marked : ∀ entry ∈ (s.order repo true).toList, entry.2.leading = true →
      entry.2.base = false ∧ (entry.2.isDefault = true ∨ entry.eligible = true) :=
    fun entry member leading =>
      own_and_default_or_eligible_of_marked distinct plain (List.mem_filter.mpr ⟨member, leading⟩)
  refine ⟨fun entry member leading => (marked entry member leading).1, ?_, ?_⟩
  · intro entry member leading ineligible
    obtain ⟨own, isDefault | eligible⟩ := marked entry member leading
    · exact ⟨own, isDefault⟩
    · cases ineligible.symm.trans eligible
  · rw [leading_iff_eligible_iff plain]
    exact ⟨noneInTheWay_of_leadingPart distinct, eligible_of_leadingPart distinct⟩

/-- The default of the shelf is not eligible, and keeps out an eligible entry. -/
theorem leading_order_iff_eligible_of_shelf :
    shelf.names.Nodup ∧ (∀ entry ∈ shelf.toList, entry.2.leading = false) ∧
      (∀ entry ∈ (shelf.order things true).toList, entry.2.leading = true →
        entry.2.base = false) ∧
      (∃ entry ∈ (shelf.order things true).toList,
        entry.2.leading = true ∧ entry.eligible = false ∧ entry.2.isDefault = true) ∧
      ¬ ∀ entry ∈ (shelf.order things true).toList,
        entry.2.leading = true ↔ entry.eligible = true := by
  have distinct : shelf.names.Nodup := by decide
  have plain : ∀ entry ∈ shelf.toList, entry.2.leading = false := by decide
  obtain ⟨own, isDefault, same⟩ := leading_order_iff_eligible things distinct plain
  have inTheWay : ((shelf.order things true).toList.any fun entry =>
      entry.2.leading && !entry.eligible) = true := by
    rw [order_things]
    cbv
  refine ⟨distinct, plain, own, ?_, ?_⟩
  · obtain ⟨entry, member, flags⟩ := List.any_eq_true.mp inTheWay
    simp only [Bool.and_eq_true, Bool.not_eq_true'] at flags
    obtain ⟨leading, ineligible⟩ := flags
    exact ⟨entry, member, leading, ineligible, (isDefault entry member leading ineligible).2⟩
  · rw [same]
    decide

end Surface
end InterfaceSurface
