import InterfaceSurface.NameFilter
import Mathlib.Data.List.Basic

/-! # The longest stem decides

A filter keeps its rules in order and lets the first decide that applies.  Told without an
order, the longest stem decides that the name starts with, and the excluding one if there are
two: a name passes a filter with rules just if it starts with an including stem that is longer,
in UTF-8 bytes, than every excluding stem it starts with (`NameFilter.includes_ofStems_iff`). -/
set_option autoImplicit false
namespace InterfaceSurface

namespace FilterRule

variable {a b : FilterRule}

theorem applies_iff {rule : FilterRule} {name : String} :
    rule.applies name = true ↔ rule.stem.toList <+: name.toList :=
  List.isPrefixOf_iff_prefix

theorem precedes_iff :
    a.precedes b = true ↔ b.stem.utf8ByteSize < a.stem.utf8ByteSize ∨
      a.stem.utf8ByteSize = b.stem.utf8ByteSize ∧ (a.includes = true → b.includes = true) := by
  unfold precedes
  cases a.includes <;> cases b.includes <;> simp

theorem precedes_trans (a b c : FilterRule) (first : a.precedes b = true)
    (second : b.precedes c = true) : a.precedes c = true := by
  rw [precedes_iff] at first second ⊢
  rcases first with longer | ⟨even, onward⟩
  · left
    omega
  · rcases second with longer | ⟨evenToo, onwardToo⟩
    · left
      omega
    · exact .inr ⟨even.trans evenToo, fun included => onwardToo (onward included)⟩

theorem precedes_total (a b : FilterRule) : (a.precedes b || b.precedes a) = true := by
  rw [Bool.or_eq_true, precedes_iff, precedes_iff]
  rcases Nat.lt_trichotomy a.stem.utf8ByteSize b.stem.utf8ByteSize with longer | even | longer
  · exact .inr (.inl longer)
  · cases included : a.includes with
    | false => exact .inl (.inr ⟨even, nofun⟩)
    | true => exact .inr (.inr ⟨even.symm, fun _ => rfl⟩)
  · exact .inl (.inl longer)

/-- An excluding rule gives way to an including one only if that has the longer stem. -/
theorem byteSize_lt_of_precedes (before : a.precedes b = true) (included : a.includes = true)
    (excluded : b.includes = false) : b.stem.utf8ByteSize < a.stem.utf8ByteSize := by
  rcases precedes_iff.mp before with longer | ⟨_, onward⟩
  · exact longer
  · rw [onward included] at excluded
    cases excluded

theorem byteSize_le_of_precedes (before : a.precedes b = true) :
    b.stem.utf8ByteSize ≤ a.stem.utf8ByteSize := by
  rcases precedes_iff.mp before with longer | ⟨even, _⟩ <;> omega

end FilterRule

namespace NameFilter

variable {includes excludes : List String} {name : String} {rule other : FilterRule}

theorem mem_declared_iff :
    rule ∈ declared includes excludes ↔
      rule.includes = true ∧ rule.stem ∈ includes ∨
        rule.includes = false ∧ rule.stem ∈ excludes := by
  obtain ⟨stem, kind⟩ := rule
  cases kind <;> simp [declared]

theorem mem_rules_ofStems_iff :
    rule ∈ (ofStems includes excludes).rules ↔ rule ∈ declared includes excludes :=
  (List.mergeSort_perm _ _).mem_iff

theorem rules_ofStems_sorted (includes excludes : List String) :
    (ofStems includes excludes).rules.Pairwise fun a b => a.precedes b = true :=
  List.pairwise_mergeSort FilterRule.precedes_trans FilterRule.precedes_total _

theorem isEmpty_ofStems_iff :
    (ofStems includes excludes).isEmpty = true ↔ includes = [] ∧ excludes = [] := by
  have sorted : (ofStems includes excludes).rules.Perm (declared includes excludes) :=
    List.mergeSort_perm _ _
  rw [isEmpty, List.isEmpty_iff, ← List.length_eq_zero_iff, sorted.length_eq]
  simp [declared]

/-- The rule applies, and stands before whatever else applies. -/
structure Decides (rules : List FilterRule) (name : String) (rule : FilterRule) : Prop where
  listed : rule ∈ rules
  applies : rule.applies name = true
  first : ∀ other ∈ rules, other.applies name = true →
    other = rule ∨ rule.precedes other = true

theorem decides_of_find?
    (found : (ofStems includes excludes).rules.find? (·.applies name) = some rule) :
    Decides (declared includes excludes) name rule := by
  obtain ⟨applies, front, back, split, unmatched⟩ := List.find?_eq_some_iff_append.mp found
  have sorted := rules_ofStems_sorted includes excludes
  refine ⟨mem_rules_ofStems_iff.mp (List.mem_of_find?_eq_some found), applies, ?_⟩
  intro other listed appliesToo
  have member := mem_rules_ofStems_iff.mpr listed
  rw [split] at sorted member
  rcases List.mem_append.mp member with before | behind
  · have skipped := unmatched other before
    rw [appliesToo] at skipped
    cases skipped
  · rcases List.mem_cons.mp behind with same | later
    · exact .inl same
    · have ordered := (List.pairwise_append.mp sorted).2.1
      exact .inr (List.rel_of_pairwise_cons ordered later)

/-- The rule that decides includes a name just if an including stem outgrows the excluding ones,
whatever the order of the rules. -/
theorem Decides.includes_iff (decides : Decides (declared includes excludes) name rule) :
    rule.includes = true ↔
      ∃ stem ∈ includes, stem.toList <+: name.toList ∧
        ∀ other ∈ excludes, other.toList <+: name.toList →
          other.utf8ByteSize < stem.utf8ByteSize := by
  have starts := FilterRule.applies_iff.mp decides.applies
  constructor
  · intro included
    have given : rule.stem ∈ includes := by
      rcases mem_declared_iff.mp decides.listed with ⟨_, given⟩ | ⟨excluded, _⟩
      · exact given
      · rw [included] at excluded
        cases excluded
    refine ⟨rule.stem, given, starts, fun other excluding startsToo => ?_⟩
    have listed : ⟨other, false⟩ ∈ declared includes excludes :=
      mem_declared_iff.mpr (.inr ⟨rfl, excluding⟩)
    rcases decides.first _ listed (FilterRule.applies_iff.mpr startsToo) with same | before
    · subst same
      cases included
    · exact FilterRule.byteSize_lt_of_precedes before included rfl
  · rintro ⟨stem, given, startsToo, longest⟩
    have listed : ⟨stem, true⟩ ∈ declared includes excludes :=
      mem_declared_iff.mpr (.inl ⟨rfl, given⟩)
    by_contra excluded
    -- An excluding rule that decides would have a stem shorter than the including one.
    have excluding : rule.stem ∈ excludes := by
      rcases mem_declared_iff.mp decides.listed with ⟨included, _⟩ | ⟨_, excluding⟩
      · exact absurd included excluded
      · exact excluding
    have shorter := longest rule.stem excluding starts
    rcases decides.first _ listed (FilterRule.applies_iff.mpr startsToo) with same | before
    · subst same
      exact excluded rfl
    · exact Nat.not_lt_of_le (FilterRule.byteSize_le_of_precedes before) shorter

/-- A name passes if there are no rules, or if it starts with an including stem that is longer
than every excluding stem it starts with. -/
theorem includes_ofStems_iff (includes excludes : List String) (name : String) :
    (ofStems includes excludes).includes name = true ↔
      (includes = [] ∧ excludes = []) ∨
        ∃ stem ∈ includes, stem.toList <+: name.toList ∧
          ∀ other ∈ excludes, other.toList <+: name.toList →
            other.utf8ByteSize < stem.utf8ByteSize := by
  rw [NameFilter.includes, Bool.or_eq_true, isEmpty_ofStems_iff]
  refine or_congr_right ?_
  cases found : (ofStems includes excludes).rules.find? (·.applies name) with
  | some rule => exact (decides_of_find? found).includes_iff
  | none =>
      refine iff_of_false nofun ?_
      rintro ⟨stem, given, starts, _⟩
      have listed : ⟨stem, true⟩ ∈ (ofStems includes excludes).rules :=
        mem_rules_ofStems_iff.mpr (mem_declared_iff.mpr (.inl ⟨rfl, given⟩))
      exact List.find?_eq_none.mp found _ listed (FilterRule.applies_iff.mpr starts)

/-- The longest of three stems decides, and of two equal ones the excluding. -/
example : (ofStems ["Demo.Ω.", "Demo"] ["Demo.Ω", "Demo"]).includes "Demo.Ω.Widget" = true ∧
    (ofStems ["Demo.Ω.", "Demo"] ["Demo.Ω", "Demo"]).includes "Demo.Widget" = false := by
  constructor <;> cbv

end NameFilter
end InterfaceSurface
