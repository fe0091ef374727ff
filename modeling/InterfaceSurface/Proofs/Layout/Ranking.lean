import InterfaceSurface.Surface.Layout
import Mathlib.Data.List.Nodup
import Mathlib.Data.List.Perm.Basic

/-! # The ranking of entries

The layout key ends with the name, so among entries with distinct names it
leaves no ties: the ranked entries strictly ascend (`ranked_ascending`), each
with the place it comes from. -/
set_option autoImplicit false
namespace InterfaceSurface

/-- The layout key of `a` is less than that of `b`. -/
def Exposure.Below (repo : Repository) (a b : Exposure) : Prop :=
  compare (a.layoutKey repo) (b.layoutKey repo) = .lt

instance (repo : Repository) (a b : Exposure) : Decidable (a.Below repo b) :=
  inferInstanceAs (Decidable (_ = _))

namespace Exposure

variable {repo : Repository}

@[simp] theorem layoutKey_markLeading (a : Exposure) :
    a.markLeading.layoutKey repo = a.layoutKey repo := rfl

theorem compare_bool_eq_lt_iff :
    ∀ a b : Bool, compare a b = .lt ↔ a = false ∧ b = true := by
  decide

theorem compare_layoutKey (a b : Exposure) :
    compare (a.layoutKey repo) (b.layoutKey repo) =
      (compare a.2.base b.2.base).then
        ((compare (!a.2.isDefault) (!b.2.isDefault)).then
          ((compare a.2.overridable b.2.overridable).then
            ((compare (!a.2.exclusive) (!b.2.exclusive)).then
              ((compare (!repo.isAlwaysEnabled a.2.type) (!repo.isAlwaysEnabled b.2.type)).then
                ((compare a.2.version b.2.version).then (compare a.1 b.1)))))) := rfl

theorem Below.asymm {a b : Exposure} (below : a.Below repo b) : ¬ b.Below repo a := by
  have swapped : compare (b.layoutKey repo) (a.layoutKey repo) =
      (compare (a.layoutKey repo) (b.layoutKey repo)).swap := Std.OrientedCmp.eq_swap
  rw [Below] at below ⊢
  rw [swapped, below]
  decide

theorem precedes_trans (a b c : Exposure) (ab : a.precedes repo b = true)
    (bc : b.precedes repo c = true) : a.precedes repo c = true :=
  Std.TransCmp.isLE_trans ab bc

theorem precedes_total (a b : Exposure) : (a.precedes repo b || b.precedes repo a) = true := by
  have swapped : compare (b.layoutKey repo) (a.layoutKey repo) =
      (compare (a.layoutKey repo) (b.layoutKey repo)).swap := Std.OrientedCmp.eq_swap
  rw [precedes, precedes, swapped]
  cases compare (a.layoutKey repo) (b.layoutKey repo) <;> rfl

theorem below_of_precedes {a b : Exposure} (precedes : a.precedes repo b = true)
    (apart : a.1 ≠ b.1) : a.Below repo b := by
  rcases Ordering.isLE_iff_eq_lt_or_eq_eq.mp precedes with less | equal
  · exact less
  · exact absurd (congrArg LayoutKey.name (Std.LawfulEqCmp.eq_of_compare equal)) apart

/-- Sorted entries with distinct names strictly ascend. -/
theorem ascending_of_sorted {entries : List Exposure}
    (sorted : entries.Pairwise fun a b => a.precedes repo b = true)
    (distinct : (entries.map Prod.fst).Nodup) : entries.Pairwise (Below repo) := by
  have apart : entries.Pairwise fun a b => a.1 ≠ b.1 := by
    rwa [← List.pairwise_map, ← List.nodup_iff_pairwise_ne]
  exact (sorted.and apart).imp fun both => below_of_precedes both.1 both.2

theorem mergeSort_ascending {entries : List Exposure} (distinct : (entries.map Prod.fst).Nodup) :
    (entries.mergeSort (precedes repo)).Pairwise (Below repo) := by
  apply ascending_of_sorted
  · exact List.pairwise_mergeSort precedes_trans precedes_total _
  · rwa [((List.mergeSort_perm _ _).map Prod.fst).nodup_iff]

theorem own_of_eligible {entry : Exposure} (eligible : entry.eligible = true) :
    entry.2.base = false := by
  simp only [Exposure.eligible, Bool.and_eq_true, Bool.not_eq_true'] at eligible
  exact eligible.1.2

/-- What ranks before an eligible entry is own, and eligible as well unless it is a default and
the other is none. -/
theorem Below.own_and_default_or_eligible {a b : Exposure} (below : a.Below repo b)
    (eligible : b.eligible = true) :
    a.2.base = false ∧
      ((a.2.isDefault = true ∧ b.2.isDefault = false) ∨ a.eligible = true) := by
  simp only [Exposure.eligible, Bool.and_eq_true, Bool.not_eq_true'] at eligible ⊢
  obtain ⟨⟨exclusive, own⟩, fixed⟩ := eligible
  simp only [Below, compare_layoutKey, exclusive, own, fixed, Ordering.then_eq_lt,
    compare_bool_eq_lt_iff, Std.LawfulEqCmp.compare_eq_iff_eq, Bool.not_true,
    Bool.not_eq_false', Bool.not_eq_true', Bool.false_eq_true, and_false, false_or] at below
  obtain ⟨isOwn, defaults | ⟨_, isFixed, isExclusive, _⟩⟩ := below
  · exact ⟨isOwn, .inl defaults⟩
  · exact ⟨isOwn, .inr ⟨⟨isExclusive, isOwn⟩, isFixed⟩⟩

/-- An entry that is no default ranks behind all own defaults, and behind the
eligible entries with the same gate and a lower version. -/
theorem below_of_newer {a x : Exposure} (own : a.2.base = false)
    (flags : a.2.isDefault = true ∨ a.eligible = true) (other : x.2.isDefault = false)
    (newer : a.2.isDefault = false →
      repo.isAlwaysEnabled a.2.type = repo.isAlwaysEnabled x.2.type ∧
        compare a.2.version x.2.version = .lt) : a.Below repo x := by
  simp only [Below, compare_layoutKey, own, other, Ordering.then_eq_lt, compare_bool_eq_lt_iff,
    Std.LawfulEqCmp.compare_eq_iff_eq, Bool.not_false, Bool.not_eq_false', true_and, and_true]
  cases base : x.2.base with
  | true => exact .inl rfl
  | false =>
      refine .inr ⟨rfl, ?_⟩
      cases isDefault : a.2.isDefault with
      | true => exact .inl rfl
      | false =>
          refine .inr ⟨rfl, ?_⟩
          obtain ⟨gate, version⟩ := newer isDefault
          simp only [Exposure.eligible, Bool.and_eq_true, Bool.not_eq_true', isDefault,
            Bool.false_eq_true, false_or] at flags
          obtain ⟨⟨exclusive, _⟩, fixed⟩ := flags
          rw [fixed, exclusive, gate]
          cases x.2.overridable <;> cases x.2.exclusive <;> simp [version]

end Exposure

namespace Surface

variable (repo : Repository) (s : Surface)

theorem ranked_perm : (s.ranked repo).Perm s.toList.zipIdx := List.mergeSort_perm _ _

theorem ranked_entries_perm : ((s.ranked repo).map Prod.fst).Perm s.toList := by
  have perm := (s.ranked_perm repo).map Prod.fst
  rwa [List.zipIdx_map_fst] at perm

theorem length_ranked : (s.ranked repo).length = s.toList.length := by
  rw [(s.ranked_perm repo).length_eq, List.length_zipIdx]

theorem ranked_places_nodup : ((s.ranked repo).map Prod.snd).Nodup := by
  rw [((s.ranked_perm repo).map Prod.snd).nodup_iff, List.zipIdx_map_snd]
  exact List.nodup_range'

variable {repo s}

theorem ranked_ascending (distinct : s.names.Nodup) :
    ((s.ranked repo).map Prod.fst).Pairwise (Exposure.Below repo) := by
  apply Exposure.ascending_of_sorted
  · exact List.pairwise_map.mpr
      (List.pairwise_mergeSort (fun a b c => Exposure.precedes_trans a.1 b.1 c.1)
        (fun a b => Exposure.precedes_total a.1 b.1) _)
  · exact (((s.ranked_entries_perm repo).map Prod.fst).nodup_iff).mpr distinct

/-- The ranking is the one arrangement of the entries that strictly ascends. -/
theorem ranked_eq_of_ascending (distinct : s.names.Nodup) {entries : List Exposure}
    (perm : entries.Perm s.toList) (ascending : entries.Pairwise (Exposure.Below repo)) :
    (s.ranked repo).map Prod.fst = entries := by
  apply List.Perm.eq_of_pairwise _ (ranked_ascending distinct) ascending
    ((s.ranked_entries_perm repo).trans perm.symm)
  intro a b _ _ ab ba
  exact absurd ba ab.asymm

theorem leadingCount_le : s.leadingCount ≤ s.toList.length := List.countP_le_length

end Surface
end InterfaceSurface
