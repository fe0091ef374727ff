import InterfaceSurface.Proofs.Layout.Growth
import Mathlib.Data.List.TakeWhile

/-! # The layout depends on the own entries

An own entry ranks before every entry from a base class, and only own entries add
places.  So the leading part is the beginning of the ranking of the own entries, and
surfaces whose own entries look the same have leading parts that look the same
(`markedEntries_eq_of_own_perm`) and as long (`leadingMethods_eq_of_own_perm`):
neither the order of the entries nor what base classes bring matters. -/
set_option autoImplicit false
namespace InterfaceSurface

variable {repo other : Repository}

namespace Exposure

/-- The entry without its scope, which has no part in the layout. -/
def unscoped (entry : Exposure) : Exposure := (entry.1, { entry.2 with scope := .empty })

theorem eligible_eq (entry : Exposure) :
    entry.eligible = (!(entry.layoutKey repo).shared && !(entry.layoutKey repo).base &&
      !(entry.layoutKey repo).overridable) := by
  simp [eligible, layoutKey]

theorem eligible_congr {a b : Exposure} (same : a.layoutKey repo = b.layoutKey repo) :
    a.eligible = b.eligible := by
  rw [a.eligible_eq, b.eligible_eq, same]

theorem Below.own {a b : Exposure} (below : a.Below repo b) (own : b.2.base = false) :
    a.2.base = false := by
  simp only [Below, compare_layoutKey, own, Ordering.then_eq_lt, compare_bool_eq_lt_iff,
    Std.LawfulEqCmp.compare_eq_iff_eq, Bool.false_eq_true, and_false, false_or] at below
  exact below.1

theorem layoutKey_eq_of_gates (gates : repo.isAlwaysEnabled = other.isAlwaysEnabled) :
    layoutKey repo = layoutKey other := by
  funext entry
  rw [layoutKey, layoutKey, gates]

end Exposure

/-- What has the property comes first, so that it is all there is at the beginning. -/
theorem take_filter_of_pairwise {α : Type} {kind : α → Bool} {items : List α} {count : Nat}
    (first : items.Pairwise fun a b => kind b = true → kind a = true)
    (enough : count ≤ items.countP kind) : (items.filter kind).take count = items.take count := by
  induction items generalizing count with
  | nil => rfl
  | cons a rest ih =>
      obtain ⟨ahead, onward⟩ := List.pairwise_cons.mp first
      cases count with
      | zero => rfl
      | succ count =>
          have isKind : kind a = true := by
            obtain ⟨b, listed, isKind⟩ := List.countP_pos_iff.mp (Nat.zero_lt_of_lt enough)
            rcases List.mem_cons.mp listed with rfl | later
            · exact isKind
            · exact ahead b later isKind
          rw [List.countP_cons_of_pos isKind] at enough
          rw [List.filter_cons_of_pos isKind, List.take_succ_cons, List.take_succ_cons,
            ih onward (Nat.le_of_succ_le_succ enough)]

/-- The view shows all that the layout goes by. -/
structure Exposure.ShowsLayout (view : Exposure → Exposure) : Prop where
  layoutKey : ∀ (repo : Repository) (entry : Exposure),
    (view entry).layoutKey repo = entry.layoutKey repo
  type : ∀ entry, (view entry).2.type = entry.2.type
  markLeading : ∀ entry, view entry.markLeading = (view entry).markLeading

theorem Exposure.showsLayout_id : ShowsLayout id :=
  ⟨fun _ _ => rfl, fun _ => rfl, fun _ => rfl⟩

theorem Exposure.showsLayout_unscoped : ShowsLayout unscoped :=
  ⟨fun _ _ => rfl, fun _ => rfl, fun _ => rfl⟩

namespace Surface

variable {s t : Surface} {view : Exposure → Exposure}

def ownEntries (s : Surface) : List Exposure := s.toList.filter (!·.2.base)

theorem mem_ownEntries_iff {entry : Exposure} :
    entry ∈ s.ownEntries ↔ entry ∈ s.toList ∧ entry.2.base = false := by
  simp [ownEntries]

theorem unscoped_ownEntries_nodup (distinct : s.names.Nodup) :
    (s.ownEntries.map Exposure.unscoped).Nodup := by
  apply List.Nodup.of_map Prod.fst
  rw [List.map_map]
  exact distinct.sublist (List.filter_sublist.map Prod.fst)

theorem leadingCount_eq_own (s : Surface) :
    s.leadingCount = s.ownEntries.countP Exposure.eligible := by
  rw [leadingCount, ownEntries, List.countP_filter]
  refine List.countP_congr fun entry _ => ?_
  cases eligible : entry.eligible with
  | true => simp [Exposure.own_of_eligible eligible]
  | false => simp

/-- The own entries in the order of the ranking. -/
def ownRanking (repo : Repository) (s : Surface) : List Exposure :=
  ((s.ranked repo).map Prod.fst).filter (!·.2.base)

theorem ownRanking_perm : (s.ownRanking repo).Perm s.ownEntries :=
  (s.ranked_entries_perm repo).filter _

theorem ownRanking_ascending (distinct : s.names.Nodup) :
    (s.ownRanking repo).Pairwise (Exposure.Below repo) :=
  (ranked_ascending distinct).sublist List.filter_sublist

theorem leadingPart_eq_take (distinct : s.names.Nodup) :
    (s.leadingPart repo).map Prod.fst = (s.ownRanking repo).take s.leadingCount := by
  rw [entries_leadingPart, ownRanking]
  refine (take_filter_of_pairwise ?_ ?_).symm
  · refine (ranked_ascending distinct).imp fun below own => ?_
    simpa using below.own (by simpa using own)
  · rw [leadingCount, ← (s.ranked_entries_perm repo).countP_eq]
    exact List.countP_mono_left fun entry _ eligible => by
      simp [Exposure.own_of_eligible eligible]

/-- Two rankings of own entries that look the same look the same. -/
theorem ownRanking_eq_of_own_perm (shows : Exposure.ShowsLayout view)
    (gates : repo.isAlwaysEnabled = other.isAlwaysEnabled) (distinct : s.names.Nodup)
    (distinctToo : t.names.Nodup)
    (same : (s.ownEntries.map view).Perm (t.ownEntries.map view)) :
    (s.ownRanking repo).map view = (t.ownRanking other).map view := by
  have viewed : ∀ {u : Surface}, u.names.Nodup →
      ((u.ownRanking repo).map view).Pairwise (Exposure.Below repo) := by
    intro u distinct
    refine List.pairwise_map.mpr ((ownRanking_ascending distinct).imp fun {a b} below => ?_)
    rwa [Exposure.Below, shows.layoutKey, shows.layoutKey]
  have rankings : t.ownRanking other = t.ownRanking repo := by
    simp only [ownRanking, ranked, Exposure.precedes, Exposure.layoutKey_eq_of_gates gates]
  rw [rankings]
  refine List.Perm.eq_of_pairwise ?_ (viewed distinct) (viewed distinctToo) ?_
  · intro a b _ _ ab ba
    exact absurd ba ab.asymm
  · exact (ownRanking_perm.map view).trans (same.trans (ownRanking_perm.map view).symm)

theorem leadingCount_eq_of_own_perm (shows : Exposure.ShowsLayout view)
    (same : (s.ownEntries.map view).Perm (t.ownEntries.map view)) :
    s.leadingCount = t.leadingCount := by
  have viewed : ∀ entries : List Exposure,
      (entries.map view).countP Exposure.eligible = entries.countP Exposure.eligible := by
    intro entries
    rw [List.countP_map]
    refine List.countP_congr fun entry _ => ?_
    rw [Function.comp_apply, Exposure.eligible_congr (shows.layoutKey .empty entry)]
  rw [leadingCount_eq_own, leadingCount_eq_own, ← viewed, same.countP_eq, viewed]

/-- Surfaces whose own entries look the same have leading parts that look the same. -/
theorem markedEntries_eq_of_own_perm (shows : Exposure.ShowsLayout view)
    (gates : repo.isAlwaysEnabled = other.isAlwaysEnabled) (distinct : s.names.Nodup)
    (distinctToo : t.names.Nodup) (plain : ∀ entry ∈ s.toList, entry.2.leading = false)
    (plainToo : ∀ entry ∈ t.toList, entry.2.leading = false)
    (same : (s.ownEntries.map view).Perm (t.ownEntries.map view)) :
    (s.order repo true).markedEntries.map view = (t.order other true).markedEntries.map view := by
  have marks : ∀ entries : List Exposure, (entries.map Exposure.markLeading).map view =
      (entries.map view).map Exposure.markLeading := by
    intro entries
    simp only [List.map_map, Function.comp_def, shows.markLeading]
  have parts : ((s.leadingPart repo).map Prod.fst).map view =
      ((t.leadingPart other).map Prod.fst).map view := by
    rw [leadingPart_eq_take distinct, leadingPart_eq_take distinctToo, List.map_take,
      List.map_take, ownRanking_eq_of_own_perm shows gates distinct distinctToo same,
      leadingCount_eq_of_own_perm shows same]
  rw [markedEntries_order plain, markedEntries_order plainToo, marks, marks,
    parts]

/-- All marked entries stand at the head of a surface that is laid out. -/
theorem takeWhile_order (plain : ∀ entry ∈ s.toList, entry.2.leading = false) :
    (s.order repo true).toList.takeWhile (·.2.leading) = (s.order repo true).markedEntries := by
  have front : ∀ entry ∈ ((s.leadingPart repo).map Prod.fst).map Exposure.markLeading,
      entry.2.leading = true := by
    intro entry marked
    obtain ⟨_, _, rfl⟩ := List.mem_map.mp marked
    rfl
  have back : (s.remainder repo).takeWhile (·.2.leading) = [] := by
    rw [List.takeWhile_eq_nil_iff]
    intro inside
    rw [plain _ (remainder_sublist.mem (List.get_mem _ ⟨0, inside⟩))]
    decide
  rw [markedEntries_order plain, order, if_pos rfl, toList_layOut,
    List.takeWhile_append_of_pos front, back, List.append_nil]

theorem leadingMethods_order (plain : ∀ entry ∈ s.toList, entry.2.leading = false) :
    (s.order repo true).leadingMethods repo =
      (s.order repo true).markedEntries.foldr
        (fun entry count => repo.methodCount entry.2.type + count) 0 := by
  rw [leadingMethods, takeWhile_order plain]

theorem leadingMethods_eq_of_own_perm (shows : Exposure.ShowsLayout view)
    (gates : repo.isAlwaysEnabled = other.isAlwaysEnabled)
    (methods : repo.methodCount = other.methodCount) (distinct : s.names.Nodup)
    (distinctToo : t.names.Nodup) (plain : ∀ entry ∈ s.toList, entry.2.leading = false)
    (plainToo : ∀ entry ∈ t.toList, entry.2.leading = false)
    (same : (s.ownEntries.map view).Perm (t.ownEntries.map view)) :
    (s.order repo true).leadingMethods repo = (t.order other true).leadingMethods other := by
  have viewed : ∀ entries : List Exposure,
      entries.foldr (fun entry count => repo.methodCount entry.2.type + count) 0 =
        (entries.map view).foldr (fun entry count => repo.methodCount entry.2.type + count) 0 := by
    intro entries
    simp only [List.foldr_map, shows.type]
  have marked := markedEntries_eq_of_own_perm shows gates distinct distinctToo plain plainToo same
  rw [leadingMethods_order plain, leadingMethods_order plainToo, ← methods,
    viewed, marked, ← viewed]

end Surface
end InterfaceSurface
