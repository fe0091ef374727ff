import InterfaceSurface.Proofs.Layout.Ranking
import InterfaceSurface.Proofs.Surface.Lookup
import Mathlib.Data.List.Permutation

/-! # What laying out does

`LaidOut` is the layout seen from outside: the least entries come first, in
ascending order and marked, and the others follow as they were.  It is reached by
way of places: the leading part and the remainder share out the places of the
ranking (`remainder_perm`), so no entry is lost and none comes twice. -/
set_option autoImplicit false
namespace InterfaceSurface

def Exposure.unmark (entry : Exposure) : Exposure :=
  (entry.1, { entry.2 with leading := false })

theorem Exposure.unmark_of_unmarked {entry : Exposure} (plain : entry.2.leading = false) :
    entry.unmark = entry := by
  obtain ⟨name, facet⟩ := entry
  cases facet
  cases plain
  rfl

@[simp] theorem Exposure.unmark_markLeading (entry : Exposure) :
    entry.markLeading.unmark = entry.unmark := rfl

namespace Surface

/-- The entries of `result` are those of `s`, the `first` least of them in front
and marked. -/
structure LaidOut (repo : Repository) (first : Nat) (s result : Surface) : Prop where
  permuted : (result.toList.map Exposure.unmark).Perm s.toList
  long : (result.toList.take first).length = first
  ascending : (result.toList.take first).Pairwise (Exposure.Below repo)
  least : ∀ a ∈ result.toList.take first, ∀ b ∈ result.toList.drop first, a.Below repo b
  marked : ∀ entry ∈ result.toList.take first, entry.2.leading = true
  unmarked : ∀ entry ∈ result.toList.drop first, entry.2.leading = false
  kept : (result.toList.drop first).Sublist s.toList
  get? : ∀ name, result.get? name = (result.toList.find? (·.1 == name)).map Prod.snd
  contains : ∀ name, result.contains name = result.toList.any (·.1 == name)

/-! ## The two parts -/

theorem filter_untaken {ranking : List (Exposure × Nat)} (distinct : (ranking.map Prod.snd).Nodup)
    (count : Nat) :
    (ranking.filter fun entry => !((ranking.take count).map Prod.snd).contains entry.2) =
      ranking.drop count := by
  have split : (ranking.take count).map Prod.snd ++ (ranking.drop count).map Prod.snd =
      ranking.map Prod.snd := by
    rw [← List.map_append, List.take_append_drop]
  rw [← split] at distinct
  have apart := (List.nodup_append.mp distinct).2.2
  have front : ((ranking.take count).filter fun entry =>
      !((ranking.take count).map Prod.snd).contains entry.2) = [] := by
    apply List.filter_eq_nil_iff.mpr
    intro entry member
    have taken : entry.2 ∈ (ranking.take count).map Prod.snd := List.mem_map_of_mem member
    simpa using taken
  have back : ((ranking.drop count).filter fun entry =>
      !((ranking.take count).map Prod.snd).contains entry.2) = ranking.drop count := by
    apply List.filter_eq_self.mpr
    intro entry member
    have free : entry.2 ∉ (ranking.take count).map Prod.snd := fun taken =>
      apart entry.2 taken entry.2 (List.mem_map_of_mem member) rfl
    simpa using free
  calc ranking.filter (fun entry => !((ranking.take count).map Prod.snd).contains entry.2)
      = (ranking.take count ++ ranking.drop count).filter
          (fun entry => !((ranking.take count).map Prod.snd).contains entry.2) := by
        rw [List.take_append_drop]
    _ = ranking.drop count := by rw [List.filter_append, front, back, List.nil_append]

variable {repo : Repository} {s : Surface}

theorem remainder_perm :
    (s.remainder repo).Perm (((s.ranked repo).drop s.leadingCount).map Prod.fst) := by
  have rest := filter_untaken (s.ranked_places_nodup repo) s.leadingCount
  have perm := ((s.ranked_perm repo).filter fun entry =>
    !((s.leadingPart repo).map Prod.snd).contains entry.2).symm
  rw [leadingPart, rest] at perm
  exact perm.map Prod.fst

theorem remainder_sublist : (s.remainder repo).Sublist s.toList := by
  have kept := (List.filter_sublist (l := s.toList.zipIdx)
    (p := fun entry => !((s.leadingPart repo).map Prod.snd).contains entry.2)).map Prod.fst
  rwa [List.zipIdx_map_fst] at kept

theorem entries_leadingPart : (s.leadingPart repo).map Prod.fst =
    ((s.ranked repo).map Prod.fst).take s.leadingCount := by
  rw [leadingPart, List.map_take]

theorem length_leadingPart : (s.leadingPart repo).length = s.leadingCount := by
  rw [leadingPart, List.length_take, length_ranked, Nat.min_eq_left leadingCount_le]

theorem parts_perm :
    ((s.leadingPart repo).map Prod.fst ++ s.remainder repo).Perm s.toList := by
  refine (List.Perm.append_left _ remainder_perm).trans ?_
  rw [leadingPart, ← List.map_append, List.take_append_drop]
  exact s.ranked_entries_perm repo

theorem mem_parts_iff {entry : Exposure} :
    entry ∈ (s.leadingPart repo).map Prod.fst ∨ entry ∈ s.remainder repo ↔ entry ∈ s.toList := by
  rw [← List.mem_append, parts_perm.mem_iff]

theorem toList_layOut : (s.layOut repo).toList =
    ((s.leadingPart repo).map Prod.fst).map Exposure.markLeading ++ s.remainder repo := by
  rw [layOut, toList_reorder, List.map_map]
  rfl

theorem take_layOut : (s.layOut repo).toList.take s.leadingCount =
    ((s.leadingPart repo).map Prod.fst).map Exposure.markLeading := by
  rw [toList_layOut, List.take_left' (by simp [length_leadingPart])]

theorem drop_layOut : (s.layOut repo).toList.drop s.leadingCount = s.remainder repo := by
  rw [toList_layOut, List.drop_left' (by simp [length_leadingPart])]

/-- An ordering loses no name and brings none. -/
theorem names_layOut_perm : (s.layOut repo).names.Perm s.names := by
  have unmarked : (s.layOut repo).names =
      ((s.leadingPart repo).map Prod.fst ++ s.remainder repo).map Prod.fst := by
    simp [names, toList_layOut, Exposure.markLeading]
  rw [unmarked]
  exact parts_perm.map Prod.fst

theorem names_layOut_nodup (distinct : s.names.Nodup) : (s.layOut repo).names.Nodup :=
  names_layOut_perm.nodup_iff.mpr distinct

theorem indexed_layOut (distinct : s.names.Nodup) : (s.layOut repo).Indexed :=
  indexed_reorder (names_layOut_nodup distinct)

theorem map_unmark_of_unmarked (plain : ∀ entry ∈ s.toList, entry.2.leading = false) :
    s.toList.map Exposure.unmark = s.toList := by
  rw [List.map_congr_left fun entry member => Exposure.unmark_of_unmarked (plain entry member)]
  exact List.map_id' _

/-- Apart from the marks, the layout only moves entries. -/
theorem map_unmark_layOut_perm (plain : ∀ entry ∈ s.toList, entry.2.leading = false) :
    ((s.layOut repo).toList.map Exposure.unmark).Perm s.toList := by
  have unmarked : (s.layOut repo).toList.map Exposure.unmark =
      ((s.leadingPart repo).map Prod.fst ++ s.remainder repo).map Exposure.unmark := by
    simp [toList_layOut]
  rw [unmarked]
  exact map_unmark_of_unmarked plain ▸ parts_perm.map Exposure.unmark

/-- The layout leaves the number of eligible entries as it is. -/
theorem leadingCount_order : (s.order repo true).leadingCount = s.leadingCount := by
  have marks : (Exposure.eligible ∘ Exposure.markLeading) = Exposure.eligible := rfl
  rw [order, if_pos rfl, leadingCount, toList_layOut, List.countP_append, List.countP_map,
    marks, ← List.countP_append, parts_perm.countP_eq, leadingCount]

theorem leadingPart_ascending (distinct : s.names.Nodup) :
    ((s.leadingPart repo).map Prod.fst).Pairwise (Exposure.Below repo) := by
  rw [entries_leadingPart]
  exact (ranked_ascending distinct).sublist (List.take_sublist _ _)

theorem leadingPart_below_remainder (distinct : s.names.Nodup) {a b : Exposure}
    (leads : a ∈ (s.leadingPart repo).map Prod.fst) (rest : b ∈ s.remainder repo) :
    a.Below repo b := by
  have ascending : ((s.ranked repo).map Prod.fst).Pairwise (Exposure.Below repo) :=
    ranked_ascending distinct
  rw [← List.take_append_drop s.leadingCount (s.ranked repo), List.map_append] at ascending
  exact (List.pairwise_append.mp ascending).2.2 a leads b (remainder_perm.mem_iff.mp rest)

/-! ## The layout -/

/-- Laying a surface out puts its least entries in front and marks them, as many
as there are eligible ones. -/
theorem order_laidOut (distinct : s.names.Nodup)
    (plain : ∀ entry ∈ s.toList, entry.2.leading = false) :
    LaidOut repo (s.toList.countP Exposure.eligible) s (s.order repo true) := by
  have indexed : (s.layOut repo).Indexed := indexed_layOut distinct
  rw [order, if_pos rfl, ← leadingCount]
  constructor
  case permuted => exact map_unmark_layOut_perm plain
  case long =>
    rw [take_layOut, List.length_map, List.length_map, length_leadingPart]
  case ascending =>
    rw [take_layOut]
    exact List.pairwise_map.mpr (leadingPart_ascending distinct)
  case least =>
    rw [take_layOut, drop_layOut]
    intro a marked b rest
    obtain ⟨entry, leads, rfl⟩ := List.mem_map.mp marked
    rw [Exposure.Below, Exposure.layoutKey_markLeading]
    exact leadingPart_below_remainder distinct leads rest
  case marked =>
    rw [take_layOut]
    intro entry marked
    obtain ⟨_, _, rfl⟩ := List.mem_map.mp marked
    rfl
  case unmarked =>
    rw [drop_layOut]
    exact fun entry rest => plain entry (remainder_sublist.mem rest)
  case kept =>
    rw [drop_layOut]
    exact remainder_sublist
  case get? => exact indexed.get?_eq_find?
  case contains => exact indexed.contains_eq_any

/-- A thing, and one behind a gate. -/
def things : Repository := .ofList [
  ⟨⟨"Demo", "IThing"⟩, .interfaceType, [], none, [], [], [], []⟩,
  ⟨⟨"Demo", "IGated"⟩, .interfaceType, [], none, [], [], [],
    [.metadata KnownAttribute.feature.simpleName
      [.enumerator ⟨⟨Attribute.metadataSpace, "FeatureStage"⟩, 0⟩]]⟩]

/-- The layout key of a thing, without a look at the attributes. -/
def thingKey (entry : Exposure) : LayoutKey :=
  { entry.layoutKey .empty with gated := decide (entry.2.type = ⟨1⟩) }

/-- How things are put in order, in a form that evaluates: no gate has to be looked up. -/
theorem order_things (s : Surface) : s.order things true =
    let ranking := s.toList.zipIdx.mergeSort fun a b => (compare (thingKey a.1) (thingKey b.1)).isLE
    let leading := ranking.take s.leadingCount
    let others := s.toList.zipIdx.filter fun entry => !(leading.map Prod.snd).contains entry.2
    .reorder (leading.map (Exposure.markLeading ·.1) ++ others.map Prod.fst) := by
  have gates (h : Handle) : things.isAlwaysEnabled h = !decide (h = ⟨1⟩) := by
    match h with
    | ⟨0⟩ => rfl
    | ⟨1⟩ => rfl
    | ⟨_ + 2⟩ => rfl
  have keys : Exposure.layoutKey things = thingKey := by
    funext entry
    simp only [thingKey, Exposure.layoutKey, gates, Bool.not_not]
  rw [order, if_pos rfl, layOut, remainder, leadingPart, ranked]
  simp only [Exposure.precedes, keys]

/-- Three eligible entries, one of them behind the gate, two own defaults that are not eligible,
and a default from a base class. -/
def shelf : Surface :=
  let thing (version : Version) : Facet :=
    ⟨⟨0⟩, false, false, false, false, true, false, version, .empty⟩
  let ownDefault (version : Version) : Facet :=
    { thing version with isDefault := true, defaulted := true }
  .reorder [
    ("Demo.IGated", { thing ⟨0, 1⟩ with type := ⟨1⟩ }),
    ("Demo.ISlow", thing ⟨2, 0⟩),
    ("Demo.IOpen", { ownDefault ⟨0, 1⟩ with overridable := true }),
    ("Demo.IShared", { ownDefault ⟨1, 0⟩ with exclusive := false }),
    ("Demo.IFast", thing ⟨1, 0⟩),
    ("Demo.IBase", { ownDefault ⟨0, 1⟩ with defaulted := false, base := true })]

/-- The own defaults take places that they do not add, the overridable one behind the shared one.
So the slow thing and the gated one lose theirs, and what comes from the base class gets none. -/
theorem order_laidOut_of_shelf :
    shelf.names.Nodup ∧ (∀ entry ∈ shelf.toList, entry.2.leading = false) ∧
      things.isAlwaysEnabled ⟨1⟩ = false ∧
      shelf.toList.countP Exposure.eligible = 3 ∧
      (shelf.order things true).toList.map (fun entry => (entry.1, entry.2.leading)) =
        [("Demo.IShared", true), ("Demo.IOpen", true), ("Demo.IFast", true),
          ("Demo.IGated", false), ("Demo.ISlow", false), ("Demo.IBase", false)] ∧
      LaidOut things (shelf.toList.countP Exposure.eligible) shelf (shelf.order things true) := by
  have distinct : shelf.names.Nodup := by decide
  have plain : ∀ entry ∈ shelf.toList, entry.2.leading = false := by decide
  refine ⟨distinct, plain, rfl, by decide, ?_, order_laidOut distinct plain⟩
  rw [order_things]
  cbv

end Surface
end InterfaceSurface
