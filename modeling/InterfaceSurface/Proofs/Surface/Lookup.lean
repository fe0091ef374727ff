import InterfaceSurface.Surface.Lemmas
import Mathlib.Data.List.Induction
import Mathlib.Data.List.Nodup

/-! # Look-ups in a surface

On a surface whose index is right, looking a name up is reading the list of
entries: `get?` finds the one entry of that name, `contains` says whether there
is one, and no name has two.  An insertion changes the answer for its own name
only, and a surface made anew from distinct names answers by where they stand
(`indexed_reorder`). -/
set_option autoImplicit false
namespace InterfaceSurface
namespace Surface

variable {s : Surface}

theorem Indexed.get?_eq_some_iff (indexed : s.Indexed) (name : String) (facet : Facet) :
    s.get? name = some facet ↔ (name, facet) ∈ s.toList := by
  constructor
  · intro known
    obtain ⟨place, listed, stands⟩ := Option.bind_eq_some_iff.mp known
    obtain ⟨entry, atPlace, rfl⟩ := Option.map_eq_some_iff.mp stands
    obtain ⟨stored, there⟩ := (indexed name place).mp listed
    rw [atPlace] at there
    cases Option.some.inj there
    exact Array.mem_toList_iff.mpr (Array.mem_of_getElem? atPlace)
  · intro member
    obtain ⟨place, stands⟩ := List.mem_iff_getElem?.mp member
    have atPlace : s.entries[place]? = some (name, facet) := by simpa [toList] using stands
    have listed : s.index[name]? = some place := (indexed name place).mpr ⟨facet, atPlace⟩
    simp [get?, listed, atPlace]

theorem Indexed.get?_eq_none_iff (indexed : s.Indexed) (name : String) :
    s.get? name = none ↔ name ∉ s.names := by
  rw [Option.eq_none_iff_forall_ne_some]
  simp [names, indexed.get?_eq_some_iff]

theorem Indexed.mem_names_iff (indexed : s.Indexed) (name : String) :
    name ∈ s.names ↔ ∃ facet, s.get? name = some facet := by
  simp [names, indexed.get?_eq_some_iff]

theorem Indexed.contains_iff (indexed : s.Indexed) (name : String) :
    s.contains name = true ↔ name ∈ s.names := by
  have listed := indexed.index_eq_none_iff name
  rw [contains, Std.TreeMap.contains_eq_isSome_getElem?]
  cases known : s.index[name]? with
  | none => simpa using listed.mp known
  | some place =>
      have named : name ∈ s.names := by
        apply Decidable.byContradiction
        intro unlisted
        simp [listed.mpr unlisted] at known
      simpa using named

theorem Indexed.get?_eq_find? (indexed : s.Indexed) (name : String) :
    s.get? name = (s.toList.find? (·.1 == name)).map Prod.snd := by
  cases found : s.toList.find? (·.1 == name) with
  | none =>
      apply (indexed.get?_eq_none_iff name).mpr
      intro listed
      obtain ⟨entry, member, same⟩ := List.mem_map.mp listed
      simpa [same] using List.find?_eq_none.mp found entry member
  | some entry =>
      have same : entry.1 = name := by simpa using List.find?_some found
      exact (indexed.get?_eq_some_iff name entry.2).mpr (same ▸ List.mem_of_find?_eq_some found)

theorem Indexed.contains_eq_any (indexed : s.Indexed) (name : String) :
    s.contains name = s.toList.any (·.1 == name) := by
  rw [Bool.eq_iff_iff, indexed.contains_iff]
  simp [names]

theorem Indexed.names_nodup (indexed : s.Indexed) : s.names.Nodup := by
  rw [List.nodup_iff_pairwise_ne, names, List.pairwise_map, List.pairwise_iff_getElem]
  intro i j hi hj less same
  have first : s.entries[i]? = some (s.toList[i].1, s.toList[i].2) := by
    rw [← Array.getElem?_toList]
    exact List.getElem?_eq_getElem hi
  have second : s.entries[j]? = some (s.toList[i].1, s.toList[j].2) := by
    rw [same, ← Array.getElem?_toList]
    exact List.getElem?_eq_getElem hj
  have atFirst := (indexed _ i).mpr ⟨_, first⟩
  have atSecond := (indexed _ j).mpr ⟨_, second⟩
  rw [atFirst] at atSecond
  have equal : i = j := Option.some.inj atSecond
  omega

theorem Indexed.get?_insertOrAssign (indexed : s.Indexed) (name other : String) (facet : Facet) :
    (s.insertOrAssign name facet).get? other =
      if name = other then some facet else s.get? other := by
  cases known : s.index[name]? with
  | some place =>
      obtain ⟨stored, stands⟩ := (indexed name place).mp known
      obtain ⟨inBounds, _⟩ := Array.getElem?_eq_some_iff.mp stands
      rw [insertOrAssign_of_present known]
      by_cases same : name = other
      · subst same
        simp [get?, known, Array.getElem?_setIfInBounds, inBounds]
      · rw [if_neg same]
        cases asked : s.index[other]? with
        | none => simp [get?, asked]
        | some there =>
            obtain ⟨old, standsThere⟩ := (indexed other there).mp asked
            have apart : place ≠ there := by
              rintro rfl
              rw [stands] at standsThere
              cases Option.some.inj standsThere
              exact same rfl
            simp [get?, asked, Array.getElem?_setIfInBounds, apart]
  | none =>
      rw [insertOrAssign_of_absent known]
      by_cases same : name = other
      · subst same
        simp [get?]
      · rw [if_neg same]
        simp only [get?, Std.TreeMap.getElem?_insert, Std.LawfulEqCmp.compare_eq_iff_eq, same,
          if_false]
        cases asked : s.index[other]? with
        | none => rfl
        | some there =>
            obtain ⟨old, standsThere⟩ := (indexed other there).mp asked
            obtain ⟨inBounds, _⟩ := Array.getElem?_eq_some_iff.mp standsThere
            simp [Array.getElem?_push, Nat.ne_of_lt inBounds]

/-! ## What an insertion does to the list of entries -/

theorem Indexed.toList_insertOrAssign_of_absent (indexed : s.Indexed) {name : String}
    (absent : name ∉ s.names) (facet : Facet) :
    (s.insertOrAssign name facet).toList = s.toList ++ [(name, facet)] := by
  simp [insertOrAssign_of_absent ((indexed.index_eq_none_iff name).mpr absent), toList]

theorem Indexed.names_insertOrAssign_of_absent (indexed : s.Indexed) {name : String}
    (absent : name ∉ s.names) (facet : Facet) :
    (s.insertOrAssign name facet).names = s.names ++ [name] := by
  rw [names, indexed.toList_insertOrAssign_of_absent absent, List.map_append]
  rfl

/-- An entry that is overwritten keeps its place, and so do all others. -/
theorem Indexed.toList_insertOrAssign_of_present (indexed : s.Indexed) {name : String}
    (present : name ∈ s.names) (facet : Facet) :
    (s.insertOrAssign name facet).toList =
      s.toList.map fun entry => if entry.1 = name then (name, facet) else entry := by
  cases known : s.index[name]? with
  | none => exact absurd present ((indexed.index_eq_none_iff name).mp known)
  | some place =>
      obtain ⟨stored, stands⟩ := (indexed name place).mp known
      obtain ⟨inBounds, _⟩ := Array.getElem?_eq_some_iff.mp stands
      rw [insertOrAssign_of_present known]
      apply List.ext_getElem?
      intro other
      simp only [toList, Array.toList_setIfInBounds, List.getElem?_map, List.getElem?_set,
        Array.length_toList, Array.getElem?_toList]
      cases there : s.entries[other]? with
      | none =>
          have outside := Array.getElem?_eq_none_iff.mp there
          have apart : place ≠ other := by omega
          simp [apart]
      | some entry =>
          have namedPlace := indexed entry.1 other
          by_cases same : place = other
          · subst same
            rw [stands] at there
            cases Option.some.inj there
            simp [inBounds]
          · have apart : entry.1 ≠ name := by
              rintro rfl
              have also := namedPlace.mpr ⟨entry.2, there⟩
              exact same (Option.some.inj (known.symm.trans also))
            simp [same, apart]

theorem Indexed.names_insertOrAssign_of_present (indexed : s.Indexed) {name : String}
    (present : name ∈ s.names) (facet : Facet) :
    (s.insertOrAssign name facet).names = s.names := by
  rw [names, indexed.toList_insertOrAssign_of_present present, List.map_map, names]
  apply List.map_congr_left
  intro entry _
  by_cases same : entry.1 = name
  · simp [same]
  · simp [same]

theorem Indexed.mem_names_insertOrAssign (indexed : s.Indexed) {name other : String}
    {facet : Facet} :
    other ∈ (s.insertOrAssign name facet).names ↔ other = name ∨ other ∈ s.names := by
  by_cases present : name ∈ s.names
  · rw [indexed.names_insertOrAssign_of_present present]
    constructor
    · exact Or.inr
    · rintro (rfl | listed)
      · exact present
      · exact listed
  · rw [indexed.names_insertOrAssign_of_absent present, List.mem_append, List.mem_singleton,
      or_comm]

/-! ## Surfaces made anew -/

@[simp] theorem toList_reorder (entries : List Exposure) : (reorder entries).toList = entries := rfl

theorem placesOf_append_singleton (names : List String) (name : String) :
    placesOf (names ++ [name]) = (placesOf names).insert name names.length := by
  simp [placesOf, List.zipIdx_append]

theorem placesOf_eq_some_iff {names : List String} (distinct : names.Nodup) {name : String}
    {place : Nat} : (placesOf names)[name]? = some place ↔ names[place]? = some name := by
  induction names using List.reverseRecOn with
  | nil => simp [placesOf]
  | append_singleton names last ih =>
      rw [← List.concat_eq_append, List.nodup_concat] at distinct
      obtain ⟨fresh, distinct⟩ := distinct
      have standing : (names ++ [last])[place]? = some name ↔
          names[place]? = some name ∨ place = names.length ∧ last = name := by
        by_cases inside : place < names.length
        · simp [List.getElem?_append_left inside, Nat.ne_of_lt inside]
        · have beyond : names.length ≤ place := Nat.le_of_not_lt inside
          have atEnd : place - names.length = 0 ↔ place = names.length := by omega
          simp [List.getElem?_append_right beyond, List.getElem?_singleton,
            List.getElem?_eq_none beyond, atEnd]
      rw [standing, placesOf_append_singleton]
      simp only [Std.TreeMap.getElem?_insert, Std.LawfulEqCmp.compare_eq_iff_eq]
      by_cases same : last = name
      · subst same
        have free : names[place]? ≠ some last := fun stands => fresh (List.mem_of_getElem? stands)
        simp [free, eq_comm]
      · simp [same, ih distinct]

/-- Places that are counted off from distinct names are the right index. -/
theorem indexed_reorder {entries : List Exposure} (distinct : (entries.map Prod.fst).Nodup) :
    (reorder entries).Indexed := by
  intro name place
  have named : (entries.map Prod.fst)[place]? = some name ↔
      ∃ facet, entries.toArray[place]? = some (name, facet) := by
    simp
  exact (placesOf_eq_some_iff distinct).trans named

end Surface
end InterfaceSurface
