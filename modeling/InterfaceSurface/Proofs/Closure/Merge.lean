import InterfaceSurface.Proofs.Surface.Lookup
import InterfaceSurface.Surface.Closure
import Mathlib.Data.List.Induction

/-! # The merge rule

`merge` enters a finding unless the surface settles it: a name that is present
is overwritten only by the first finding through a default edge.  What is settled
stays settled (`Indexed.settles_merge`), and after merging a list of findings into
the empty surface a name holds its first finding through a default edge, or else
its first finding of all (`get?_mergeAll`). -/
set_option autoImplicit false
namespace InterfaceSurface
namespace Surface

/-- Enters a finding unless finding it says nothing new. -/
def merge (s : Surface) (found : Exposure) : Surface :=
  if s.settles found.1 found.2.defaulted then s else s.insertOrAssign found.1 found.2

def mergeAll (s : Surface) (findings : List Exposure) : Surface := findings.foldl merge s

/-- The finding that counts for a name: the first through a default edge, or
else the first. -/
def pick (name : String) (findings : List Exposure) : Option Exposure :=
  (findings.find? fun found => found.1 == name && found.2.defaulted).or
    (findings.find? fun found => found.1 == name)

section
variable {s : Surface}

theorem settles_iff (name : String) (defaulted : Bool) :
    s.settles name defaulted = true ↔
      ∃ facet, s.get? name = some facet ∧ (defaulted = true → facet.defaulted = true) := by
  unfold settles
  cases s.get? name with
  | none => simp
  | some facet => cases defaulted <;> simp

theorem settles_of_le {name : String} {stronger weaker : Bool}
    (le : weaker = true → stronger = true) (settled : s.settles name stronger = true) :
    s.settles name weaker = true := by
  obtain ⟨facet, known, enough⟩ := (settles_iff name stronger).mp settled
  exact (settles_iff name weaker).mpr ⟨facet, known, fun asked => enough (le asked)⟩

theorem merge_of_settled {found : Exposure}
    (settled : s.settles found.1 found.2.defaulted = true) : s.merge found = s := by
  simp [merge, settled]

theorem merge_of_unsettled {found : Exposure}
    (unsettled : s.settles found.1 found.2.defaulted = false) :
    s.merge found = s.insertOrAssign found.1 found.2 := by
  simp [merge, unsettled]

theorem Indexed.merge (indexed : s.Indexed) (found : Exposure) : (s.merge found).Indexed := by
  unfold Surface.merge
  split
  · exact indexed
  · exact indexed.insertOrAssign found.1 found.2

theorem Indexed.mergeAll {s : Surface} (indexed : s.Indexed) (findings : List Exposure) :
    (s.mergeAll findings).Indexed := by
  induction findings generalizing s with
  | nil => exact indexed
  | cons found rest ih => exact ih (indexed.merge found)

theorem Indexed.settles_insertOrAssign (indexed : s.Indexed) (found : Exposure) :
    (s.insertOrAssign found.1 found.2).settles found.1 found.2.defaulted = true := by
  refine (settles_iff _ _).mpr ⟨found.2, ?_, id⟩
  rw [indexed.get?_insertOrAssign, if_pos rfl]

/-- A merge does not unsettle anything: it overwrites an entry only where the
present one was not found through a default edge and the new one was. -/
theorem Indexed.settles_merge (indexed : s.Indexed) (found : Exposure) {name : String}
    {defaulted : Bool} (settled : s.settles name defaulted = true) :
    (s.merge found).settles name defaulted = true := by
  cases fresh : s.settles found.1 found.2.defaulted with
  | true => rwa [merge_of_settled fresh]
  | false =>
      rw [merge_of_unsettled fresh]
      obtain ⟨facet, known, enough⟩ := (settles_iff name defaulted).mp settled
      rw [settles_iff, indexed.get?_insertOrAssign]
      by_cases same : found.1 = name
      · subst same
        rw [if_pos rfl]
        refine ⟨found.2, rfl, fun _ => ?_⟩
        cases new : found.2.defaulted with
        | true => rfl
        | false =>
            rw [new, ← Bool.not_eq_true, settles_iff] at fresh
            exact absurd ⟨facet, known, nofun⟩ fresh
      · rw [if_neg same]
        exact ⟨facet, known, enough⟩

theorem Indexed.settles_mergeAll {s : Surface} (indexed : s.Indexed) (findings : List Exposure)
    {name : String} {defaulted : Bool} (settled : s.settles name defaulted = true) :
    (s.mergeAll findings).settles name defaulted = true := by
  induction findings generalizing s with
  | nil => exact settled
  | cons found rest ih => exact ih (indexed.merge found) (indexed.settles_merge found settled)

theorem mergeAll_of_settled {findings : List Exposure}
    (settled : ∀ found ∈ findings, s.settles found.1 found.2.defaulted = true) :
    s.mergeAll findings = s := by
  induction findings with
  | nil => rfl
  | cons found rest ih =>
      have head : s.merge found = s := merge_of_settled (settled found (List.mem_cons_self ..))
      have tail := ih fun other member => settled other (List.mem_cons_of_mem _ member)
      simpa [mergeAll, head] using tail

theorem mergeAll_append (first later : List Exposure) :
    s.mergeAll (first ++ later) = (s.mergeAll first).mergeAll later :=
  List.foldl_append

theorem Indexed.get?_merge_of_ne (indexed : s.Indexed) {found : Exposure} {name : String}
    (apart : found.1 ≠ name) : (s.merge found).get? name = s.get? name := by
  cases fresh : s.settles found.1 found.2.defaulted with
  | true => rw [merge_of_settled fresh]
  | false => rw [merge_of_unsettled fresh, indexed.get?_insertOrAssign, if_neg apart]

theorem Indexed.get?_mergeAll_of_unnamed {s : Surface} (indexed : s.Indexed)
    {findings : List Exposure} {name : String} (apart : ∀ found ∈ findings, found.1 ≠ name) :
    (s.mergeAll findings).get? name = s.get? name := by
  induction findings generalizing s with
  | nil => rfl
  | cons found rest ih =>
      have tail := ih (indexed.merge found) fun other member =>
        apart other (List.mem_cons_of_mem _ member)
      exact tail.trans (indexed.get?_merge_of_ne (apart found (List.mem_cons_self ..)))

end

/-! ## What a merged list says about a name -/

theorem pick_append_of_ne {findings : List Exposure} {found : Exposure} {name : String}
    (apart : found.1 ≠ name) : pick name (findings ++ [found]) = pick name findings := by
  simp [pick, List.find?_append, apart]

theorem pick_append_self (findings : List Exposure) (found : Exposure) :
    pick found.1 (findings ++ [found]) =
      match pick found.1 findings with
      | some old => if old.2.defaulted || !found.2.defaulted then some old else some found
      | none => some found := by
  unfold pick
  rw [List.find?_append, List.find?_append]
  cases strong : findings.find? fun other => other.1 == found.1 && other.2.defaulted with
  | some old =>
      have marked := List.find?_some strong
      simp only [Bool.and_eq_true] at marked
      simp [marked.2]
  | none =>
      cases weak : findings.find? fun other => other.1 == found.1 with
      | none => cases new : found.2.defaulted <;> simp [new]
      | some old =>
          have unmarked : old.2.defaulted = false := by
            have none := List.find?_eq_none.mp strong old (List.mem_of_find?_eq_some weak)
            have named := List.find?_some weak
            simpa [named] using none
          cases new : found.2.defaulted <;> simp [new, unmarked]

/-- The entry of a name is its first finding through a default edge, or else its
first finding. -/
theorem get?_mergeAll (findings : List Exposure) (name : String) :
    (empty.mergeAll findings).get? name = (pick name findings).map Prod.snd := by
  induction findings using List.reverseRecOn with
  | nil => simp [mergeAll, pick, empty, get?]
  | append_singleton findings found ih =>
      have indexed := indexed_empty.mergeAll findings
      have step : empty.mergeAll (findings ++ [found]) = (empty.mergeAll findings).merge found := by
        rw [mergeAll_append]
        rfl
      rw [step]
      by_cases same : found.1 = name
      · subst same
        rw [pick_append_self]
        cases known : pick found.1 findings with
        | none => simp [merge, settles, ih, known, indexed.get?_insertOrAssign]
        | some old =>
            rw [known] at ih
            cases settled : old.2.defaulted || !found.2.defaulted with
            | true => simp [merge, settles, ih, settled]
            | false => simp [merge, settles, ih, settled, indexed.get?_insertOrAssign]
      · rw [indexed.get?_merge_of_ne same, pick_append_of_ne same, ih]

theorem pick_isSome_iff (name : String) (findings : List Exposure) :
    (pick name findings).isSome = true ↔ name ∈ findings.map Prod.fst := by
  simp only [pick, Option.isSome_or, Bool.or_eq_true, List.find?_isSome, List.mem_map,
    Bool.and_eq_true, beq_iff_eq]
  constructor
  · rintro (⟨found, member, named, _⟩ | ⟨found, member, named⟩)
    · exact ⟨found, member, named⟩
    · exact ⟨found, member, named⟩
  · exact Or.inr

theorem mem_names_mergeAll (findings : List Exposure) (name : String) :
    name ∈ (empty.mergeAll findings).names ↔ name ∈ findings.map Prod.fst := by
  have absent := (indexed_empty.mergeAll findings).get?_eq_none_iff name
  rw [get?_mergeAll, Option.map_eq_none_iff, ← Option.not_isSome_iff_eq_none, pick_isSome_iff]
    at absent
  exact not_iff_not.mp absent.symm

end Surface
end InterfaceSurface
