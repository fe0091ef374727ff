import InterfaceSurface.Proofs.Closure.Findings
import InterfaceSurface.Proofs.Closure.Merge

/-! # Settled paths

A path is settled when finding its end once more would change nothing.  A surface
is saturated when everything behind a settled path is settled too; passing such a
path over then loses nothing (`Saturated.behind`).  Entering the end of a path
whose continuations are settled keeps a surface saturated (`Saturated.merge`).

Nothing found through a base class counts as found through a default edge, so
once base classes are walked only the paths through them have to stay saturated:
`Saturated s d true` speaks of those alone, `Saturated s d false` of all paths. -/
set_option autoImplicit false
namespace InterfaceSurface
namespace Surface

variable {repo : Repository} {renderer : Renderer} {d : TypeDef} {s : Surface}

def Settled (s : Surface) (repo : Repository) (renderer : Renderer) (base : Bool)
    (path : List Edge) : Prop :=
  ∃ key, keyOf? repo renderer path = some key ∧
    s.settles key (!base && path.any Edge.isDefault) = true

def Saturated (s : Surface) (repo : Repository) (renderer : Renderer) (d : TypeDef) (base : Bool) :
    Prop :=
  ∀ (kind : Bool) (path : List Edge) (e : Edge), (base = true → kind = true) → path ≠ [] →
    d.Reaches repo kind (path ++ [e]) → s.Settled repo renderer kind path →
    s.Settled repo renderer kind (path ++ [e])

theorem Settled.settles {base : Bool} {path : List Edge} {found : Exposure}
    (settled : s.Settled repo renderer base path)
    (finds : Exposure.atEnd? repo renderer base path = some found) :
    s.settles found.1 found.2.defaulted = true := by
  obtain ⟨named, said⟩ := Exposure.atEnd?_eq_some finds
  obtain ⟨key, printed, enough⟩ := settled
  cases Option.some.inj (printed.symm.trans named)
  rwa [Facet.defaulted_of_atEnd? said]

theorem Indexed.settled_merge (indexed : s.Indexed) (found : Exposure) {base : Bool}
    {path : List Edge} (settled : s.Settled repo renderer base path) :
    (s.merge found).Settled repo renderer base path := by
  obtain ⟨key, printed, enough⟩ := settled
  exact ⟨key, printed, indexed.settles_merge found enough⟩

theorem Indexed.settled_mergeAll (indexed : s.Indexed) (findings : List Exposure) {base : Bool}
    {path : List Edge} (settled : s.Settled repo renderer base path) :
    (s.mergeAll findings).Settled repo renderer base path := by
  obtain ⟨key, printed, enough⟩ := settled
  exact ⟨key, printed, indexed.settles_mergeAll findings enough⟩

theorem saturated_empty (base : Bool) : empty.Saturated repo renderer d base := by
  rintro kind path e _ _ _ ⟨key, _, settled⟩
  simp [settles, get?, empty] at settled

theorem Saturated.base (saturated : s.Saturated repo renderer d false) :
    s.Saturated repo renderer d true :=
  fun kind path e _ => saturated kind path e nofun

theorem Saturated.behind {base : Bool} (saturated : s.Saturated repo renderer d base)
    {path back : List Edge} (hpath : path ≠ []) (reaches : d.Reaches repo base (path ++ back))
    (settled : s.Settled repo renderer base path) :
    s.Settled repo renderer base (path ++ back) := by
  induction back generalizing path with
  | nil => simpa using settled
  | cons e back ih =>
      have regrouped : path ++ e :: back = (path ++ [e]) ++ back := by simp
      rw [regrouped] at reaches ⊢
      have next : d.Reaches repo base (path ++ [e]) := reaches.prefix_of_append (by simp)
      exact ih (by simp) reaches (saturated base path e id hpath next settled)

/-- Entering the end of a path keeps a surface saturated if all that lies right
behind the path is settled already. -/
theorem Saturated.merge {base : Bool} (saturated : s.Saturated repo renderer d base)
    (indexed : s.Indexed) (consistent : renderer.Consistent repo d) {path : List Edge}
    {found : Exposure} (reaches : d.Reaches repo base path)
    (finds : Exposure.atEnd? repo renderer base path = some found)
    (required : ∀ e, d.Reaches repo base (path ++ [e]) →
      s.Settled repo renderer base (path ++ [e])) :
    (s.merge found).Saturated repo renderer d base := by
  obtain ⟨named, said⟩ := Exposure.atEnd?_eq_some finds
  intro kind rival e later hrival onward settled
  obtain ⟨key, printed, enough⟩ := settled
  by_cases same : found.1 = key
  · -- The rival path ends at the entered name, so it goes on as `path` does.
    subst same
    cases fresh : s.settles found.1 found.2.defaulted with
    | true =>
        rw [merge_of_settled fresh] at enough ⊢
        exact saturated kind rival e later hrival onward ⟨found.1, printed, enough⟩
    | false =>
        obtain ⟨goesOn, alike⟩ :=
          consistent.goes_on_alike hrival reaches onward named printed
        obtain ⟨childKey, childPrinted, childSettled⟩ := required e goesOn
        refine indexed.settled_merge found
          ⟨childKey, alike.trans childPrinted, settles_of_le ?_ childSettled⟩
        intro marked
        rw [merge_of_unsettled fresh, settles_iff, indexed.get?_insertOrAssign, if_pos rfl]
          at enough
        obtain ⟨facet, entered, strong⟩ := enough
        cases Option.some.inj entered
        rw [Facet.defaulted_of_atEnd? said] at strong
        simp only [Bool.and_eq_true, Bool.not_eq_true', List.any_append, Bool.or_eq_true]
          at marked strong ⊢
        obtain ⟨ownKind, marked⟩ := marked
        have own : base = false := by
          cases base with
          | false => rfl
          | true => exact absurd (later rfl) (by simp [ownKind])
        rcases marked with before | last
        · exact ⟨own, .inl (strong ⟨ownKind, before⟩).2⟩
        · exact ⟨own, .inr last⟩
  · have earlier : s.settles key (!kind && rival.any Edge.isDefault) = true := by
      rw [settles_iff, indexed.get?_merge_of_ne same] at enough
      exact (settles_iff _ _).mpr enough
    exact indexed.settled_merge found
      (saturated kind rival e later hrival onward ⟨key, printed, earlier⟩)

end Surface
end InterfaceSurface
