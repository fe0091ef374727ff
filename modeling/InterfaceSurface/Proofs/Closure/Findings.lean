import InterfaceSurface.Proofs.Closure.Routes

/-! # What is found at the end of a path

`Facet.atEnd?` says from a path alone what is to be said of the interface at its
end: the last edge tells whether it is a default, all edges together whether it
was reached through a default or an overridable one, and the instantiations among
them make up the scope.  A walk carries the same along in its approach
(`Exposure.atEnd?_concat`).

Under a consistent renderer and in a repository where nothing requires itself, no
name comes back on the way down a path (`Renderer.Consistent.keyOf?_ne`). -/
set_option autoImplicit false
namespace InterfaceSurface

/-- What a path says about the interface at its end, if there is one. -/
def Facet.atEnd? (repo : Repository) (renderer : Renderer) (base : Bool) (path : List Edge) :
    Option Facet := do
  let last ← path.getLast?
  let target ← (repo.resolve last.target).toOption
  let d ← repo.get? target
  return {
    type := target
    isDefault := last.isDefault
    defaulted := !base && path.any Edge.isDefault
    overridable := path.any Edge.isOverridable
    base := base
    exclusive := d.hasExclusiveMark
    leading := false
    version := d.version
    scope := scopeBehind repo renderer path }

def Exposure.atEnd? (repo : Repository) (renderer : Renderer) (base : Bool) (path : List Edge) :
    Option Exposure := do
  return (← keyOf? repo renderer path, ← Facet.atEnd? repo renderer base path)

def Approach.along (repo : Repository) (renderer : Renderer) (base : Bool) (path : List Edge) :
    Approach :=
  path.foldl (fun approach e => approach.follow repo renderer e) (.start base)

section
variable {repo : Repository} {renderer : Renderer} {base : Bool}

theorem scopeBehind_concat (path : List Edge) (e : Edge) :
    scopeBehind repo renderer (path ++ [e]) =
      (scopeBehind repo renderer path).enter repo renderer e.target := by
  simp [scopeBehind]

theorem keyOf?_concat (path : List Edge) (e : Edge) :
    keyOf? repo renderer (path ++ [e]) =
      some (renderer.type repo e.target (scopeBehind repo renderer path)) := by
  simp [keyOf?]

theorem Approach.along_concat (path : List Edge) (e : Edge) :
    Approach.along repo renderer base (path ++ [e]) =
      (Approach.along repo renderer base path).follow repo renderer e := by
  simp [Approach.along]

/-- An approach carries along just what the path behind it says. -/
theorem Approach.along_eq (path : List Edge) :
    Approach.along repo renderer base path =
      ⟨!base && path.any Edge.isDefault, path.any Edge.isOverridable, base,
        scopeBehind repo renderer path⟩ := by
  induction path using List.reverseRecOn with
  | nil => simp [Approach.along, Approach.start, scopeBehind, Scope.empty]
  | append_singleton path e ih =>
      rw [Approach.along_concat, ih, scopeBehind_concat]
      cases base <;> simp [Approach.follow]

theorem Approach.scope_along (path : List Edge) :
    (Approach.along repo renderer base path).scope = scopeBehind repo renderer path := by
  rw [Approach.along_eq]

theorem Exposure.atEnd?_concat {path : List Edge} {e : Edge} {target : Handle} {d : TypeDef}
    (resolved : repo.resolve e.target = .ok target) (known : repo.get? target = some d) :
    Exposure.atEnd? repo renderer base (path ++ [e]) =
      some (renderer.type repo e.target (scopeBehind repo renderer path),
        .ofEdge e (.along repo renderer base (path ++ [e])) target d) := by
  simp [Exposure.atEnd?, Facet.atEnd?, Facet.ofEdge, keyOf?_concat, Approach.along_eq, resolved,
    known, Except.toOption]

theorem Exposure.atEnd?_eq_some {path : List Edge} {found : Exposure}
    (finds : Exposure.atEnd? repo renderer base path = some found) :
    keyOf? repo renderer path = some found.1 ∧
      Facet.atEnd? repo renderer base path = some found.2 := by
  obtain ⟨key, named, finds⟩ := Option.bind_eq_some_iff.mp finds
  obtain ⟨facet, said, result⟩ := Option.bind_eq_some_iff.mp finds
  cases result
  exact ⟨named, said⟩

/-- What is found at the end of a path, with all that is said of it. -/
theorem Facet.exists_of_atEnd? {path : List Edge} {facet : Facet}
    (said : Facet.atEnd? repo renderer base path = some facet) :
    ∃ last target d, path.getLast? = some last ∧ repo.resolve last.target = .ok target ∧
      repo.get? target = some d ∧
      facet = ⟨target, last.isDefault, !base && path.any Edge.isDefault,
        path.any Edge.isOverridable, base, d.hasExclusiveMark, false, d.version,
        scopeBehind repo renderer path⟩ := by
  obtain ⟨last, isLast, said⟩ := Option.bind_eq_some_iff.mp said
  obtain ⟨target, resolved, said⟩ := Option.bind_eq_some_iff.mp said
  obtain ⟨d, known, result⟩ := Option.bind_eq_some_iff.mp said
  refine ⟨last, target, d, isLast, ?_, known, (Option.some.inj result).symm⟩
  cases ends : repo.resolve last.target <;> simp_all [Except.toOption]

theorem Facet.base_of_atEnd? {path : List Edge} {facet : Facet}
    (said : Facet.atEnd? repo renderer base path = some facet) : facet.base = base := by
  obtain ⟨_, _, _, _, _, _, rfl⟩ := Facet.exists_of_atEnd? said
  rfl

theorem Facet.defaulted_of_atEnd? {path : List Edge} {facet : Facet}
    (said : Facet.atEnd? repo renderer base path = some facet) :
    facet.defaulted = (!base && path.any Edge.isDefault) := by
  obtain ⟨last, _, said⟩ := Option.bind_eq_some_iff.mp said
  obtain ⟨target, _, said⟩ := Option.bind_eq_some_iff.mp said
  obtain ⟨d, _, result⟩ := Option.bind_eq_some_iff.mp said
  cases result
  rfl

theorem Facet.atEnd?_isSome_iff {path : List Edge} :
    (Facet.atEnd? repo renderer base path).isSome = true ↔
      ∃ last ∈ path.getLast?, (last.targetDef? repo).isSome = true := by
  unfold Facet.atEnd? Edge.targetDef?
  cases isLast : path.getLast? with
  | none => simp
  | some last =>
      cases resolved : repo.resolve last.target with
      | error fault => simp [resolved, Except.toOption]
      | ok h => cases known : repo.get? h <;> simp [resolved, known, Except.toOption]

end

theorem Edge.targetDef?_congr {a b : Edge} {repo : Repository}
    (same : (repo.resolve a.target).toOption = (repo.resolve b.target).toOption) :
    a.targetDef? repo = b.targetDef? repo := by
  unfold Edge.targetDef?
  cases left : repo.resolve a.target <;> cases right : repo.resolve b.target <;>
    simp_all [Except.toOption]

theorem Renderer.consistent_of_routes {renderer : Renderer} {repo : Repository} {d : TypeDef}
    (acyclic : repo.Acyclic)
    (checked : ∀ p ∈ d.routes repo, ∀ q ∈ d.routes repo,
      keyOf? repo renderer p.2 = keyOf? repo renderer q.2 →
      ∀ a ∈ p.2.getLast?, ∀ b ∈ q.2.getLast?,
        (repo.resolve a.target).toOption = (repo.resolve b.target).toOption ∧
        ∀ target ∈ a.targetDef? repo, ∀ e ∈ target.edges,
          keyOf? repo renderer (p.2 ++ [e]) = keyOf? repo renderer (q.2 ++ [e])) :
    renderer.Consistent repo d := by
  rintro p q path rival key ⟨leads, named⟩ ⟨leadsToo, same⟩
  exact checked (p, path) ((mem_routes_iff acyclic d p path).mpr leads) (q, rival)
    ((mem_routes_iff acyclic d q rival).mpr leadsToo) (named.trans same.symm)

/-! ## Names that come back -/

namespace Renderer.Consistent

variable {renderer : Renderer} {repo : Repository} {d : TypeDef} {base other : Bool}
  {path rival : List Edge} {key : String}

theorem of_reaches (consistent : renderer.Consistent repo d) (reaches : d.Reaches repo base path)
    (rivals : d.Reaches repo other rival) (named : keyOf? repo renderer path = some key)
    (same : keyOf? repo renderer rival = some key) :
    ∀ a ∈ path.getLast?, ∀ b ∈ rival.getLast?,
      (repo.resolve a.target).toOption = (repo.resolve b.target).toOption ∧
      ∀ target ∈ a.targetDef? repo, ∀ e ∈ target.edges,
        keyOf? repo renderer (path ++ [e]) = keyOf? repo renderer (rival ++ [e]) := by
  obtain ⟨p, _, leads⟩ := TypeDef.Reaches.iff_route.mp reaches
  obtain ⟨q, _, leadsToo⟩ := TypeDef.Reaches.iff_route.mp rivals
  exact consistent p q path rival key ⟨leads, named⟩ ⟨leadsToo, same⟩

theorem goes_on_alike (consistent : renderer.Consistent repo d) {e : Edge} (hrival : rival ≠ [])
    (reaches : d.Reaches repo base path) (onward : d.Reaches repo other (rival ++ [e]))
    (named : keyOf? repo renderer path = some key) (same : keyOf? repo renderer rival = some key) :
    d.Reaches repo base (path ++ [e]) ∧
      keyOf? repo renderer (rival ++ [e]) = keyOf? repo renderer (path ++ [e]) := by
  obtain ⟨last, isLast, target, known, behind⟩ := onward.rest_of_append hrival (by simp)
  obtain ⟨finish, isFinish⟩ := reaches.exists_last
  obtain ⟨alike, keys⟩ := consistent.of_reaches (onward.prefix_of_append hrival) reaches same named
    last isLast finish (by simp [isFinish])
  have listed : e ∈ target.edges := by
    cases behind with
    | stop listed => exact listed
    | follow _ _ nothing => exact absurd rfl nothing.ne_nil
  have sameTarget : finish.targetDef? repo = some target :=
    (Edge.targetDef?_congr alike).symm.trans known
  exact ⟨reaches.extend isFinish sameTarget (.stop listed), keys target known e listed⟩

/-- Nothing behind a path has the name the path ends at. -/
theorem keyOf?_ne (consistent : renderer.Consistent repo d) (acyclic : repo.Acyclic)
    {back : List Edge} (hpath : path ≠ []) (hback : back ≠ [])
    (reaches : d.Reaches repo base (path ++ back)) :
    keyOf? repo renderer (path ++ back) ≠ keyOf? repo renderer path := by
  intro same
  obtain ⟨last, isLast, target, known, behind⟩ := reaches.rest_of_append hpath hback
  obtain ⟨start, resolved, starts⟩ := (last.targetDef?_eq_some_iff repo target).mp known
  obtain ⟨finish, isFinish⟩ : ∃ finish, back.getLast? = some finish :=
    ⟨back.getLast hback, List.getLast?_eq_some_getLast hback⟩
  have named : keyOf? repo renderer path =
      some (renderer.type repo last.target (scopeBehind repo renderer path.dropLast)) := by
    rw [keyOf?, Option.mem_def.mp isLast, Option.map_some]
  have alike := consistent.of_reaches (reaches.prefix_of_append hpath) reaches named
    (same.trans named) last isLast finish (by simp [isFinish])
  have returns : repo.resolve finish.target = .ok start := by
    have both := alike.1
    rw [resolved] at both
    cases ends : repo.resolve finish.target <;> simp_all [Except.toOption]
  exact acyclic start (behind.requires starts rfl isFinish returns)

end Renderer.Consistent
end InterfaceSurface
