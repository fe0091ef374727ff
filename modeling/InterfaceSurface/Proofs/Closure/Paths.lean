import InterfaceSurface.Surface.Route
import InterfaceSurface.Proofs.Metadata.Issued

/-! # Paths

A path is what a route says without its positions: an edge of some list, then an
edge of the definition that edge leads to, and so on.  Where no definition
requires itself, a path never comes back to a definition (`PathFrom.requires`),
so it is at most one longer than the repository (`PathFrom.length_le`). -/
set_option autoImplicit false
namespace InterfaceSurface

open Relation (TransGen)

/-- The edges lead on from one of the declared ones. -/
inductive PathFrom (repo : Repository) : List Edge → List Edge → Prop
  | stop {declared : List Edge} {e : Edge} (listed : e ∈ declared) : PathFrom repo declared [e]
  | follow {declared path : List Edge} {e : Edge} {d : TypeDef} (listed : e ∈ declared)
      (target : e.targetDef? repo = some d) (rest : PathFrom repo d.edges path) :
      PathFrom repo declared (e :: path)

theorem Edge.targetDef?_eq_some_iff (e : Edge) (repo : Repository) (d : TypeDef) :
    e.targetDef? repo = some d ↔ ∃ h, repo.resolve e.target = .ok h ∧ repo.get? h = some d := by
  unfold Edge.targetDef?
  cases repo.resolve e.target with
  | error fault => simp
  | ok h => simp

/-- Positions beyond the first are read among the edges of the definition that the
first picked edge leads to. -/
theorem edgesAlong?_cons_cons_eq_some_iff {repo : Repository} {declared path : List Edge}
    {position next : Nat} {rest : List Nat} :
    edgesAlong? repo declared (position :: next :: rest) = some path ↔
      ∃ e d onward, declared[position]? = some e ∧ e.targetDef? repo = some d ∧
        edgesAlong? repo d.edges (next :: rest) = some onward ∧ path = e :: onward := by
  constructor
  · intro along
    obtain ⟨e, stands, along⟩ := Option.bind_eq_some_iff.mp along
    obtain ⟨d, target, along⟩ := Option.bind_eq_some_iff.mp along
    obtain ⟨onward, inner, result⟩ := Option.bind_eq_some_iff.mp along
    exact ⟨e, d, onward, stands, target, inner, (Option.some.inj result).symm⟩
  · rintro ⟨e, d, onward, stands, target, inner, rfl⟩
    simp [edgesAlong?, stands, target, inner]

theorem edgesAlong?_length {repo : Repository} {declared path : List Edge} {positions : List Nat}
    (along : edgesAlong? repo declared positions = some path) : positions.length = path.length := by
  induction positions generalizing declared path with
  | nil => simp [edgesAlong?] at along
  | cons position positions ih =>
      cases positions with
      | nil =>
          obtain ⟨e, _, rfl⟩ := Option.map_eq_some_iff.mp along
          rfl
      | cons next positions =>
          obtain ⟨e, d, onward, _, _, inner, rfl⟩ := edgesAlong?_cons_cons_eq_some_iff.mp along
          simpa using ih inner

namespace PathFrom

variable {repo : Repository} {declared : List Edge}

theorem ne_nil {path : List Edge} (follows : PathFrom repo declared path) : path ≠ [] := by
  cases follows <;> simp

theorem mono {other path : List Edge} (follows : PathFrom repo declared path)
    (subset : ∀ e ∈ declared, e ∈ other) : PathFrom repo other path := by
  cases follows with
  | stop listed => exact .stop (subset _ listed)
  | follow listed target rest => exact .follow (subset _ listed) target rest

theorem head_mem {path : List Edge} {e : Edge} (follows : PathFrom repo declared (e :: path)) :
    e ∈ declared := by
  cases follows with
  | stop listed => exact listed
  | follow listed _ _ => exact listed

theorem iff_positions {path : List Edge} :
    PathFrom repo declared path ↔ ∃ positions, edgesAlong? repo declared positions = some path := by
  constructor
  · intro follows
    induction follows with
    | stop listed =>
        obtain ⟨position, stands⟩ := List.mem_iff_getElem?.mp listed
        exact ⟨[position], by simp [edgesAlong?, stands]⟩
    | follow listed target rest ih =>
        obtain ⟨position, stands⟩ := List.mem_iff_getElem?.mp listed
        obtain ⟨positions, along⟩ := ih
        cases positions with
        | nil => simp [edgesAlong?] at along
        | cons next positions =>
            exact ⟨position :: next :: positions,
              edgesAlong?_cons_cons_eq_some_iff.mpr ⟨_, _, _, stands, target, along, rfl⟩⟩
  · rintro ⟨positions, along⟩
    induction positions generalizing declared path with
    | nil => simp [edgesAlong?] at along
    | cons position positions ih =>
        cases positions with
        | nil =>
            obtain ⟨e, stands, rfl⟩ := Option.map_eq_some_iff.mp along
            exact .stop (List.mem_of_getElem? stands)
        | cons next positions =>
            obtain ⟨e, d, onward, stands, target, inner, rfl⟩ :=
              edgesAlong?_cons_cons_eq_some_iff.mp along
            exact .follow (List.mem_of_getElem? stands) target (ih inner)

theorem append_iff {front back : List Edge} (hfront : front ≠ []) (hback : back ≠ []) :
    PathFrom repo declared (front ++ back) ↔
      PathFrom repo declared front ∧
        ∃ last ∈ front.getLast?, ∃ d, last.targetDef? repo = some d ∧
          PathFrom repo d.edges back := by
  induction front generalizing declared with
  | nil => exact absurd rfl hfront
  | cons e front ih =>
      cases front with
      | nil =>
          constructor
          · intro follows
            cases follows with
            | stop listed => exact absurd rfl hback
            | follow listed target rest => exact ⟨.stop listed, e, rfl, _, target, rest⟩
          · rintro ⟨first, last, isLast, d, target, rest⟩
            cases isLast
            cases first with
            | stop listed => exact .follow listed target rest
            | follow _ _ nothing => exact absurd rfl nothing.ne_nil
      | cons next front =>
          constructor
          · intro follows
            cases follows with
            | follow listed target rest =>
                obtain ⟨first, last, isLast, behind⟩ := (ih (by simp)).mp rest
                exact ⟨.follow listed target first, last, by simpa using isLast, behind⟩
          · rintro ⟨first, last, isLast, behind⟩
            cases first with
            | follow listed target rest =>
                exact .follow listed target
                  ((ih (by simp)).mpr ⟨rest, last, by simpa using isLast, behind⟩)

theorem prefix_of_append {front back : List Edge} (hfront : front ≠ [])
    (follows : PathFrom repo declared (front ++ back)) : PathFrom repo declared front := by
  cases back with
  | nil => simpa using follows
  | cons e back => exact ((append_iff hfront (by simp)).mp follows).1

/-! ## Paths in a repository where nothing requires itself -/

/-- The definition whose edges a path starts from requires the one it ends at. -/
theorem requires {path : List Edge} (follows : PathFrom repo declared path) {start finish : Handle}
    {d : TypeDef} {last : Edge} (starts : repo.get? start = some d) (edges : d.edges = declared)
    (isLast : path.getLast? = some last) (ends : repo.resolve last.target = .ok finish) :
    TransGen repo.Requires start finish := by
  induction follows generalizing start d with
  | @stop declared e listed =>
      cases isLast
      exact .single ⟨d, starts, e, edges ▸ listed, ends⟩
  | @follow declared path e next listed target rest ih =>
      obtain ⟨middle, resolved, known⟩ := (e.targetDef?_eq_some_iff repo next).mp target
      have step : repo.Requires start middle := ⟨d, starts, e, edges ▸ listed, resolved⟩
      have onward : path.getLast? = some last := by
        rwa [List.getLast?_cons_of_ne_nil rest.ne_nil] at isLast
      exact .head step (ih known rfl onward)

/-- The definitions a path goes through, each requiring all that follow. -/
theorem exists_handles {path : List Edge} (follows : PathFrom repo declared path) :
    ∃ handles : List Handle, handles.length + 1 = path.length ∧
      (∀ h ∈ handles, repo.Issued h) ∧ handles.Pairwise (TransGen repo.Requires) ∧
      (∀ start d, repo.get? start = some d → d.edges = declared →
        ∀ h ∈ handles, TransGen repo.Requires start h) ∧
      ∀ last finish, path.getLast? = some last → repo.resolve last.target = .ok finish →
        ∀ h ∈ handles, TransGen repo.Requires h finish := by
  induction follows with
  | stop listed => exact ⟨[], rfl, by simp, .nil, by simp, by simp⟩
  | @follow declared path e next listed target rest ih =>
      obtain ⟨handles, count, issued, chained, behind, before⟩ := ih
      obtain ⟨middle, resolved, known⟩ := (e.targetDef?_eq_some_iff repo next).mp target
      have inside : repo.Issued middle := (Array.getElem?_eq_some_iff.mp known).1
      refine ⟨middle :: handles, by simp [count], ?_, ?_, ?_, ?_⟩
      · simpa using ⟨inside, issued⟩
      · exact List.pairwise_cons.mpr ⟨behind middle next known rfl, chained⟩
      · intro start d starts edges h member
        have step : repo.Requires start middle := ⟨d, starts, e, edges ▸ listed, resolved⟩
        rcases List.mem_cons.mp member with rfl | member
        · exact .single step
        · exact .head step (behind middle next known rfl h member)
      · intro last finish isLast ends h member
        rw [List.getLast?_cons_of_ne_nil rest.ne_nil] at isLast
        rcases List.mem_cons.mp member with rfl | member
        · exact rest.requires known rfl isLast ends
        · exact before last finish isLast ends h member

theorem nodup_of_chained (acyclic : repo.Acyclic) {handles : List Handle}
    (chained : handles.Pairwise (TransGen repo.Requires)) : handles.Nodup := by
  apply chained.imp
  intro a b later same
  exact acyclic a (same ▸ later)

theorem length_le (acyclic : repo.Acyclic) {path : List Edge}
    (follows : PathFrom repo declared path) : path.length ≤ repo.size + 1 := by
  obtain ⟨handles, count, issued, chained, _⟩ := follows.exists_handles
  have bound := Repository.length_le_of_issued (nodup_of_chained acyclic chained) issued
  omega

/-- A path whose end is there does not go through more definitions than there are. -/
theorem length_le_of_target (acyclic : repo.Acyclic) {path : List Edge} {last : Edge}
    {d : TypeDef} (follows : PathFrom repo declared path) (isLast : path.getLast? = some last)
    (known : last.targetDef? repo = some d) : path.length ≤ repo.size := by
  obtain ⟨handles, count, issued, chained, _, before⟩ := follows.exists_handles
  obtain ⟨finish, ends, stands⟩ := (last.targetDef?_eq_some_iff repo d).mp known
  have whole : (handles ++ [finish]).Pairwise (TransGen repo.Requires) := by
    refine List.pairwise_append.mpr ⟨chained, List.pairwise_singleton .., ?_⟩
    intro h listed other isFinish
    cases List.mem_singleton.mp isFinish
    exact before last finish isLast ends h listed
  have issuedAll : ∀ h ∈ handles ++ [finish], repo.Issued h := by
    intro h listed
    rcases List.mem_append.mp listed with early | isFinish
    · exact issued h early
    · cases List.mem_singleton.mp isFinish
      exact Repository.issued_iff.mpr ⟨d, stands⟩
  have bound := Repository.length_le_of_issued (nodup_of_chained acyclic whole) issuedAll
  simp only [List.length_append, List.length_singleton] at bound
  omega

end PathFrom

/-- Requirements that only lead to earlier definitions never come back. -/
theorem Repository.acyclic_of_descending {repo : Repository}
    (descending : ∀ entry ∈ repo.toList.zipIdx, ∀ e ∈ entry.1.edges,
      ∀ target ∈ (repo.resolve e.target).toOption, target.index < entry.2) : repo.Acyclic := by
  have step : ∀ a b, repo.Requires a b → b.index < a.index := by
    rintro a b ⟨d, known, e, listed, resolved⟩
    have stands : repo.toList[a.index]? = some d := by
      simpa [Repository.get?, Repository.toList] using known
    exact descending (d, a.index) (List.mk_mem_zipIdx_iff_getElem?.mpr stands) e listed b
      (by simp [resolved, Except.toOption])
  have run : ∀ a b, TransGen repo.Requires a b → b.index < a.index := by
    intro a b chain
    induction chain with
    | single requires => exact step _ _ requires
    | tail _ requires ih => exact Nat.lt_trans (step _ _ requires) ih
  exact fun h returns => Nat.lt_irrefl _ (run h h returns)

/-! ## Paths of a type -/

/-- The path starts at an edge of the type itself or, with `base`, at one of its
base classes. -/
def TypeDef.Reaches (d : TypeDef) (repo : Repository) (base : Bool) (path : List Edge) : Prop :=
  ∃ origin declared, (d.origins repo)[origin]? = some declared ∧ (origin != 0) = base ∧
    PathFrom repo declared path

namespace TypeDef.Reaches

variable {d : TypeDef} {repo : Repository} {base : Bool} {path : List Edge}

theorem iff_route :
    d.Reaches repo base path ↔
      ∃ route : Route, route.isBase = base ∧ route.edges? repo d = some path := by
  constructor
  · rintro ⟨origin, declared, starts, isBase, follows⟩
    obtain ⟨positions, along⟩ := PathFrom.iff_positions.mp follows
    exact ⟨⟨origin, positions⟩, isBase, by simp [Route.edges?, starts, along]⟩
  · rintro ⟨route, isBase, leads⟩
    obtain ⟨declared, starts, along⟩ := Option.bind_eq_some_iff.mp leads
    exact ⟨route.origin, declared, starts, isBase, PathFrom.iff_positions.mpr ⟨_, along⟩⟩

theorem own_iff : d.Reaches repo false path ↔ PathFrom repo d.edges path := by
  have first : (d.origins repo)[0]? = some d.edges := by
    unfold TypeDef.origins
    split <;> rfl
  constructor
  · rintro ⟨origin, declared, starts, isOwn, follows⟩
    simp only [bne_eq_false_iff_eq] at isOwn
    rw [isOwn, first] at starts
    cases starts
    exact follows
  · intro follows
    exact ⟨0, d.edges, first, rfl, follows⟩

theorem ne_nil (reaches : d.Reaches repo base path) : path ≠ [] := by
  obtain ⟨_, _, _, _, follows⟩ := reaches
  exact follows.ne_nil

theorem exists_last (reaches : d.Reaches repo base path) : ∃ last, path.getLast? = some last :=
  ⟨path.getLast reaches.ne_nil, List.getLast?_eq_some_getLast reaches.ne_nil⟩

theorem prefix_of_append {back : List Edge} (hpath : path ≠ [])
    (reaches : d.Reaches repo base (path ++ back)) : d.Reaches repo base path := by
  obtain ⟨origin, declared, starts, isBase, follows⟩ := reaches
  exact ⟨origin, declared, starts, isBase, follows.prefix_of_append hpath⟩

theorem extend {back : List Edge} {last : Edge} {target : TypeDef}
    (reaches : d.Reaches repo base path) (isLast : path.getLast? = some last)
    (known : last.targetDef? repo = some target) (follows : PathFrom repo target.edges back) :
    d.Reaches repo base (path ++ back) := by
  obtain ⟨origin, declared, starts, isBase, first⟩ := reaches
  exact ⟨origin, declared, starts, isBase,
    (PathFrom.append_iff first.ne_nil follows.ne_nil).mpr
      ⟨first, last, isLast, target, known, follows⟩⟩

theorem length_le_of_target (reaches : d.Reaches repo base path) (acyclic : repo.Acyclic)
    {last : Edge} {target : TypeDef} (isLast : path.getLast? = some last)
    (known : last.targetDef? repo = some target) : path.length ≤ repo.size := by
  obtain ⟨_, _, _, _, follows⟩ := reaches
  exact follows.length_le_of_target acyclic isLast known

theorem of_follows {edges : List Edge} (reaches : ∀ e ∈ edges, d.Reaches repo base [e])
    (follows : PathFrom repo edges path) : d.Reaches repo base path := by
  cases follows with
  | stop listed => exact reaches _ listed
  | follow listed target rest => exact (reaches _ listed).extend rfl target rest

theorem rest_of_append {back : List Edge} (hpath : path ≠ []) (hback : back ≠ [])
    (reaches : d.Reaches repo base (path ++ back)) :
    ∃ last ∈ path.getLast?, ∃ target, last.targetDef? repo = some target ∧
      PathFrom repo target.edges back := by
  obtain ⟨_, _, _, _, follows⟩ := reaches
  exact ((PathFrom.append_iff hpath hback).mp follows).2

end TypeDef.Reaches
end InterfaceSurface
