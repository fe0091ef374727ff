import InterfaceSurface.Proofs.Closure.Log
import InterfaceSurface.Proofs.Closure.Resolution

/-! # Where writes come from

Every write of a run is accounted for, whatever the renderer and however the run
ends (`tracked_ofDefinitionLogged`).  It belongs to the visit of an edge behind
some path of the type: the visit opened on the surface of an earlier moment, did
not find the name settled there, and walked what the target requires; that walk
wrote all that was written since (`Write.Visits`).

A run that succeeds returns what its writes alone lead to: every entry stands at the end of
some path (`exists_path_of_mem`), every name is there once and nothing is marked
(`indexed_and_unmarked`). -/
set_option autoImplicit false
namespace InterfaceSurface

/-- The write is the end of a visit behind the path.  The walk below the edge has
written `inner` and come to `before`. -/
structure Write.Visits (w : Write) (repo : Repository) (renderer : Renderer) (base : Bool)
    (path : List Edge) (inner : List Write) (before : Surface) : Prop where
  approach : w.approach = .along repo renderer base path
  unsettled : w.opened.settles w.entry.1 w.entry.2.defaulted = false
  finds : Exposure.atEnd? repo renderer base (path ++ [w.edge]) = some w.entry
  walked : ∃ required depth, w.edge.targetDef? repo = some required ∧
    Surface.walkLogged repo renderer depth (.along repo renderer base (path ++ [w.edge])) w.opened
      required.edges = ⟨inner, .ok before⟩

/-- Each write of a log that starts on `s` ends a visit behind some path, and that
path leads where it should. -/
def Accounted (repo : Repository) (renderer : Renderer) (leads : Bool → List Edge → Prop)
    (s : Surface) (log : List Write) : Prop :=
  ∀ front w, front ++ [w] <+: log →
    ∃ base path earlier inner, leads base (path ++ [w.edge]) ∧ front = earlier ++ inner ∧
      w.opened = s.replay earlier ∧ w.Visits repo renderer base path inner (s.replay front)

/-- The paths that go on from the end of one, along the given edges. -/
def Onward (repo : Repository) (base : Bool) (path edges : List Edge) (kind : Bool)
    (whole : List Edge) : Prop :=
  kind = base ∧ ∃ rest, PathFrom repo edges rest ∧ whole = path ++ rest

/-- What holds of every part of a run that starts on `s`: the writes lead to what it
returns, and they are accounted for. -/
structure Logged.Tracked (repo : Repository) (renderer : Renderer)
    (leads : Bool → List Edge → Prop) (s : Surface) (run : Logged Surface) : Prop where
  rebuilds : ∀ result, run.outcome = .ok result → result = s.replay run.writes
  accounted : Accounted repo renderer leads s run.writes

theorem prefix_append_split {α : Type} {front first later : List α} {x : α}
    (within : front ++ [x] <+: first ++ later) :
    front ++ [x] <+: first ∨ ∃ rest, front = first ++ rest ∧ rest ++ [x] <+: later := by
  rcases List.prefix_or_prefix_of_prefix within (List.prefix_append first later) with early | late
  · exact .inl early
  · rcases List.prefix_concat_iff.mp late with same | ⟨rest, rfl⟩
    · exact .inl (same ▸ List.prefix_rfl)
    · rw [List.append_assoc, List.prefix_append_right_inj] at within
      exact .inr ⟨rest, rfl, within⟩

section
variable {repo : Repository} {renderer : Renderer} {leads stronger : Bool → List Edge → Prop}
  {s : Surface}

theorem accounted_nil : Accounted repo renderer leads s [] := by
  intro front w within
  simp at within

theorem Accounted.mono {log : List Write} (accounted : Accounted repo renderer stronger s log)
    (le : ∀ base path, stronger base path → leads base path) :
    Accounted repo renderer leads s log := by
  intro front w within
  obtain ⟨base, path, earlier, inner, found, rest⟩ := accounted front w within
  exact ⟨base, path, earlier, inner, le base _ found, rest⟩

theorem Accounted.append {first later : List Write}
    (accounted : Accounted repo renderer leads s first)
    (onward : Accounted repo renderer leads (s.replay first) later) :
    Accounted repo renderer leads s (first ++ later) := by
  intro front w within
  rcases prefix_append_split within with early | ⟨rest, rfl, late⟩
  · exact accounted front w early
  · obtain ⟨base, path, earlier, inner, found, rfl, opened, visits⟩ := onward rest w late
    refine ⟨base, path, first ++ earlier, inner, found, (List.append_assoc ..).symm, ?_, ?_⟩
    · rw [opened, Surface.replay_append]
    · rwa [Surface.replay_append]

/-- A visit ends with its own write, after those of the walk below. -/
theorem Accounted.concat {inner : List Write} {w : Write} {base : Bool} {path : List Edge}
    (accounted : Accounted repo renderer leads s inner) (found : leads base (path ++ [w.edge]))
    (opened : w.opened = s)
    (visits : w.Visits repo renderer base path inner (s.replay inner)) :
    Accounted repo renderer leads s (inner ++ [w]) := by
  intro front other within
  rcases List.prefix_concat_iff.mp within with last | early
  · obtain ⟨rfl, same⟩ := List.append_inj' last rfl
    cases same
    exact ⟨base, path, [], front, found, rfl, opened, visits⟩
  · exact accounted front other early

theorem Accounted.of_mem {log : List Write} (accounted : Accounted repo renderer leads s log)
    {w : Write} (listed : w ∈ log) :
    ∃ base path earlier inner before, leads base (path ++ [w.edge]) ∧ earlier <+: log ∧
      w.opened = s.replay earlier ∧ w.Visits repo renderer base path inner before := by
  obtain ⟨front, back, rfl⟩ := List.append_of_mem listed
  have within : front ++ [w] <+: front ++ w :: back := ⟨back, by simp⟩
  obtain ⟨base, path, earlier, inner, found, rfl, opened, visits⟩ := accounted front w within
  exact ⟨base, path, earlier, inner, _, found, ⟨inner ++ w :: back, by simp⟩, opened, visits⟩

/-- Every entry that the writes lead to stands at the end of a path. -/
theorem Accounted.exists_path_of_mem {log : List Write}
    (accounted : Accounted repo renderer leads .empty log) {entry : Exposure}
    (member : entry ∈ (Surface.empty.replay log).toList) :
    ∃ base path, leads base path ∧ Exposure.atEnd? repo renderer base path = some entry := by
  rcases Surface.indexed_empty.mem_toList_replay member with nothing | ⟨w, listed, rfl⟩
  · simp [Surface.empty, Surface.toList] at nothing
  · obtain ⟨base, path, _, _, _, found, _, _, visits⟩ := accounted.of_mem listed
    exact ⟨base, path ++ [w.edge], found, visits.finds⟩

namespace Write.Visits

variable {w : Write} {base : Bool} {path : List Edge} {inner : List Write} {before : Surface}

theorem base_eq (visits : w.Visits repo renderer base path inner before) :
    w.entry.2.base = base ∧ w.approach.base = base := by
  refine ⟨Facet.base_of_atEnd? (Exposure.atEnd?_eq_some visits.finds).2, ?_⟩
  rw [visits.approach, Approach.along_eq]

theorem defaulted_eq (visits : w.Visits repo renderer base path inner before) :
    w.entry.2.defaulted = (!base && (path ++ [w.edge]).any Edge.isDefault) :=
  Facet.defaulted_of_atEnd? (Exposure.atEnd?_eq_some visits.finds).2

/-- What a base class brings was not there when its edge was visited. -/
theorem absent_of_base (visits : w.Visits repo renderer true path inner before)
    (indexed : w.opened.Indexed) : w.entry.1 ∉ w.opened.names := by
  have unsettled := visits.unsettled
  rw [visits.defaulted_eq, ← Bool.not_eq_true, Surface.settles_iff] at unsettled
  rw [← indexed.get?_eq_none_iff, Option.eq_none_iff_forall_ne_some]
  intro facet known
  exact unsettled ⟨facet, known, by simp⟩

end Write.Visits

/-! ## Parts of a run put together -/

namespace Logged.Tracked

theorem indexed {run : Logged Surface} (tracked : run.Tracked repo renderer leads s)
    (start : s.Indexed) {result : Surface} (done : run.outcome = .ok result) : result.Indexed := by
  rw [tracked.rebuilds result done]
  exact start.replay run.writes

theorem of_ok : Tracked repo renderer leads s ⟨[], .ok s⟩ :=
  ⟨fun _ same => (Except.ok.inj same).symm, accounted_nil⟩

theorem of_error (fault : Fault) : Tracked repo renderer leads s ⟨[], .error fault⟩ := by
  refine ⟨?_, accounted_nil⟩
  intro result failed
  cases failed

theorem mono {run : Logged Surface} (tracked : run.Tracked repo renderer stronger s)
    (le : ∀ base path, stronger base path → leads base path) :
    run.Tracked repo renderer leads s :=
  ⟨tracked.rebuilds, tracked.accounted.mono le⟩

theorem bind {first : Logged Surface} {next : Surface → Logged Surface}
    (tracked : first.Tracked repo renderer leads s)
    (onward : ∀ middle, first.outcome = .ok middle →
      (next middle).Tracked repo renderer leads middle) :
    (first >>= next).Tracked repo renderer leads s := by
  cases done : first.outcome with
  | error fault =>
      rw [bind_of_error done]
      exact ⟨nofun, tracked.accounted⟩
  | ok middle =>
      have rest := onward middle done
      have reached := tracked.rebuilds middle done
      rw [bind_of_ok done]
      constructor
      · intro result finished
        rw [Surface.replay_append, ← reached]
        exact rest.rebuilds result finished
      · exact tracked.accounted.append (reached ▸ rest.accounted)

theorem foldlM {α : Type} {step : Surface → α → Logged Surface} {items : List α}
    (each : ∀ item ∈ items, ∀ middle, (step middle item).Tracked repo renderer leads middle) :
    (items.foldlM step s).Tracked repo renderer leads s := by
  induction items generalizing s with
  | nil => exact of_ok
  | cons item rest ih =>
      rw [List.foldlM_cons]
      exact (each item (by simp) s).bind fun middle _ =>
        ih fun other listed => each other (List.mem_cons_of_mem _ listed)

end Logged.Tracked

end

namespace Surface

variable {repo : Repository} {renderer : Renderer}

/-! ## Walks -/

variable (repo renderer) in
/-- All a logged visit behind a path can do: fail without a write, pass the edge over,
or walk what the target requires and, if that succeeds, write. -/
theorem visitLogged_cases (base : Bool) (depth : Nat) (path : List Edge) (s : Surface) (e : Edge) :
    (∃ fault, visitLogged repo renderer (walkLogged repo renderer depth)
        (.along repo renderer base path) s e = ⟨[], .error fault⟩) ∨
      (renderer.name repo e.target (scopeBehind repo renderer path) =
          .ok (renderer.type repo e.target (scopeBehind repo renderer path)) ∧
        ((s.settles (renderer.type repo e.target (scopeBehind repo renderer path))
            (Approach.along repo renderer base (path ++ [e])).defaulted = true ∧
          visitLogged repo renderer (walkLogged repo renderer depth)
            (.along repo renderer base path) s e = ⟨[], .ok s⟩) ∨
        ∃ target required, repo.resolve e.target = .ok target ∧ repo.get? target = some required ∧
          s.settles (renderer.type repo e.target (scopeBehind repo renderer path))
            (Approach.along repo renderer base (path ++ [e])).defaulted = false ∧
          visitLogged repo renderer (walkLogged repo renderer depth)
              (.along repo renderer base path) s e =
            (walkLogged repo renderer depth (.along repo renderer base (path ++ [e])) s
                required.edges >>= fun below =>
              let w : Write := ⟨s, .along repo renderer base path, e,
                renderer.type repo e.target (scopeBehind repo renderer path),
                .ofEdge e (.along repo renderer base (path ++ [e])) target required⟩
              ⟨[w], .ok (below.write w)⟩))) := by
  rw [Approach.along_concat, ← Approach.scope_along]
  generalize Approach.along repo renderer base path = approach
  unfold visitLogged
  cases printed : renderer.name repo e.target approach.scope with
  | error fault => exact .inl ⟨fault, Logged.quietly_error_bind fault _⟩
  | ok name =>
      cases Renderer.eq_type_of_name printed
      rw [Logged.quietly_ok_bind]
      dsimp only
      cases settled : s.settles (renderer.type repo e.target approach.scope)
          (approach.follow repo renderer e).defaulted with
      | true => exact .inr ⟨rfl, .inl ⟨rfl, if_pos rfl⟩⟩
      | false =>
          rw [if_neg (by simp)]
          cases resolved : repo.resolve e.target with
          | error fault => exact .inl ⟨fault, Logged.quietly_error_bind fault _⟩
          | ok target =>
              rw [Logged.quietly_ok_bind]
              cases got : repo.get target with
              | error fault => exact .inl ⟨fault, Logged.quietly_error_bind fault _⟩
              | ok required =>
                  rw [Logged.quietly_ok_bind]
                  exact .inr ⟨rfl, .inr
                    ⟨target, required, rfl, Repository.get_eq_ok_iff.mp got, rfl, rfl⟩⟩

variable (repo renderer) in
theorem tracked_visitLogged {base : Bool} {path : List Edge} {e : Edge} {s : Surface} {depth : Nat}
    (below : ∀ required, e.targetDef? repo = some required →
      (walkLogged repo renderer depth (.along repo renderer base (path ++ [e])) s
        required.edges).Tracked repo renderer (Onward repo base (path ++ [e]) required.edges) s) :
    (visitLogged repo renderer (walkLogged repo renderer depth) (.along repo renderer base path) s
      e).Tracked repo renderer (Onward repo base path [e]) s := by
  rcases visitLogged_cases repo renderer base depth path s e
    with ⟨fault, failed⟩ | ⟨_, ⟨_, passed⟩ | ⟨target, required, resolved, known, fresh, visit⟩⟩
  · rw [failed]
    exact .of_error _
  · rw [passed]
    exact .of_ok
  · have leads : e.targetDef? repo = some required :=
      (e.targetDef?_eq_some_iff repo required).mpr ⟨target, resolved, known⟩
    have inner := below required leads
    have onward : ∀ kind whole, Onward repo base (path ++ [e]) required.edges kind whole →
        Onward repo base path [e] kind whole := by
      rintro kind whole ⟨isBase, rest, follows, split⟩
      exact ⟨isBase, e :: rest, .follow (by simp) leads follows, by simp [split]⟩
    rw [visit]
    cases done : (walkLogged repo renderer depth (.along repo renderer base (path ++ [e])) s
        required.edges).outcome with
    | error fault =>
        rw [Logged.bind_of_error done]
        exact ⟨nofun, inner.accounted.mono onward⟩
    | ok under =>
        have reached := inner.rebuilds under done
        rw [Logged.bind_of_ok done]
        constructor
        · intro result finished
          cases finished
          rw [replay_concat, ← reached]
        · refine (inner.accounted.mono onward).concat ⟨rfl, [e], .stop (by simp), rfl⟩ rfl ?_
          exact {
            approach := rfl
            unsettled := fresh
            finds := Exposure.atEnd?_concat resolved known
            walked := ⟨required, depth, leads, by rw [← reached, ← done]⟩ }

variable (repo renderer) in
theorem tracked_walkLogged (base : Bool) (depth : Nat) (path edges : List Edge) (s : Surface) :
    (walkLogged repo renderer depth (.along repo renderer base path) s edges).Tracked repo renderer
      (Onward repo base path edges) s := by
  induction depth generalizing path edges s with
  | zero => exact .of_error _
  | succ depth ih =>
      rw [walkLogged]
      refine .foldlM fun e listed middle => ?_
      have visited := tracked_visitLogged repo renderer fun required _ =>
        ih (path ++ [e]) required.edges middle
      refine visited.mono ?_
      rintro kind whole ⟨isBase, rest, follows, split⟩
      exact ⟨isBase, rest, follows.mono (by simpa using listed), split⟩

/-! ## The run for a type -/

variable {d : TypeDef}

theorem tracked_walkTypeLogged {base : Bool} {edges : List Edge} (s : Surface)
    (reaches : ∀ e ∈ edges, d.Reaches repo base [e]) :
    (walkTypeLogged repo renderer base s edges).Tracked repo renderer
      (fun kind path => kind = base ∧ d.Reaches repo kind path) s := by
  refine (tracked_walkLogged repo renderer base (repo.size + 1) [] edges s).mono ?_
  rintro kind whole ⟨rfl, rest, follows, rfl⟩
  exact ⟨rfl, .of_follows reaches follows⟩

theorem tracked_bases {handles : List Handle} {s : Surface}
    (reaches : ∀ h ∈ handles, ∀ baseDef, repo.get? h = some baseDef → ∀ e ∈ baseDef.edges,
      d.Reaches repo true [e]) :
    (handles.foldlM (addBaseLogged repo renderer) s).Tracked repo renderer
      (fun kind path => kind = true ∧ d.Reaches repo kind path) s := by
  refine .foldlM fun h listed middle => ?_
  cases got : repo.get h with
  | error fault =>
      rw [addBaseLogged, got, Logged.quietly_error_bind]
      exact .of_error _
  | ok baseDef =>
      rw [addBaseLogged_eq got]
      have known := Repository.get_eq_ok_iff.mp got
      exact tracked_walkTypeLogged middle (reaches h listed baseDef known)

theorem tracked_ofDefinitionLogged (d : TypeDef) :
    (ofDefinitionLogged repo renderer d).Tracked repo renderer (d.Reaches repo) empty := by
  unfold ofDefinitionLogged
  cases d.checkDefault with
  | error fault =>
      rw [Logged.quietly_error_bind]
      exact .of_error _
  | ok checked =>
      rw [Logged.quietly_ok_bind]
      refine ((tracked_walkTypeLogged empty fun e listed => reaches_own listed).mono
        fun kind path both => both.2).bind fun own _ => ?_
      cases climbed : d.bases repo with
      | error fault =>
          rw [Logged.quietly_error_bind]
          exact .of_error _
      | ok handles =>
          rw [Logged.quietly_ok_bind]
          exact (tracked_bases fun h member baseDef known e listed =>
            reaches_base climbed member known listed).mono fun kind path both => both.2

/-- Every entry of the surface stands at the end of a path, whatever the renderer prints. -/
theorem exists_path_of_mem {s : Surface} (run : ofDefinition repo renderer d = .ok s)
    {entry : Exposure} (member : entry ∈ s.toList) :
    ∃ base path, d.Reaches repo base path ∧
      Exposure.atEnd? repo renderer base path = some entry := by
  have tracked : (ofDefinitionLogged repo renderer d).Tracked repo renderer _ empty :=
    tracked_ofDefinitionLogged d
  rw [← outcome_ofDefinitionLogged] at run
  rw [tracked.rebuilds s run] at member
  exact tracked.accounted.exists_path_of_mem member

/-- What is found has each name once and nothing marked, whatever the renderer prints. -/
theorem indexed_and_unmarked {s : Surface} (run : ofDefinition repo renderer d = .ok s) :
    s.Indexed ∧ ∀ entry ∈ s.toList, entry.2.leading = false := by
  have tracked : (ofDefinitionLogged repo renderer d).Tracked repo renderer _ empty :=
    tracked_ofDefinitionLogged d
  constructor
  · rw [← outcome_ofDefinitionLogged] at run
    exact tracked.indexed indexed_empty run
  · intro entry member
    obtain ⟨_, _, _, finds⟩ := exists_path_of_mem run member
    obtain ⟨_, _, _, _, _, _, facet⟩ :=
      Facet.exists_of_atEnd? (Exposure.atEnd?_eq_some finds).2
    rw [facet]

end Surface
end InterfaceSurface
