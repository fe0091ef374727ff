import InterfaceSurface.Proofs.Closure.Findings
import InterfaceSurface.Proofs.Closure.Merge
import InterfaceSurface.Proofs.Outcome

/-! # Logged runs

A logged run does what the run does and keeps a log of its writes, also when it
ends in a fault.  Without the log it is the run itself (`outcome_ofTypeLogged`).

A write changes the answer for its own name only.  A name that is present keeps
its place, so writes to present names leave the list of names as it is
(`Indexed.names_replay_of_present`), and writes to other names leave all that was
there in front (`Indexed.toList_replay_of_apart`). -/
set_option autoImplicit false
namespace InterfaceSurface

/-- A write and the visit it belongs to: the surface the visit opened on, the
approach to the edge, the edge, and what is entered for it. -/
structure Write where
  opened : Surface
  approach : Approach
  edge : Edge
  entry : Exposure

def Surface.write (s : Surface) (w : Write) : Surface :=
  s.insertOrAssign w.entry.1 w.entry.2

/-- The surface after some writes. -/
def Surface.replay (s : Surface) (log : List Write) : Surface := log.foldl Surface.write s

/-- What a part of a run writes, in order, and what it comes to. -/
structure Logged (α : Type) where
  writes : List Write
  outcome : Except Fault α

namespace Logged

variable {α β : Type}

/-- Writes nothing. -/
def quietly (outcome : Except Fault α) : Logged α := ⟨[], outcome⟩

protected def bind (first : Logged α) (next : α → Logged β) : Logged β :=
  match first.outcome with
  | .ok part => ⟨first.writes ++ (next part).writes, (next part).outcome⟩
  | .error fault => ⟨first.writes, .error fault⟩

instance : Monad Logged where
  pure part := ⟨[], .ok part⟩
  bind := Logged.bind

theorem bind_of_ok {first : Logged α} {next : α → Logged β} {part : α}
    (done : first.outcome = .ok part) :
    first >>= next = ⟨first.writes ++ (next part).writes, (next part).outcome⟩ := by
  simp only [bind, Logged.bind, done]

theorem bind_of_error {first : Logged α} {next : α → Logged β} {fault : Fault}
    (failed : first.outcome = .error fault) :
    first >>= next = ⟨first.writes, .error fault⟩ := by
  simp only [bind, Logged.bind, failed]

theorem quietly_ok_bind (part : α) (next : α → Logged β) :
    quietly (.ok part) >>= next = next part :=
  bind_of_ok rfl

theorem quietly_error_bind (fault : Fault) (next : α → Logged β) :
    quietly (.error fault) >>= next = ⟨[], .error fault⟩ :=
  bind_of_error rfl

@[simp] theorem outcome_quietly (outcome : Except Fault α) :
    (quietly outcome).outcome = outcome := rfl

@[simp] theorem outcome_bind (first : Logged α) (next : α → Logged β) :
    (first >>= next).outcome = first.outcome >>= fun part => (next part).outcome := by
  cases done : first.outcome with
  | error fault => rw [bind_of_error done]; rfl
  | ok part => rw [bind_of_ok done]; rfl

theorem bind_outcome_eq_ok_iff {first : Logged α} {next : α → Logged β} {answer : β} :
    (first >>= next).outcome = .ok answer ↔
      ∃ part, first.outcome = .ok part ∧ (next part).outcome = .ok answer := by
  rw [outcome_bind, bind_eq_ok_iff]

theorem outcome_foldlM {step : β → α → Logged β} (items : List α) (start : β) :
    (items.foldlM step start).outcome =
      items.foldlM (fun part item => (step part item).outcome) start := by
  induction items generalizing start with
  | nil => rfl
  | cons item rest ih => simp only [List.foldlM_cons, outcome_bind, ih]

end Logged

namespace Surface

/-- `visit` with a log. -/
def visitLogged (repo : Repository) (renderer : Renderer)
    (walkRequired : Approach → Surface → List Edge → Logged Surface)
    (approach : Approach) (s : Surface) (edge : Edge) : Logged Surface := do
  let name ← .quietly (renderer.name repo edge.target approach.scope)
  let behind := approach.follow repo renderer edge
  if s.settles name behind.defaulted then
    return s
  else
    let target ← .quietly (repo.resolve edge.target)
    let d ← .quietly (repo.get target)
    let below ← walkRequired behind s d.edges
    let w : Write := ⟨s, approach, edge, name, .ofEdge edge behind target d⟩
    ⟨[w], .ok (below.write w)⟩

def walkLogged (repo : Repository) (renderer : Renderer) :
    Nat → Approach → Surface → List Edge → Logged Surface
  | 0, _, _, _ => .quietly (.error .interfaceCycle)
  | depth + 1, approach, s, edges =>
    edges.foldlM (visitLogged repo renderer (walkLogged repo renderer depth) approach) s

def walkTypeLogged (repo : Repository) (renderer : Renderer) (base : Bool) (s : Surface)
    (edges : List Edge) : Logged Surface :=
  walkLogged repo renderer (repo.size + 1) (.start base) s edges

def addBaseLogged (repo : Repository) (renderer : Renderer) (s : Surface) (h : Handle) :
    Logged Surface := do
  let d ← .quietly (repo.get h)
  walkTypeLogged repo renderer true s d.edges

theorem addBaseLogged_eq {repo : Repository} {renderer : Renderer} {h : Handle} {d : TypeDef}
    (got : repo.get h = .ok d) (s : Surface) :
    addBaseLogged repo renderer s h = walkTypeLogged repo renderer true s d.edges := by
  rw [addBaseLogged, got, Logged.quietly_ok_bind]

def ofDefinitionLogged (repo : Repository) (renderer : Renderer) (d : TypeDef) :
    Logged Surface := do
  .quietly d.checkDefault
  let own ← walkTypeLogged repo renderer false .empty d.edges
  let handles ← .quietly (d.bases repo)
  handles.foldlM (addBaseLogged repo renderer) own

def ofTypeLogged (repo : Repository) (renderer : Renderer) (h : Handle) : Logged Surface := do
  let d ← .quietly (repo.get h)
  ofDefinitionLogged repo renderer d

section
variable {repo : Repository} {renderer : Renderer}

/-! ## The log left out -/

theorem outcome_visitLogged
    (walkRequired : Approach → Surface → List Edge → Logged Surface) (approach : Approach)
    (s : Surface) (e : Edge) :
    (visitLogged repo renderer walkRequired approach s e).outcome =
      visit repo renderer (fun behind s edges => (walkRequired behind s edges).outcome) approach s
        e := by
  simp only [visitLogged, visit, Logged.outcome_bind, Logged.outcome_quietly]
  refine congrArg _ (funext fun name => ?_)
  split
  · rfl
  · simp only [Logged.outcome_bind, Logged.outcome_quietly]
    rfl

theorem outcome_walkLogged (depth : Nat) (approach : Approach) (s : Surface) (edges : List Edge) :
    (walkLogged repo renderer depth approach s edges).outcome =
      walk repo renderer depth approach s edges := by
  induction depth generalizing approach s edges with
  | zero => rfl
  | succ depth ih =>
      simp only [walkLogged, walk, Logged.outcome_foldlM, outcome_visitLogged, ih]

theorem outcome_addBaseLogged (s : Surface) (h : Handle) :
    (addBaseLogged repo renderer s h).outcome = addBase repo renderer s h := by
  simp only [addBaseLogged, addBase, walkTypeLogged, walkType, Logged.outcome_bind,
    Logged.outcome_quietly, outcome_walkLogged]

theorem outcome_ofDefinitionLogged (d : TypeDef) :
    (ofDefinitionLogged repo renderer d).outcome = ofDefinition repo renderer d := by
  simp only [ofDefinitionLogged, ofDefinition, walkTypeLogged, walkType, Logged.outcome_bind,
    Logged.outcome_quietly, Logged.outcome_foldlM, outcome_walkLogged, outcome_addBaseLogged]

theorem outcome_ofTypeLogged (h : Handle) :
    (ofTypeLogged repo renderer h).outcome = ofType repo renderer h := by
  simp only [ofTypeLogged, ofType, Logged.outcome_bind, Logged.outcome_quietly,
    outcome_ofDefinitionLogged]

end

/-! ## Replaying a log -/

section
variable {s : Surface}

theorem replay_append (first later : List Write) :
    s.replay (first ++ later) = (s.replay first).replay later :=
  List.foldl_append

theorem replay_concat (log : List Write) (w : Write) :
    s.replay (log ++ [w]) = (s.replay log).write w := by
  rw [replay_append]
  rfl

theorem Indexed.replay (indexed : s.Indexed) (log : List Write) : (s.replay log).Indexed := by
  induction log using List.reverseRecOn with
  | nil => exact indexed
  | append_singleton log w ih =>
      rw [replay_concat]
      exact ih.insertOrAssign w.entry.1 w.entry.2

theorem Indexed.get?_write (indexed : s.Indexed) (w : Write) (name : String) :
    (s.write w).get? name = if w.entry.1 = name then some w.entry.2 else s.get? name :=
  indexed.get?_insertOrAssign w.entry.1 name w.entry.2

theorem Indexed.get?_replay_of_apart (indexed : s.Indexed) {log : List Write} {name : String}
    (apart : ∀ w ∈ log, w.entry.1 ≠ name) : (s.replay log).get? name = s.get? name := by
  induction log using List.reverseRecOn with
  | nil => rfl
  | append_singleton log w ih =>
      rw [replay_concat, (indexed.replay log).get?_write, if_neg (apart w (by simp))]
      exact ih fun other listed => apart other (List.mem_append_left _ listed)

theorem Indexed.mem_names_replay (indexed : s.Indexed) {log : List Write} {name : String} :
    name ∈ (s.replay log).names ↔ name ∈ s.names ∨ ∃ w ∈ log, w.entry.1 = name := by
  induction log using List.reverseRecOn with
  | nil => simp [Surface.replay]
  | append_singleton log w ih =>
      rw [replay_concat, Surface.write, (indexed.replay log).mem_names_insertOrAssign, ih,
        @eq_comm _ name]
      simp only [List.mem_append, List.mem_singleton, or_and_right, exists_or, exists_eq_left]
      rw [or_comm, or_assoc]

theorem Indexed.names_replay_of_present (indexed : s.Indexed) {log : List Write}
    (present : ∀ w ∈ log, w.entry.1 ∈ s.names) : (s.replay log).names = s.names := by
  induction log using List.reverseRecOn with
  | nil => rfl
  | append_singleton log w ih =>
      have before := ih fun other listed => present other (List.mem_append_left _ listed)
      have listed : w.entry.1 ∈ (s.replay log).names := before ▸ present w (by simp)
      rw [replay_concat, Surface.write,
        (indexed.replay log).names_insertOrAssign_of_present listed, before]

theorem Indexed.mem_toList_write (indexed : s.Indexed) {w : Write} {entry : Exposure}
    (member : entry ∈ (s.write w).toList) : entry ∈ s.toList ∨ w.entry = entry := by
  rw [Surface.write] at member
  by_cases present : w.entry.1 ∈ s.names
  · rw [indexed.toList_insertOrAssign_of_present present] at member
    obtain ⟨old, listed, rfl⟩ := List.mem_map.mp member
    by_cases same : old.1 = w.entry.1
    · exact .inr (by simp [same])
    · exact .inl (by simpa [same] using listed)
  · rw [indexed.toList_insertOrAssign_of_absent present] at member
    rcases List.mem_append.mp member with old | last
    · exact .inl old
    · exact .inr (List.mem_singleton.mp last).symm

/-- Every entry was there or is written. -/
theorem Indexed.mem_toList_replay (indexed : s.Indexed) {log : List Write} {entry : Exposure}
    (member : entry ∈ (s.replay log).toList) : entry ∈ s.toList ∨ ∃ w ∈ log, w.entry = entry := by
  induction log using List.reverseRecOn with
  | nil => exact .inl member
  | append_singleton log w ih =>
      rw [replay_concat] at member
      rcases (indexed.replay log).mem_toList_write member with before | written
      · rcases ih before with old | ⟨other, listed, same⟩
        · exact .inl old
        · exact .inr ⟨other, List.mem_append_left _ listed, same⟩
      · exact .inr ⟨w, by simp, written⟩

/-- Writes to other names leave the entries in front as they are. -/
theorem Indexed.toList_replay_of_apart (indexed : s.Indexed) {log : List Write}
    (apart : ∀ w ∈ log, w.entry.1 ∉ s.names) :
    ∃ back, (s.replay log).toList = s.toList ++ back ∧
      ∀ entry ∈ back, ∃ w ∈ log, w.entry = entry := by
  induction log using List.reverseRecOn with
  | nil => exact ⟨[], by simp [Surface.replay], by simp⟩
  | append_singleton log w ih =>
      obtain ⟨back, split, written⟩ :=
        ih fun other listed => apart other (List.mem_append_left _ listed)
      have fresh : w.entry.1 ∉ s.names := apart w (by simp)
      have earlier : ∀ entry ∈ back, ∃ other ∈ log ++ [w], other.entry = entry := by
        intro entry member
        obtain ⟨other, listed, same⟩ := written entry member
        exact ⟨other, List.mem_append_left _ listed, same⟩
      rw [replay_concat, Surface.write]
      by_cases present : w.entry.1 ∈ (s.replay log).names
      · rw [(indexed.replay log).toList_insertOrAssign_of_present present, split, List.map_append]
        refine ⟨back.map fun entry => if entry.1 = w.entry.1 then w.entry else entry, ?_, ?_⟩
        · refine congrArg (· ++ _) ((List.map_congr_left fun entry listed => ?_).trans
            (List.map_id' s.toList))
          have other : entry.1 ≠ w.entry.1 := fun same => fresh (same ▸ List.mem_map_of_mem listed)
          rw [if_neg other]
        · intro entry member
          obtain ⟨old, listed, rfl⟩ := List.mem_map.mp member
          by_cases same : old.1 = w.entry.1
          · exact ⟨w, by simp, by simp [same]⟩
          · simpa [same] using earlier old listed
      · rw [(indexed.replay log).toList_insertOrAssign_of_absent present, split, List.append_assoc]
        refine ⟨back ++ [w.entry], rfl, ?_⟩
        intro entry member
        rcases List.mem_append.mp member with old | last
        · exact earlier entry old
        · exact ⟨w, by simp, (List.mem_singleton.mp last).symm⟩

end

end Surface
end InterfaceSurface
