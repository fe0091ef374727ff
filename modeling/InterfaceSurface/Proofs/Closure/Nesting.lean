import InterfaceSurface.Proofs.Closure.Dangling

/-! # How deep walks nest

`walk` is limited in depth.  Here it is told without the limit: `Walks` is the recursion as it
is, where a walk follows all edges of each interface it enters by another walk, together with
the length of the longest chain of walks one inside the other.  `Resolves` is the whole
resolution with such walks.

A limited run does the same as one without a limit if the limit is at least that length, and
else stops with the fault that only the limit gives (`resolves_limits`).  That holds in every
repository.  If no interface requires itself, the limit of `ofType` is never met; so the
recursion comes to an end, and its walks nest no deeper (`ofType_nesting_bounded`). -/
set_option autoImplicit false
namespace InterfaceSurface

/-- What a part of a run comes to, and the length of its longest chain of nested walks. -/
def Nesting (α : Type) : Type := Nat → Except Fault α → Prop

namespace Nesting

variable {α β : Type}

/-- Does not walk. -/
def quietly (outcome : Except Fault α) : Nesting α :=
  fun nested cameTo => nested = 0 ∧ cameTo = outcome

/-- One part after the other; a fault of the first ends both. -/
protected def bind (first : Nesting α) (next : α → Nesting β) : Nesting β := fun nested cameTo =>
  (∃ fault, first nested (.error fault) ∧ cameTo = .error fault) ∨
    ∃ before later part, first before (.ok part) ∧ next part later cameTo ∧
      nested = max before later

instance : Monad Nesting where
  pure part := quietly (.ok part)
  bind := Nesting.bind

/-- With a limit on the nesting, the run does the same as without, or stops at the limit. -/
structure Limits (run : Nesting α) (limited : Nat → Except Fault α) : Prop where
  sound : ∀ depth, limited depth ≠ .error .interfaceCycle →
    ∃ nested, nested ≤ depth ∧ run nested (limited depth)
  complete : ∀ nested outcome, run nested outcome → ∀ depth,
    limited depth = if nested ≤ depth then outcome else .error .interfaceCycle

namespace Limits

theorem quietly (outcome : Except Fault α) : (quietly outcome).Limits fun _ => outcome where
  sound depth _ := ⟨0, Nat.zero_le depth, rfl, rfl⟩
  complete := by
    rintro nested _ ⟨rfl, rfl⟩ depth
    exact (if_pos (Nat.zero_le depth)).symm

theorem bind {first : Nesting α} {firstWithin : Nat → Except Fault α} {next : α → Nesting β}
    {nextWithin : α → Nat → Except Fault β} (starts : first.Limits firstWithin)
    (onward : ∀ part, (next part).Limits (nextWithin part)) :
    (first >>= next).Limits fun depth =>
      firstWithin depth >>= fun part => nextWithin part depth where
  sound depth within := by
    obtain ⟨before, short, run⟩ := starts.sound depth (ne_error_of_bind within)
    cases done : firstWithin depth with
    | error fault => exact ⟨before, short, .inl ⟨fault, done ▸ run, rfl⟩⟩
    | ok part =>
        simp only [done] at within
        obtain ⟨later, shortToo, runToo⟩ := (onward part).sound depth within
        exact ⟨max before later, Nat.max_le.mpr ⟨short, shortToo⟩,
          .inr ⟨before, later, part, done ▸ run, runToo, rfl⟩⟩
  complete := by
    rintro nested outcome (⟨fault, fails, rfl⟩ | ⟨before, later, part, run, runToo, rfl⟩) depth
    · rw [starts.complete nested _ fails depth]
      split <;> rfl
    · rw [starts.complete before _ run depth]
      by_cases short : before ≤ depth
      · rw [if_pos short]
        simp only [Nat.max_le, short, true_and]
        exact (onward part).complete later outcome runToo depth
      · rw [if_neg short, if_neg fun all => short (Nat.max_le.mp all).1]
        rfl

theorem foldlM {step : β → α → Nesting β} {stepWithin : Nat → β → α → Except Fault β}
    (each : ∀ part item, (step part item).Limits fun depth => stepWithin depth part item)
    (items : List α) (start : β) :
    (items.foldlM step start).Limits fun depth => items.foldlM (stepWithin depth) start := by
  induction items generalizing start with
  | nil => exact quietly (.ok start)
  | cons item rest ih =>
      simp only [List.foldlM_cons]
      exact (each start item).bind ih

end Limits
end Nesting

namespace Surface

/-- An unsettled name that a visit comes to, and what it stands for. -/
structure Arrival where
  name : String
  target : Handle
  definition : TypeDef

/-- What a visit does before it walks; there is no arrival at a settled name. -/
def arrive (repo : Repository) (renderer : Renderer) (approach : Approach) (s : Surface)
    (edge : Edge) : Except Fault (Option Arrival) := do
  let name ← renderer.name repo edge.target approach.scope
  if s.settles name (approach.follow repo renderer edge).defaulted then
    return none
  else
    let target ← repo.resolve edge.target
    return some ⟨name, target, ← repo.get target⟩

/-- What a visit enters once it has walked below. -/
def Arrival.enter (arrival : Arrival) (repo : Repository) (renderer : Renderer)
    (approach : Approach) (edge : Edge) (below : Surface) : Surface :=
  below.insertOrAssign arrival.name
    (.ofEdge edge (approach.follow repo renderer edge) arrival.target arrival.definition)

/-- A walk without a limit: the length of the longest chain of nested walks in it, and what it
comes to. -/
inductive Walks (repo : Repository) (renderer : Renderer) :
    Approach → Surface → List Edge → Nat → Except Fault Surface → Prop
  | done {approach : Approach} {s : Surface} : Walks repo renderer approach s [] 1 (.ok s)
  | stops {approach : Approach} {s : Surface} {e : Edge} {rest : List Edge} {fault : Fault} :
      arrive repo renderer approach s e = .error fault →
      Walks repo renderer approach s (e :: rest) 1 (.error fault)
  | passes {approach : Approach} {s : Surface} {e : Edge} {rest : List Edge} {nested : Nat}
      {outcome : Except Fault Surface} :
      arrive repo renderer approach s e = .ok none →
      Walks repo renderer approach s rest nested outcome →
      Walks repo renderer approach s (e :: rest) nested outcome
  | stopsBelow {approach : Approach} {s : Surface} {e : Edge} {rest : List Edge}
      {arrival : Arrival} {nested : Nat} {fault : Fault} :
      arrive repo renderer approach s e = .ok (some arrival) →
      Walks repo renderer (approach.follow repo renderer e) s arrival.definition.edges nested
        (.error fault) →
      Walks repo renderer approach s (e :: rest) (nested + 1) (.error fault)
  | enters {approach : Approach} {s below : Surface} {e : Edge} {rest : List Edge}
      {arrival : Arrival} {nested later : Nat} {outcome : Except Fault Surface} :
      arrive repo renderer approach s e = .ok (some arrival) →
      Walks repo renderer (approach.follow repo renderer e) s arrival.definition.edges nested
        (.ok below) →
      Walks repo renderer approach (arrival.enter repo renderer approach e below) rest later
        outcome →
      Walks repo renderer approach s (e :: rest) (max (nested + 1) later) outcome

/-- All edges of a type, without a limit. -/
def walksType (repo : Repository) (renderer : Renderer) (base : Bool) (s : Surface)
    (edges : List Edge) : Nesting Surface :=
  Walks repo renderer (.start base) s edges

def addsBase (repo : Repository) (renderer : Renderer) (s : Surface) (h : Handle) :
    Nesting Surface := do
  let d ← .quietly (repo.get h)
  walksType repo renderer true s d.edges

/-- A resolution without a limit. -/
def Resolves (repo : Repository) (renderer : Renderer) (h : Handle) : Nesting Surface := do
  let d ← .quietly (repo.get h)
  .quietly d.checkDefault
  let own ← walksType repo renderer false .empty d.edges
  let handles ← .quietly (d.bases repo)
  handles.foldlM (addsBase repo renderer) own

def addBaseWithin (repo : Repository) (renderer : Renderer) (depth : Nat) (s : Surface)
    (h : Handle) : Except Fault Surface := do
  walk repo renderer depth (.start true) s (← repo.get h).edges

/-- A resolution with a limit of its own. -/
def ofTypeWithin (repo : Repository) (renderer : Renderer) (h : Handle) (depth : Nat) :
    Except Fault Surface := do
  let d ← repo.get h
  d.checkDefault
  let own ← walk repo renderer depth (.start false) .empty d.edges
  (← d.bases repo).foldlM (addBaseWithin repo renderer depth) own

section
variable {repo : Repository} {renderer : Renderer} {approach : Approach} {s : Surface} {e : Edge}
  {edges : List Edge} {nested : Nat} {outcome : Except Fault Surface}

theorem ofTypeWithin_size (h : Handle) :
    ofTypeWithin repo renderer h (repo.size + 1) = ofType repo renderer h := rfl

/-! ## Walks with and without a limit -/

theorem visit_eq_arrive (walkRequired : Approach → Surface → List Edge → Except Fault Surface) :
    visit repo renderer walkRequired approach s e =
      match arrive repo renderer approach s e with
      | .error fault => .error fault
      | .ok none => .ok s
      | .ok (some arrival) =>
        (walkRequired (approach.follow repo renderer e) s arrival.definition.edges).map
          (arrival.enter repo renderer approach e) := by
  rw [visit, arrive]
  cases renderer.name repo e.target approach.scope with
  | error fault => rfl
  | ok name =>
      dsimp only [bind, Except.bind]
      split
      · rfl
      · cases repo.resolve e.target with
        | error fault => rfl
        | ok target =>
            dsimp only
            cases repo.get target with
            | error fault => rfl
            | ok d =>
                dsimp only [pure, Except.pure]
                cases walkRequired (approach.follow repo renderer e) s d.edges <;> rfl

theorem walk_succ_cons (depth : Nat) (rest : List Edge) :
    walk repo renderer (depth + 1) approach s (e :: rest) =
      match arrive repo renderer approach s e with
      | .error fault => .error fault
      | .ok none => walk repo renderer (depth + 1) approach s rest
      | .ok (some arrival) =>
        walk repo renderer depth (approach.follow repo renderer e) s arrival.definition.edges >>=
          fun below => walk repo renderer (depth + 1) approach
            (arrival.enter repo renderer approach e below) rest := by
  rw [walk, List.foldlM_cons, visit_eq_arrive]
  cases arrive repo renderer approach s e with
  | error fault => rfl
  | ok found =>
      cases found with
      | none => rfl
      | some arrival =>
          dsimp only
          cases walk repo renderer depth (approach.follow repo renderer e) s
            arrival.definition.edges <;> rfl

theorem Walks.pos (run : Walks repo renderer approach s edges nested outcome) : 0 < nested := by
  induction run <;> omega

theorem walk_zero_eq (positive : 0 < nested) :
    walk repo renderer 0 approach s edges =
      if nested ≤ 0 then outcome else .error .interfaceCycle :=
  (if_neg (Nat.not_le.mpr positive)).symm

/-- A limit that is not met is as good as none. -/
theorem exists_walks_of_walk (depth : Nat)
    (within : walk repo renderer depth approach s edges ≠ .error .interfaceCycle) :
    ∃ nested, nested ≤ depth ∧
      Walks repo renderer approach s edges nested
        (walk repo renderer depth approach s edges) := by
  -- The walk below an edge has one level less; the edges behind it have the same limit.
  induction depth generalizing approach s edges with
  | zero => exact absurd rfl within
  | succ depth below =>
      induction edges generalizing s with
      | nil => exact ⟨1, Nat.le_add_left 1 depth, .done⟩
      | cons e rest behind =>
          rw [walk_succ_cons] at within ⊢
          cases arrived : arrive repo renderer approach s e with
          | error fault => exact ⟨1, Nat.le_add_left 1 depth, .stops arrived⟩
          | ok found =>
              cases found with
              | none =>
                  simp only [arrived] at within
                  obtain ⟨nested, short, run⟩ := behind within
                  exact ⟨nested, short, .passes arrived run⟩
              | some arrival =>
                  simp only [arrived] at within ⊢
                  obtain ⟨nested, short, run⟩ := below (ne_error_of_bind within)
                  cases walked : walk repo renderer depth (approach.follow repo renderer e) s
                      arrival.definition.edges with
                  | error fault =>
                      exact ⟨nested + 1, Nat.succ_le_succ short,
                        .stopsBelow arrived (walked ▸ run)⟩
                  | ok under =>
                      simp only [walked] at within
                      obtain ⟨later, shortToo, runToo⟩ := behind within
                      exact ⟨max (nested + 1) later,
                        Nat.max_le.mpr ⟨Nat.succ_le_succ short, shortToo⟩,
                        .enters arrived (walked ▸ run) runToo⟩

theorem Walks.walk_eq (run : Walks repo renderer approach s edges nested outcome) (depth : Nat) :
    walk repo renderer depth approach s edges =
      if nested ≤ depth then outcome else .error .interfaceCycle := by
  induction run generalizing depth with
  | done =>
      cases depth with
      | zero => rfl
      | succ depth => exact (if_pos (Nat.le_add_left 1 depth)).symm
  | stops arrived =>
      cases depth with
      | zero => rfl
      | succ depth =>
          rw [walk_succ_cons, arrived, if_pos (Nat.le_add_left 1 depth)]
  | passes arrived run ih =>
      cases depth with
      | zero => exact walk_zero_eq run.pos
      | succ depth =>
          rw [walk_succ_cons, arrived]
          exact ih (depth + 1)
  | stopsBelow arrived run ih =>
      cases depth with
      | zero => exact walk_zero_eq (Nat.succ_pos _)
      | succ depth =>
          rw [walk_succ_cons, arrived]
          dsimp only
          rw [ih depth]
          simp only [Nat.succ_le_succ_iff]
          split <;> rfl
  | @enters _ _ _ _ _ _ nested later _ arrived run onward ihBelow ihOnward =>
      cases depth with
      | zero => exact walk_zero_eq (by omega)
      | succ depth =>
          rw [walk_succ_cons, arrived]
          dsimp only
          rw [ihBelow depth]
          by_cases short : nested ≤ depth
          · rw [if_pos short]
            simp only [Nat.max_le, Nat.succ_le_succ short, true_and]
            exact ihOnward (depth + 1)
          · rw [if_neg short, if_neg (by omega)]
            rfl

theorem walksType_limits (base : Bool) :
    (walksType repo renderer base s edges).Limits fun depth =>
      walk repo renderer depth (.start base) s edges where
  sound := exists_walks_of_walk
  complete _ _ run := run.walk_eq

theorem addsBase_limits (h : Handle) :
    (addsBase repo renderer s h).Limits fun depth => addBaseWithin repo renderer depth s h :=
  (Nesting.Limits.quietly (repo.get h)).bind fun _ => walksType_limits true

/-- A resolution with a limit does the same as without, or stops at the limit. -/
theorem resolves_limits (h : Handle) :
    (Resolves repo renderer h).Limits (ofTypeWithin repo renderer h) :=
  (Nesting.Limits.quietly (repo.get h)).bind fun d =>
    (Nesting.Limits.quietly d.checkDefault).bind fun _ =>
      (walksType_limits false).bind fun own =>
        (Nesting.Limits.quietly (d.bases repo)).bind fun handles =>
          .foldlM (fun _ base => addsBase_limits base) handles own

/-! ## The limit is not met -/

/-- No resolution stops at the limit where no interface requires itself. -/
theorem ofType_ne_interfaceCycle (closed : repo.Closed) (acyclic : repo.Acyclic) (h : Handle) :
    ofType repo renderer h ≠ .error .interfaceCycle := by
  intro failed
  cases known : repo.get? h with
  | none => simp [ofType, Repository.get, known, bind, Except.bind] at failed
  | some d =>
      rw [ofType_eq_ofDefinition known] at failed
      rcases d.checkDefault_cases with ⟨_, unmarked⟩ | ⟨_, hasDefault⟩
      · simp [ofDefinition, unmarked, bind, Except.bind] at failed
      · obtain ⟨_, _, _, _, _, _, same⟩ :=
          exists_absent_of_ofDefinition closed acyclic (closed.issued known) hasDefault failed
        cases same

variable (renderer) in
/-- Where no interface requires itself, the resolution of a type comes to an end without a limit on
the walks, in one way, and its walks nest no deeper than the repository has types, and one more.
So it is the same with that limit, or with any higher one. -/
theorem ofType_nesting_bounded (closed : repo.Closed) (acyclic : repo.Acyclic) (h : Handle) :
    (∃ nested, Resolves repo renderer h nested (ofType repo renderer h)) ∧
      (∀ nested outcome, Resolves repo renderer h nested outcome →
        nested ≤ repo.size + 1 ∧ outcome = ofType repo renderer h ∧
          ∀ depth, ofTypeWithin repo renderer h depth =
            if nested ≤ depth then outcome else .error .interfaceCycle) ∧
      ∀ depth, repo.size < depth → ofTypeWithin repo renderer h depth = ofType repo renderer h := by
  have limits : (Resolves repo renderer h).Limits (ofTypeWithin repo renderer h) :=
    resolves_limits h
  have within : ofType repo renderer h ≠ .error .interfaceCycle :=
    ofType_ne_interfaceCycle closed acyclic h
  rw [← ofTypeWithin_size] at within ⊢
  obtain ⟨nested, short, run⟩ := limits.sound (repo.size + 1) within
  refine ⟨⟨nested, run⟩, ?_, ?_⟩
  · intro nested outcome run
    have limited := limits.complete nested outcome run
    by_cases short : nested ≤ repo.size + 1
    · exact ⟨short, ((limited _).trans (if_pos short)).symm, limited⟩
    · exact absurd ((limited _).trans (if_neg short)) within
  · intro depth enough
    rw [limits.complete nested _ run depth, if_pos (short.trans enough)]

end

/-- Prints the first six characters only, so that all generic interfaces share one name. -/
def blurred : Renderer := Renderer.display.map fun text => String.ofList (text.toList.take 6)

/-- A tray, at handle 3, that is a box, and so a bag of bags.  It is based on the rack, and the rack
is based on it. -/
def trays : Repository := .ofList [
  .interfaceNamed "Demo" "IThing" [],
  .interfaceNamed "Coll" "IBag`1" [⟨.named ⟨"Demo", "IThing"⟩, []⟩],
  .interfaceNamed "Coll" "IBox`1"
    [⟨.inst (.named ⟨"Coll", "IBag`1"⟩) [.inst (.named ⟨"Coll", "IBag`1"⟩) [.param 0]], []⟩],
  ⟨⟨"Demo", "Tray"⟩, .classType, [], some (.named ⟨"Demo", "Rack"⟩),
    [.markDefault ⟨.inst (.handle ⟨2⟩) [.element .int32], []⟩], [], [], []⟩,
  ⟨⟨"Demo", "Rack"⟩, .classType, [], some (.named ⟨"Demo", "Tray"⟩),
    [.markDefault ⟨.inst (.named ⟨"Coll", "IBag`1"⟩) [.element .string], []⟩], [], [], []⟩]

/-- Nothing is entered before the walk has come down to the thing, so the name that the box shares
with the bag does not keep it out: there are the walks of the tray, the box, the bag and the thing,
one inside the other. -/
theorem ofType_nesting_bounded_of_trays :
    trays.Closed ∧ trays.Acyclic ∧ trays.size = 5 ∧
      ∃ s, ofType trays blurred ⟨3⟩ = .ok s ∧
        s.names = ["Demo.I", "Coll.I"] ∧
        Resolves trays blurred ⟨3⟩ 4 (.ok s) ∧
        ofTypeWithin trays blurred ⟨3⟩ 3 = .error .interfaceCycle ∧
        ∀ depth, 4 ≤ depth → ofTypeWithin trays blurred ⟨3⟩ depth = .ok s := by
  have closed : trays.Closed := by decide
  have acyclic : trays.Acyclic := Repository.acyclic_of_descending (by decide)
  obtain ⟨s, found, names, tooShort, enough⟩ : ∃ s, ofType trays blurred ⟨3⟩ = .ok s ∧
      s.names = ["Demo.I", "Coll.I"] ∧
      ofTypeWithin trays blurred ⟨3⟩ 3 = .error .interfaceCycle ∧
      ofTypeWithin trays blurred ⟨3⟩ 4 = .ok s := ⟨_, rfl, by decide, rfl, rfl⟩
  obtain ⟨⟨nested, run⟩, bounded, _⟩ := ofType_nesting_bounded blurred closed acyclic ⟨3⟩
  obtain ⟨_, _, limited⟩ := bounded nested _ run
  rw [found] at run limited
  have deep : ¬ nested ≤ 3 := by
    intro short
    cases tooShort.symm.trans ((limited 3).trans (if_pos short))
  have flat : nested ≤ 4 := by
    apply Decidable.byContradiction
    intro deeper
    cases enough.symm.trans ((limited 4).trans (if_neg deeper))
  obtain rfl : nested = 4 := by omega
  exact ⟨closed, acyclic, rfl, s, found, names, run, tooShort,
    fun depth enough => (limited depth).trans (if_pos enough)⟩

end Surface
end InterfaceSurface
