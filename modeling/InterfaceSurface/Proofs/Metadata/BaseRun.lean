import InterfaceSurface.Proofs.Metadata.BaseChain

/-! # The climb without a limit

`Climbs` is the climb as a loop that goes on until something stops it, with no limit on its
steps.  It stops for every type: what was found is listed once, and only issued handles are
listed, so there are never more of them than the repository has types (`climbs_of_climb`).
Hence the limit of `bases` is never reached, and the loop finds what `bases` finds.

A list of base classes is complete if each member is the base class of the one before it, no
member comes twice, and the last one has no base class that could be added (`IsBaseRun`).
There is just one such list unless the base of some type on the chain is missing, and then
`bases` fails with that name (`bases_eq_maximal_run`). -/
set_option autoImplicit false
namespace InterfaceSurface

open Relation (ReflTransGen)

/-- The climb from a type where some base classes were found before, closest first. -/
inductive Repository.Climbs (repo : Repository) :
    List Handle → TypeDef → Except Fault (List Handle) → Prop
  | fails {found : List Handle} {d : TypeDef} {fault : Fault} :
      d.baseClass? repo = .error fault → Climbs repo found d (.error fault)
  | ends {found : List Handle} {d : TypeDef} :
      d.baseClass? repo = .ok none → Climbs repo found d (.ok found)
  | returns {found : List Handle} {d : TypeDef} {h : Handle} :
      d.baseClass? repo = .ok (some h) → h ∈ found → Climbs repo found d (.ok found)
  | strays {found : List Handle} {d : TypeDef} {h : Handle} {fault : Fault} :
      d.baseClass? repo = .ok (some h) → h ∉ found → repo.get h = .error fault →
      Climbs repo found d (.error fault)
  | goesOn {found : List Handle} {d base : TypeDef} {h : Handle}
      {outcome : Except Fault (List Handle)} :
      d.baseClass? repo = .ok (some h) → h ∉ found → repo.get h = .ok base →
      Climbs repo (found ++ [h]) base outcome → Climbs repo found d outcome

namespace TypeDef

/-- The type that is reached after some steps: the type itself, and then its base classes. -/
def afterSteps? (d : TypeDef) (repo : Repository) (handles : List Handle) : Nat → Option TypeDef
  | 0 => some d
  | steps + 1 => handles[steps]?.bind repo.get?

/-- Each handle is the base class of the type before it, and none comes twice. -/
structure IsBasePath (d : TypeDef) (repo : Repository) (handles : List Handle) (last : TypeDef) :
    Prop where
  distinct : handles.Nodup
  follows : ∀ place h, handles[place]? = some h →
    ∃ before, d.afterSteps? repo handles place = some before ∧
      before.baseClass? repo = .ok (some h)
  reaches : d.afterSteps? repo handles handles.length = some last

/-- No base, or `System.Object`. -/
def IsRoot (d : TypeDef) (repo : Repository) : Prop :=
  ∀ ref, d.base = some ref → repo.nameOf ref = .ok TypeName.systemObject

/-- A path that no other base class can be added to. -/
def IsBaseRun (d : TypeDef) (repo : Repository) (handles : List Handle) : Prop :=
  ∃ last, d.IsBasePath repo handles last ∧
    (last.IsRoot repo ∨ ∃ h ∈ handles, last.baseClass? repo = .ok (some h))

end TypeDef

section
variable {repo : Repository} {d base : TypeDef} {found handles : List Handle}

theorem TypeDef.baseClass?_eq_none_iff : d.baseClass? repo = .ok none ↔ d.IsRoot repo := by
  cases extended : d.base with
  | none => simp [baseClass?, IsRoot, extended]
  | some ref =>
      cases named : repo.nameOf ref with
      | error fault => simp [baseClass?, IsRoot, extended, named, bind, Except.bind]
      | ok name =>
          by_cases root : name = TypeName.systemObject
          · simp [baseClass?, IsRoot, extended, named, root, bind, Except.bind, pure, Except.pure]
          · cases resolved : repo.resolve ref <;>
              simp [baseClass?, IsRoot, extended, named, root, resolved, bind, Except.bind, pure,
                Except.pure]

/-! ## The limit is never reached -/

theorem Repository.Climbs.unique {one other : Except Fault (List Handle)}
    (run : repo.Climbs found d one) (runToo : repo.Climbs found d other) : one = other := by
  induction run with
  | fails failed => cases runToo <;> simp_all
  | ends stops => cases runToo <;> simp_all
  | returns steps before => cases runToo <;> simp_all
  | strays steps fresh lost => cases runToo <;> simp_all
  | goesOn steps fresh known _ ih =>
      cases runToo with
      | goesOn stepsToo _ knownToo onward =>
          cases steps.symm.trans stepsToo
          cases known.symm.trans knownToo
          exact ih onward
      | _ => simp_all

/-- One step of a climb that has a step left. -/
theorem climbs_step {steps : Nat}
    (onward : ∀ h base, h ∉ found → repo.get h = .ok base →
      repo.Climbs (found ++ [h]) base
        ((repo.climb steps (found ++ [h]).reverse base).map (found ++ [h] ++ ·))) :
    repo.Climbs found d ((repo.climb (steps + 1) found.reverse d).map (found ++ ·)) := by
  have nothing : (.ok found : Except Fault (List Handle)) = (Except.ok []).map (found ++ ·) := by
    simp [Except.map]
  have together : ∀ (h : Handle) (later : Except Fault (List Handle)),
      (later.map (h :: ·)).map (found ++ ·) = later.map (found ++ [h] ++ ·) := by
    intro h later
    cases later <;> simp [Except.map]
  rw [Repository.climb_succ]
  cases stepped : d.baseClass? repo with
  | error fault => exact .fails stepped
  | ok next =>
      cases next with
      | none => exact nothing ▸ .ends stepped
      | some h =>
          simp only [List.mem_reverse]
          split
          case isTrue before => exact nothing ▸ .returns stepped before
          case isFalse fresh =>
            cases known : repo.get h with
            | error fault => exact .strays stepped fresh known
            | ok base =>
                dsimp only
                rw [together, ← List.reverse_concat']
                exact .goesOn stepped fresh known (onward h base fresh known)

/-- With enough steps left, a climb does what it does without a limit. -/
theorem climbs_of_climb {steps : Nat} (distinct : found.Nodup)
    (issued : ∀ h ∈ found, repo.Issued h) (enough : repo.size < steps + found.length) :
    repo.Climbs found d ((repo.climb steps found.reverse d).map (found ++ ·)) := by
  induction steps generalizing found d with
  | zero =>
      -- More distinct handles would have been found than were issued.
      have bound := Repository.length_le_of_issued distinct issued
      omega
  | succ steps ih =>
      apply climbs_step
      intro h base fresh known
      apply ih
      · exact List.concat_eq_append ▸ distinct.concat fresh
      · intro other listed
        rcases List.mem_append.mp listed with before | isNext
        · exact issued other before
        · cases List.mem_singleton.mp isNext
          exact Repository.issued_iff.mpr ⟨base, Repository.get_eq_ok_iff.mp known⟩
      · rw [List.length_append, List.length_singleton]
        omega

/-- The loop stops, and finds what `bases` finds. -/
theorem climbs_iff_bases {outcome : Except Fault (List Handle)} :
    repo.Climbs [] d outcome ↔ d.bases repo = outcome := by
  have same : ∀ result : Except Fault (List Handle), result.map ([] ++ ·) = result := by
    intro result
    cases result <;> rfl
  have run : repo.Climbs [] d ((d.bases repo).map ([] ++ ·)) :=
    climbs_of_climb .nil (by simp) (by simp)
  rw [same] at run
  constructor
  · exact run.unique
  · rintro rfl
    exact run

/-! ## Paths -/

theorem TypeDef.afterSteps?_append {more : List Handle} {steps : Nat}
    (inside : steps ≤ found.length) :
    d.afterSteps? repo (found ++ more) steps = d.afterSteps? repo found steps := by
  cases steps with
  | zero => rfl
  | succ steps => rw [afterSteps?, afterSteps?, List.getElem?_append_left inside]

theorem TypeDef.isBasePath_nil_iff {last : TypeDef} : d.IsBasePath repo [] last ↔ last = d := by
  constructor
  · intro path
    exact (Option.some.inj path.reaches).symm
  · rintro rfl
    exact ⟨.nil, by simp, rfl⟩

/-- A path is a shorter one and one more step. -/
theorem TypeDef.isBasePath_concat_iff {h : Handle} {last : TypeDef} :
    d.IsBasePath repo (found ++ [h]) last ↔
      ∃ before, d.IsBasePath repo found before ∧ before.baseClass? repo = .ok (some h) ∧
        h ∉ found ∧ repo.get? h = some last := by
  have atEnd : (found ++ [h])[found.length]? = some h := List.getElem?_concat_length
  have afterEnd : d.afterSteps? repo (found ++ [h]) (found ++ [h]).length = repo.get? h := by
    rw [List.length_append, List.length_singleton, afterSteps?, atEnd, Option.bind_some]
  constructor
  · intro path
    obtain ⟨before, reaches, steps⟩ := path.follows _ _ atEnd
    rw [afterSteps?_append (Nat.le_refl _)] at reaches
    refine ⟨before, ⟨?_, ?_, reaches⟩, steps, ?_, ?_⟩
    · exact (List.nodup_append.mp path.distinct).1
    · intro place other stands
      have inside : place < found.length := (List.getElem?_eq_some_iff.mp stands).1
      rw [← afterSteps?_append (Nat.le_of_lt inside)]
      exact path.follows place other ((List.getElem?_append_left inside).trans stands)
    · exact fun listed => (List.nodup_append.mp path.distinct).2.2 h listed h (by simp) rfl
    · exact afterEnd ▸ path.reaches
  · rintro ⟨before, path, steps, fresh, known⟩
    refine ⟨List.concat_eq_append ▸ path.distinct.concat fresh, ?_, afterEnd.trans known⟩
    intro place other stands
    rcases Nat.lt_or_ge place found.length with inside | behind
    · rw [List.getElem?_append_left inside] at stands
      rw [afterSteps?_append (Nat.le_of_lt inside)]
      exact path.follows place other stands
    · have bound := (List.getElem?_eq_some_iff.mp stands).1
      rw [List.length_append, List.length_singleton] at bound
      obtain rfl : place = found.length := by omega
      cases Option.some.inj (stands.symm.trans atEnd)
      rw [afterSteps?_append (Nat.le_refl _)]
      exact ⟨before, path.reaches, steps⟩

/-- What a path lists was issued. -/
theorem TypeDef.IsBasePath.issued {last : TypeDef} (path : d.IsBasePath repo handles last) :
    ∀ h ∈ handles, repo.Issued h := by
  induction handles using List.reverseRecOn generalizing last with
  | nil => simp
  | append_singleton front h ih =>
      obtain ⟨before, shorter, _, _, known⟩ := isBasePath_concat_iff.mp path
      intro other listed
      rcases List.mem_append.mp listed with inFront | isLast
      · exact ih shorter other inFront
      · cases List.mem_singleton.mp isLast
        exact Repository.issued_iff.mpr ⟨last, known⟩

/-- From the end of a path, the climb goes on as from its start. -/
theorem TypeDef.IsBasePath.climbs {last : TypeDef} {outcome : Except Fault (List Handle)}
    (path : d.IsBasePath repo handles last) (onward : repo.Climbs handles last outcome) :
    repo.Climbs [] d outcome := by
  induction handles using List.reverseRecOn generalizing last with
  | nil => exact isBasePath_nil_iff.mp path ▸ onward
  | append_singleton front h ih =>
      obtain ⟨before, shorter, steps, fresh, known⟩ := isBasePath_concat_iff.mp path
      exact ih shorter (.goesOn steps fresh (Repository.get_eq_ok_iff.mpr known) onward)

/-- A climb that succeeds goes on with the path until it can no further. -/
theorem isBaseRun_of_climbs {last : TypeDef} {outcome : Except Fault (List Handle)}
    (run : repo.Climbs found last outcome) (path : d.IsBasePath repo found last)
    (succeeds : outcome = .ok handles) : d.IsBaseRun repo handles := by
  induction run with
  | fails failed => cases succeeds
  | ends stops =>
      cases succeeds
      exact ⟨_, path, .inl (TypeDef.baseClass?_eq_none_iff.mp stops)⟩
  | returns steps before =>
      cases succeeds
      exact ⟨_, path, .inr ⟨_, before, steps⟩⟩
  | strays steps fresh lost => cases succeeds
  | goesOn steps fresh known _ ih =>
      exact ih (TypeDef.isBasePath_concat_iff.mpr
        ⟨_, path, steps, fresh, Repository.get_eq_ok_iff.mp known⟩) succeeds

theorem bases_eq_ok_iff_isBaseRun : d.bases repo = .ok handles ↔ d.IsBaseRun repo handles := by
  rw [← climbs_iff_bases]
  constructor
  · intro run
    exact isBaseRun_of_climbs run (TypeDef.isBasePath_nil_iff.mpr rfl) rfl
  · rintro ⟨last, path, root | ⟨h, before, steps⟩⟩
    · exact path.climbs (.ends (TypeDef.baseClass?_eq_none_iff.mpr root))
    · exact path.climbs (.returns steps before)

/-! ## Steps on the chain -/

theorem issued_of_onBaseChain (closed : repo.Closed) (issued : ∀ h ∈ d.handles, repo.Issued h)
    (above : d.OnBaseChain repo base) : ∀ h ∈ base.handles, repo.Issued h := by
  induction above with
  | refl => exact issued
  | tail _ extend _ =>
      obtain ⟨_, _, _, _, known⟩ := extend
      exact closed.issued known

theorem TypeDef.Extends.unique {one other : TypeDef} (extend : d.Extends repo one)
    (extendToo : d.Extends repo other) : one = other := by
  obtain ⟨_, _, follows, resolved, known⟩ := extend
  obtain ⟨_, _, followsToo, resolvedToo, knownToo⟩ := extendToo
  cases Option.some.inj (follows.symm.trans followsToo)
  cases Except.ok.inj (resolved.symm.trans resolvedToo)
  exact Option.some.inj (known.symm.trans knownToo)

/-- The chain goes on to what a step comes to. -/
theorem TypeDef.extends_iff (issued : ∀ h ∈ d.handles, repo.Issued h) :
    d.Extends repo base ↔ ∃ h, d.baseClass? repo = .ok (some h) ∧ repo.get? h = some base := by
  rw [TypeDef.baseClass?_eq issued]
  constructor
  · rintro ⟨ref, h, follows, resolved, known⟩
    exact ⟨h, by simp [follows, resolved, Except.map], known⟩
  · rintro ⟨h, steps, known⟩
    cases follows : d.baseRef? repo with
    | none => simp [follows] at steps
    | some ref =>
        cases resolved : repo.resolve ref with
        | error fault => simp [follows, resolved, Except.map] at steps
        | ok target =>
            simp only [follows, resolved, Except.map, Except.ok.injEq, Option.some.injEq] at steps
            exact ⟨ref, h, follows, steps ▸ resolved, known⟩

theorem TypeDef.not_extends_of_fails (issued : ∀ h ∈ d.handles, repo.Issued h) {fault : Fault}
    (failed : d.baseClass? repo = .error fault) : ¬ d.Extends repo base := by
  intro extend
  obtain ⟨h, steps, _⟩ := (TypeDef.extends_iff issued).mp extend
  cases failed.symm.trans steps

/-- A step can only fail at a name that is absent. -/
theorem TypeDef.exists_absent_of_baseClass? (issued : ∀ h ∈ d.handles, repo.Issued h)
    {fault : Fault} (failed : d.baseClass? repo = .error fault) :
    ∃ ref name, d.base = some ref ∧ repo.nameOf ref = .ok name ∧ repo.find? name = none ∧
      fault = .unresolved name := by
  rw [TypeDef.baseClass?_eq issued] at failed
  cases follows : d.baseRef? repo with
  | none =>
      rw [follows] at failed
      cases failed
  | some ref =>
      rw [follows] at failed
      cases resolved : repo.resolve ref with
      | ok h => simp [resolved, Except.map] at failed
      | error cause =>
          simp only [resolved, Except.map, Except.error.injEq] at failed
          subst failed
          obtain ⟨name, named, absent, rfl⟩ := Repository.exists_absent_of_resolve resolved
          exact ⟨ref, name, TypeDef.base_of_baseRef? follows, named, absent, rfl⟩

/-- A failing climb fails at a step on the chain. -/
theorem exists_failing_step_of_bases (closed : repo.Closed)
    (issued : ∀ h ∈ d.handles, repo.Issued h) {fault : Fault}
    (failed : d.bases repo = .error fault) :
    ∃ base, d.OnBaseChain repo base ∧ base.baseClass? repo = .error fault := by
  obtain ⟨base, ref, above, follows, unresolved⟩ := exists_dangling_of_bases closed issued failed
  refine ⟨base, above, ?_⟩
  rw [TypeDef.baseClass?_eq (issued_of_onBaseChain closed issued above), follows]
  simp [unresolved, Except.map]

/-- If the climb succeeds, so do all steps on the chain. -/
theorem exists_step_of_bases (closed : repo.Closed) (issued : ∀ h ∈ d.handles, repo.Issued h)
    (climbed : d.bases repo = .ok handles) (above : d.OnBaseChain repo base) :
    ∃ next, base.baseClass? repo = .ok next := by
  have continues := (mem_of_bases closed issued climbed above).2
  rw [TypeDef.baseClass?_eq (issued_of_onBaseChain closed issued above)]
  cases follows : base.baseRef? repo with
  | none => exact ⟨none, rfl⟩
  | some ref =>
      obtain ⟨h, _, resolved⟩ := continues ref follows
      exact ⟨some h, by simp [resolved, Except.map]⟩

/-- The chain has one end, so where a step fails the climb does. -/
theorem bases_eq_error_of_step (closed : repo.Closed) (issued : ∀ h ∈ d.handles, repo.Issued h)
    {fault : Fault} (above : d.OnBaseChain repo base)
    (failed : base.baseClass? repo = .error fault) : d.bases repo = .error fault := by
  cases climbed : d.bases repo with
  | ok handles =>
      obtain ⟨next, steps⟩ := exists_step_of_bases closed issued climbed above
      cases failed.symm.trans steps
  | error cause =>
      obtain ⟨other, aboveToo, failedToo⟩ := exists_failing_step_of_bases closed issued climbed
      have stuck : ∀ next, ¬ base.Extends repo next := fun _ =>
        TypeDef.not_extends_of_fails (issued_of_onBaseChain closed issued above) failed
      have stuckToo : ∀ next, ¬ other.Extends repo next := fun _ =>
        TypeDef.not_extends_of_fails (issued_of_onBaseChain closed issued aboveToo) failedToo
      have unique : Relator.RightUnique (TypeDef.Extends repo) :=
        fun _ _ _ => TypeDef.Extends.unique
      -- Of two types on the chain one is reached from the other, and from neither goes a step on.
      have same : base = other := by
        rcases ReflTransGen.total_of_right_unique unique above aboveToo with onward | onward
        · rcases onward.cases_head with same | ⟨next, extend, _⟩
          · exact same
          · exact absurd extend (stuck next)
        · rcases onward.cases_head with same | ⟨next, extend, _⟩
          · exact same.symm
          · exact absurd extend (stuckToo next)
      subst same
      exact congrArg Except.error (Except.error.inj (failedToo.symm.trans failed))

/-- The climb always stops.  It succeeds just if all steps on the base chain do, and then what it
finds is the one path of base classes, none of them twice, that cannot be gone on with; and where
a step fails, it fails with the name that is absent there. -/
theorem bases_eq_maximal_run (closed : repo.Closed) (issued : ∀ h ∈ d.handles, repo.Issued h) :
    (∀ outcome, repo.Climbs [] d outcome ↔ d.bases repo = outcome) ∧
      ((∃ handles, d.bases repo = .ok handles) ↔
        ∀ base, d.OnBaseChain repo base → ∃ next, base.baseClass? repo = .ok next) ∧
      (∀ handles, d.bases repo = .ok handles ↔ d.IsBaseRun repo handles) ∧
      (∀ handles, d.bases repo = .ok handles → handles.length ≤ repo.size) ∧
      ∀ base fault, d.OnBaseChain repo base → base.baseClass? repo = .error fault →
        ∃ ref name, base.base = some ref ∧ repo.nameOf ref = .ok name ∧
          repo.find? name = none ∧ d.bases repo = .error (.unresolved name) := by
  refine ⟨fun _ => climbs_iff_bases, ⟨?_, ?_⟩, fun _ => bases_eq_ok_iff_isBaseRun, ?_, ?_⟩
  · rintro ⟨handles, climbed⟩ base above
    exact exists_step_of_bases closed issued climbed above
  · intro resolves
    cases climbed : d.bases repo with
    | ok handles => exact ⟨handles, rfl⟩
    | error fault =>
        obtain ⟨base, above, failed⟩ := exists_failing_step_of_bases closed issued climbed
        obtain ⟨next, steps⟩ := resolves base above
        cases failed.symm.trans steps
  · intro handles climbed
    obtain ⟨last, path, _⟩ := bases_eq_ok_iff_isBaseRun.mp climbed
    exact Repository.length_le_of_issued path.distinct path.issued
  · intro base fault above failed
    obtain ⟨ref, name, extended, named, absent, rfl⟩ :=
      TypeDef.exists_absent_of_baseClass? (issued_of_onBaseChain closed issued above) failed
    exact ⟨ref, name, extended, named, absent, bases_eq_error_of_step closed issued above failed⟩

end

/-- A class that has a base and nothing else. -/
def TypeDef.ofBase (name : String) (base : TypeRef) : TypeDef :=
  ⟨⟨"Demo", name⟩, .classType, [], some base, [], [], [], []⟩

/-- The chain of the button, at handle 0, goes round from its second class on; that of the slider,
at handle 3, is torn. -/
def chains : Repository := .ofList [
  .ofBase "Button" (.named ⟨"Demo", "Control"⟩),
  .ofBase "Control" (.handle ⟨2⟩),
  .ofBase "View" (.named ⟨"Demo", "Control"⟩),
  .ofBase "Slider" (.named ⟨"Demo", "Range"⟩),
  .ofBase "Range" (.named ⟨"Demo", "Gone"⟩)]

theorem bases_eq_maximal_run_of_chains :
    chains.Closed ∧
      (∃ button, chains.get? ⟨0⟩ = some button ∧ (∀ h ∈ button.handles, chains.Issued h) ∧
        chains.Climbs [] button (.ok [⟨1⟩, ⟨2⟩]) ∧ button.IsBaseRun chains [⟨1⟩, ⟨2⟩] ∧
        ∀ base, button.OnBaseChain chains base → ∃ next, base.baseClass? chains = .ok next) ∧
      ∃ slider range, chains.get? ⟨3⟩ = some slider ∧ chains.get? ⟨4⟩ = some range ∧
        (∀ h ∈ slider.handles, chains.Issued h) ∧ slider.OnBaseChain chains range ∧
        chains.Climbs [] slider (.error (.unresolved ⟨"Demo", "Gone"⟩)) ∧
        ¬ ∃ handles, slider.IsBaseRun chains handles := by
  have closed : chains.Closed := by decide
  refine ⟨closed, ?_, ?_⟩
  · obtain ⟨button, known, issued, climbed⟩ : ∃ button, chains.get? ⟨0⟩ = some button ∧
        (∀ h ∈ button.handles, chains.Issued h) ∧ button.bases chains = .ok [⟨1⟩, ⟨2⟩] :=
      ⟨_, rfl, by decide, rfl⟩
    obtain ⟨loop, resolves, run, _⟩ := bases_eq_maximal_run closed issued
    exact ⟨button, known, issued, (loop _).mpr climbed, (run _).mp climbed,
      resolves.mp ⟨_, climbed⟩⟩
  · obtain ⟨slider, range, known, knownToo, issued, extend, torn, failed⟩ : ∃ slider range,
        chains.get? ⟨3⟩ = some slider ∧ chains.get? ⟨4⟩ = some range ∧
        (∀ h ∈ slider.handles, chains.Issued h) ∧ slider.Extends chains range ∧
        range.base = some (.named ⟨"Demo", "Gone"⟩) ∧
        range.baseClass? chains = .error (.unresolved ⟨"Demo", "Gone"⟩) :=
      ⟨_, _, rfl, rfl, by decide, ⟨_, ⟨4⟩, rfl, rfl, rfl⟩, rfl, rfl⟩
    have above : slider.OnBaseChain chains range := .single extend
    obtain ⟨loop, _, run, _, stops⟩ := bases_eq_maximal_run closed issued
    obtain ⟨ref, name, tornToo, named, _, stopped⟩ := stops range _ above failed
    cases Option.some.inj (torn.symm.trans tornToo)
    cases named
    refine ⟨slider, range, known, knownToo, issued, above, (loop _).mpr stopped, ?_⟩
    rintro ⟨handles, isRun⟩
    cases stopped.symm.trans ((run handles).mpr isRun)

end InterfaceSurface
