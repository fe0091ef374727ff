import InterfaceSurface.Naming.Renderer
import Mathlib.Data.List.Forall2

/-! # Taking an outcome apart

An answer put together from others is there only when they all are, and a fault is
the fault of one of them.  These lemmas lead from an outcome back to its parts. -/
set_option autoImplicit false
namespace InterfaceSurface

theorem bind_eq_ok_iff {α β : Type} {first : Except Fault α} {next : α → Except Fault β}
    {answer : β} :
    first >>= next = .ok answer ↔ ∃ part, first = .ok part ∧ next part = .ok answer := by
  cases first with
  | error fault => simp [bind, Except.bind]
  | ok part => simp [bind, Except.bind]

theorem bind_eq_error_iff {α β : Type} {first : Except Fault α} {next : α → Except Fault β}
    {fault : Fault} :
    first >>= next = .error fault ↔
      first = .error fault ∨ ∃ part, first = .ok part ∧ next part = .error fault := by
  cases first with
  | error other => simp [bind, Except.bind]
  | ok part => simp [bind, Except.bind]

theorem ne_error_of_bind {α β : Type} {first : Except Fault α} {next : α → Except Fault β}
    {fault : Fault} (whole : first >>= next ≠ .error fault) : first ≠ .error fault :=
  fun failed => whole (bind_eq_error_iff.mpr (.inl failed))

theorem exists_map_eq_ok_iff {α β : Type} {part : α → β} {outcome : Except Fault α} :
    (∃ answer, outcome.map part = .ok answer) ↔ ∃ answer, outcome = .ok answer := by
  cases outcome <;> simp [Except.map]

theorem foldlM_cons_eq_ok_iff {α σ : Type} {step : σ → α → Except Fault σ} {item : α}
    {rest : List α} {start finish : σ} :
    (item :: rest).foldlM step start = .ok finish ↔
      ∃ middle, step start item = .ok middle ∧ rest.foldlM step middle = .ok finish := by
  rw [List.foldlM_cons, bind_eq_ok_iff]

/-- A run over a list that succeeds succeeds at each item. -/
theorem exists_step_of_foldlM_eq_ok {α σ : Type} {step : σ → α → Except Fault σ} {items : List α}
    {start finish : σ} (run : items.foldlM step start = .ok finish) {item : α}
    (listed : item ∈ items) : ∃ before after, step before item = .ok after := by
  induction items generalizing start with
  | nil => cases listed
  | cons first rest ih =>
      obtain ⟨middle, stepped, onward⟩ := foldlM_cons_eq_ok_iff.mp run
      rcases List.mem_cons.mp listed with rfl | later
      · exact ⟨start, middle, stepped⟩
      · exact ih onward later

/-- A run over a list fails at one of its items. -/
theorem exists_of_foldlM_eq_error {α σ : Type} {step : σ → α → Except Fault σ} {items : List α}
    {start : σ} {fault : Fault} (failed : items.foldlM step start = .error fault) :
    ∃ item ∈ items, ∃ middle, step middle item = .error fault := by
  induction items generalizing start with
  | nil => cases failed
  | cons item rest ih =>
      rw [List.foldlM_cons] at failed
      rcases bind_eq_error_iff.mp failed with first | ⟨middle, _, later⟩
      · exact ⟨item, by simp, start, first⟩
      · obtain ⟨other, listed, before, stops⟩ := ih later
        exact ⟨other, List.mem_cons_of_mem _ listed, before, stops⟩

/-- A search in which no test fails. -/
theorem anyM_of_ok {α : Type} {test : α → Except Fault Bool} {passes : α → Bool} {items : List α}
    (each : ∀ a ∈ items, test a = .ok (passes a)) : items.anyM test = .ok (items.any passes) := by
  induction items with
  | nil => rfl
  | cons a rest ih =>
      rw [List.anyM, each a List.mem_cons_self, List.any_cons,
        ih fun b listed => each b (List.mem_cons_of_mem _ listed)]
      cases passes a <;> rfl

/-! ## Runs over related lists -/

section
variable {α β σ : Type} {related : α → β → Prop} {items : List α} {others : List β}

theorem foldlM_eq_of_forall₂ {step : σ → α → Except Fault σ} {stepToo : σ → β → Except Fault σ}
    (same : ∀ start a b, related a b → step start a = stepToo start b)
    (alike : List.Forall₂ related items others) (start : σ) :
    items.foldlM step start = others.foldlM stepToo start := by
  induction alike generalizing start with
  | nil => rfl
  | cons first _ ih =>
      rw [List.foldlM_cons, List.foldlM_cons, same start _ _ first]
      exact congrArg _ (funext ih)

theorem anyM_eq_of_forall₂ {test : α → Except Fault Bool} {testToo : β → Except Fault Bool}
    (same : ∀ a b, related a b → test a = testToo b) (alike : List.Forall₂ related items others) :
    items.anyM test = others.anyM testToo := by
  induction alike with
  | nil => rfl
  | cons first _ ih => rw [List.anyM, List.anyM, same _ _ first, ih]

end

/-! ## Answers carried over

An answer put together from parts that are carried over is carried over. -/

section
variable {α β σ τ : Type} {carry : σ → τ}

theorem bind_eq_map {part : α → β} {first : Except Fault α} {firstToo : Except Fault β}
    {next : α → Except Fault σ} {nextToo : β → Except Fault τ} (parts : firstToo = first.map part)
    (onward : ∀ found, nextToo (part found) = (next found).map carry) :
    firstToo >>= nextToo = (first >>= next).map carry := by
  subst parts
  cases first with
  | error fault => rfl
  | ok found => exact onward found

theorem bind_eq_map_of_eq {first firstToo : Except Fault α} {next : α → Except Fault σ}
    {nextToo : α → Except Fault τ} (parts : firstToo = first)
    (onward : ∀ found, nextToo found = (next found).map carry) :
    firstToo >>= nextToo = (first >>= next).map carry := by
  subst parts
  cases firstToo with
  | error fault => rfl
  | ok found => exact onward found

theorem bind_eq_of_map {part : α → β} {first : Except Fault α} {firstToo : Except Fault β}
    {next : α → Except Fault σ} {nextToo : β → Except Fault σ} (parts : firstToo = first.map part)
    (onward : ∀ found, nextToo (part found) = next found) :
    firstToo >>= nextToo = first >>= next := by
  subst parts
  cases first with
  | error fault => rfl
  | ok found => exact onward found

theorem foldlM_eq_map {item : α → β} {step : σ → α → Except Fault σ}
    {stepToo : τ → β → Except Fault τ}
    (same : ∀ start a, stepToo (carry start) (item a) = (step start a).map carry) (items : List α)
    (start : σ) :
    (items.map item).foldlM stepToo (carry start) = (items.foldlM step start).map carry := by
  induction items generalizing start with
  | nil => rfl
  | cons a rest ih =>
      rw [List.map_cons, List.foldlM_cons, List.foldlM_cons]
      exact bind_eq_map (same start a) ih

theorem anyM_map_eq {item : α → β} {test : α → Except Fault Bool} {testToo : β → Except Fault Bool}
    (same : ∀ a, testToo (item a) = test a) (items : List α) :
    (items.map item).anyM testToo = items.anyM test := by
  induction items with
  | nil => rfl
  | cons a rest ih => rw [List.map_cons, List.anyM, List.anyM, same, ih]

end

/-! ## Answers that are kept -/

/-- What the first gives as an answer, the second gives as well; a fault of the first leaves the
second free. -/
def Kept {α : Type} (old new : Except Fault α) : Prop :=
  ∀ answer, old = .ok answer → new = .ok answer

namespace Kept

variable {α β σ : Type}

theorem of_eq {old new : Except Fault α} (same : old = new) : Kept old new :=
  fun _ found => same ▸ found

theorem of_error {fault : Fault} {new : Except Fault α} : Kept (.error fault) new := nofun

theorem bind {first firstToo : Except Fault α} {next nextToo : α → Except Fault β}
    (kept : Kept first firstToo)
    (onward : ∀ part, first = .ok part → Kept (next part) (nextToo part)) :
    Kept (first >>= next) (firstToo >>= nextToo) := by
  intro answer found
  obtain ⟨part, done, finished⟩ := bind_eq_ok_iff.mp found
  exact bind_eq_ok_iff.mpr ⟨part, kept part done, onward part done answer finished⟩

theorem map {old new : Except Fault α} (carry : α → β) (kept : Kept old new) :
    Kept (old.map carry) (new.map carry) := by
  intro answer found
  cases done : old with
  | error fault =>
      rw [done] at found
      cases found
  | ok part =>
      rw [kept part done, ← done]
      exact found

theorem foldlM {step stepToo : σ → α → Except Fault σ}
    (each : ∀ start item, Kept (step start item) (stepToo start item)) (items : List α)
    (start : σ) : Kept (items.foldlM step start) (items.foldlM stepToo start) := by
  induction items generalizing start with
  | nil => exact of_eq rfl
  | cons item rest ih =>
      rw [List.foldlM_cons, List.foldlM_cons]
      exact (each start item).bind fun middle _ => ih middle

theorem anyM {test testToo : α → Except Fault Bool} (each : ∀ item, Kept (test item) (testToo item))
    (items : List α) : Kept (items.anyM test) (items.anyM testToo) := by
  induction items with
  | nil => exact of_eq rfl
  | cons item rest ih =>
      rw [List.anyM, List.anyM]
      refine (each item).bind fun found _ => ?_
      cases found with
      | true => exact of_eq rfl
      | false => exact ih

end Kept

namespace Repository

theorem get_eq_ok_iff {repo : Repository} {h : Handle} {d : TypeDef} :
    repo.get h = .ok d ↔ repo.get? h = some d := by
  unfold get
  cases repo.get? h <;> simp

end Repository

/-- Whether printing succeeds does not change what is printed. -/
theorem Renderer.eq_type_of_name {renderer : Renderer} {repo : Repository} {ref : TypeRef}
    {scope : Scope} {text : String} (printed : renderer.name repo ref scope = .ok text) :
    text = renderer.type repo ref scope := by
  unfold Renderer.name at printed
  split at printed
  · exact (Except.ok.inj printed).symm
  · cases printed

end InterfaceSurface
