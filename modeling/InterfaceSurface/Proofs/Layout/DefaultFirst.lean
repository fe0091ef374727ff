import InterfaceSurface.Proofs.Closure.OneDefault
import InterfaceSurface.Proofs.Layout.Eligible
import InterfaceSurface.Proofs.Layout.OtherBases

/-! # The default interface is laid out first

The key prefers own entries and then defaults, so an entry that is the only own default
ranks before all others, also before the defaults of base classes.  If it is eligible there
is a place in the leading part, and it gets the first one (`head?_order_of_default`).  A
type that marks one default edge, with none behind its own edges, has just one own default,
whatever the renderer prints and however often its interface is reached in other ways
(`Projection.default_entry_first`). -/
set_option autoImplicit false
namespace InterfaceSurface

theorem Exposure.below_of_base {repo : Repository} {a b : Exposure} (own : a.2.base = false)
    (fromBase : b.2.base = true) : a.Below repo b := by
  rw [Below, compare_layoutKey, own, fromBase]
  rfl

namespace Surface

variable {repo : Repository} {renderer : Renderer} {d : TypeDef} {s : Surface} {a : Exposure}

theorem head?_ranked_of_least (distinct : s.names.Nodup) (member : a ∈ s.toList)
    (least : ∀ b ∈ s.toList, b ≠ a → a.Below repo b) :
    ((s.ranked repo).map Prod.fst).head? = some a := by
  have ascending : ((s.ranked repo).map Prod.fst).Pairwise (Exposure.Below repo) :=
    ranked_ascending distinct
  have listed := s.ranked_entries_perm repo
  cases ranking : (s.ranked repo).map Prod.fst with
  | nil =>
      rw [ranking] at listed
      cases listed.mem_iff.mpr member
  | cons first rest =>
      rw [ranking] at ascending listed
      rw [List.head?_cons]
      apply congrArg some
      apply Decidable.byContradiction
      intro other
      have behind : a ∈ rest := (List.mem_cons.mp (listed.mem_iff.mpr member)).resolve_left
        (Ne.symm other)
      have before : first.Below repo a := List.rel_of_pairwise_cons ascending behind
      exact before.asymm (least first (listed.mem_iff.mp List.mem_cons_self) other)

/-- An eligible entry that is the only own default comes first. -/
theorem head?_order_of_default (distinct : s.names.Nodup) (member : a ∈ s.toList)
    (eligible : a.eligible = true) (isDefault : a.2.isDefault = true)
    (only : ∀ b ∈ s.toList, b.2.base = false → b.2.isDefault = true → b = a) :
    (s.order repo true).toList.head? = some a.markLeading := by
  have own := Exposure.own_of_eligible eligible
  have least : ∀ b ∈ s.toList, b ≠ a → a.Below repo b := by
    intro b listed apart
    cases fromBase : b.2.base with
    | true => exact Exposure.below_of_base own fromBase
    | false =>
        have other : b.2.isDefault = false :=
          Bool.eq_false_of_not_eq_true fun defaultToo => apart (only b listed fromBase defaultToo)
        exact Exposure.below_of_default own isDefault other
  have places : s.leadingCount ≠ 0 :=
    Nat.ne_of_gt (List.countP_pos_iff.mpr ⟨a, member, eligible⟩)
  have first : ((s.leadingPart repo).map Prod.fst).head? = some a := by
    rw [entries_leadingPart, List.head?_take, if_neg places,
      head?_ranked_of_least distinct member least]
  rw [order, if_pos rfl, toList_layOut, List.head?_append, List.head?_map, first]
  rfl

/-- If the type marks one default edge, its entry is there and is the only own default. -/
theorem exists_default_of_ofDefinition (marks : d.MarksOneDefault repo) {e : Edge}
    (declared : e ∈ d.edges) (isDefault : e.isDefault = true)
    (run : ofDefinition repo renderer d = .ok s) :
    ∃ facet, s.get? (renderer.type repo e.target .empty) = some facet ∧
      facet.isDefault = true ∧ facet.defaulted = true ∧ facet.base = false ∧
      ∀ entry ∈ s.toList, entry.2.base = false → entry.2.isDefault = true →
        entry = (renderer.type repo e.target .empty, facet) := by
  have indexed := (indexed_and_unmarked run).1
  obtain ⟨own, _, walked, _, isOwn⟩ := exists_own_of_ofDefinition run
  obtain ⟨facet, known, marked, defaulted⟩ := get?_of_default marks declared isDefault walked
  have member : (renderer.type repo e.target .empty, facet) ∈ s.ownEntries := by
    rw [isOwn]
    exact ((own_of_walkType walked).1.get?_eq_some_iff _ _).mp known
  obtain ⟨present, fromType⟩ := mem_ownEntries_iff.mp member
  have stands := (indexed.get?_eq_some_iff _ _).mpr present
  refine ⟨facet, stands, marked, defaulted, fromType, ?_⟩
  rintro ⟨key, other⟩ listed ownToo defaultToo
  -- The path to another own default ends with the same edge, which nothing stands before.
  obtain ⟨base, path, reaches, finds⟩ := exists_path_of_mem run listed
  obtain ⟨named, said⟩ := Exposure.atEnd?_eq_some finds
  have isBase : base = false := (Facet.base_of_atEnd? said).symm.trans ownToo
  subst isBase
  obtain ⟨last, _, _, isLast, _, _, rfl⟩ := Facet.exists_of_atEnd? said
  obtain ⟨front, rfl⟩ := List.getLast?_eq_some_iff.mp isLast
  obtain ⟨rfl, declaredToo⟩ := marks.first_of_default reaches defaultToo
  cases marks.default_unique declared declaredToo isDefault defaultToo
  have sameKey : renderer.type repo e.target .empty = key := Option.some.inj named
  subst sameKey
  rw [Option.some.inj (((indexed.get?_eq_some_iff _ _).mpr listed).symm.trans stands)]

end Surface

namespace Projection

/-- The default interface of a type that marks one default edge is found as such and is the only
own default; and if it is eligible, it comes first in the fast dispatch layout. -/
theorem default_entry_first {repo : Repository} {renderer : Renderer} (settings : Settings)
    {h : Handle} {d : TypeDef} {e : Edge} {s : Surface} (known : repo.get? h = some d)
    (marks : d.MarksOneDefault repo) (declared : e ∈ d.edges) (isDefault : e.isDefault = true)
    (run : Surface.ofType repo renderer h = .ok s) :
    ∃ facet, s.get? (renderer.type repo e.target .empty) = some facet ∧
      facet.isDefault = true ∧ facet.defaulted = true ∧ facet.base = false ∧
      (∀ entry ∈ s.toList, entry.2.base = false → entry.2.isDefault = true →
        entry = (renderer.type repo e.target .empty, facet)) ∧
      (facet.exclusive = true → facet.overridable = false → d.usesFastAbi settings = true →
        ∃ laid, interfaces ⟨repo, renderer, settings⟩ h = .ok laid ∧
          laid.toList.head? =
            some (renderer.type repo e.target .empty, { facet with leading := true })) := by
  rw [Surface.ofType_eq_ofDefinition known] at run
  have indexed := (Surface.indexed_and_unmarked run).1
  obtain ⟨facet, stands, marked, defaulted, own, only⟩ :=
    Surface.exists_default_of_ofDefinition marks declared isDefault run
  refine ⟨facet, stands, marked, defaulted, own, only, ?_⟩
  intro exclusive fixed fast
  have eligible : Exposure.eligible (renderer.type repo e.target .empty, facet) = true := by
    simp [Exposure.eligible, exclusive, own, fixed]
  refine ⟨_, interfaces_of_fastAbi known fast run, ?_⟩
  exact Surface.head?_order_of_default indexed.names_nodup
    ((indexed.get?_eq_some_iff _ _).mp stands) eligible marked only

/-- Prints the first eleven characters only. -/
def clipped : Renderer := Renderer.display.map fun text => String.ofList (text.toList.take 11)

/-- A panel, at handle 3, that declares its effects and then its default interface.  Clipped,
their names are the same, and the default interface requires the effects as well. -/
def layeredPanel : Repository := .ofList [
  .interfaceNamed "Demo" "IDrawable" [],
  .ofPanel "IPanelEffects" 0x10000 [toDemo "IDrawable"] [.ofName "Blur", .ofName "Fade"],
  .ofPanel "IPanel" 0x20000 [toDemo "IPanelEffects"] [.ofName "Draw"],
  ⟨⟨"Demo", "Panel"⟩, .classType, [], none,
    [toDemo "IPanelEffects", (toDemo "IPanel").markDefault], [], [],
    [.metadata "FastAbiAttribute" []]⟩]

/-- The name of the default interface is written for the effects before it, for the effects below
it, and then for itself. -/
theorem default_entry_first_of_layeredPanel :
    ∃ d e s, layeredPanel.get? ⟨3⟩ = some d ∧ d.MarksOneDefault layeredPanel ∧ e ∈ d.edges ∧
      e.isDefault = true ∧ Surface.ofType layeredPanel clipped ⟨3⟩ = .ok s ∧
      ((Surface.ofTypeLogged layeredPanel clipped ⟨3⟩).writes.map fun w =>
          (w.entry.1, w.entry.2.type)) =
        [("Demo.IDrawa", ⟨0⟩), ("Demo.IPanel", ⟨1⟩), ("Demo.IDrawa", ⟨0⟩), ("Demo.IPanel", ⟨1⟩),
          ("Demo.IPanel", ⟨2⟩)] ∧
      ∃ facet, s.get? "Demo.IPanel" = some facet ∧ facet.type = ⟨2⟩ ∧ facet.isDefault = true ∧
        facet.defaulted = true ∧ facet.base = false ∧
        (∀ entry ∈ s.toList, entry.2.base = false → entry.2.isDefault = true →
          entry = ("Demo.IPanel", facet)) ∧
        ∃ laid, interfaces ⟨layeredPanel, clipped, fastSettings⟩ ⟨3⟩ = .ok laid ∧
          laid.toList.head? = some ("Demo.IPanel", { facet with leading := true }) := by
  have acyclic : layeredPanel.Acyclic := Repository.acyclic_of_descending (by decide)
  obtain ⟨d, known, marks, declared, fast⟩ : ∃ d, layeredPanel.get? ⟨3⟩ = some d ∧
      d.MarksOneDefault layeredPanel ∧ (toDemo "IPanel").markDefault ∈ d.edges ∧
      d.usesFastAbi fastSettings = true :=
    ⟨_, rfl, TypeDef.marksOneDefault_of_routes acyclic (by decide) (by decide), .tail _ (.head _),
      by decide⟩
  obtain ⟨s, run, facet, stands, type, exclusive, fixed⟩ :
      ∃ s, Surface.ofType layeredPanel clipped ⟨3⟩ = .ok s ∧
        ∃ facet, s.get? "Demo.IPanel" = some facet ∧ facet.type = ⟨2⟩ ∧ facet.exclusive = true ∧
          facet.overridable = false := ⟨_, rfl, _, rfl, by decide⟩
  have named : clipped.type layeredPanel (toDemo "IPanel").markDefault.target .empty =
      "Demo.IPanel" := by decide
  obtain ⟨found, standsToo, marked, defaulted, own, only, first⟩ :=
    default_entry_first fastSettings known marks declared (by decide) run
  rw [named] at standsToo only first
  cases Option.some.inj (stands.symm.trans standsToo)
  exact ⟨d, _, s, known, marks, declared, by decide, run, by decide, facet, stands, type, marked,
    defaulted, own, only, first exclusive fixed fast⟩

end Projection
end InterfaceSurface
