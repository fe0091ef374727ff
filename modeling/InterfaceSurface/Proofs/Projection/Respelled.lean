import InterfaceSurface.Projection
import InterfaceSurface.Proofs.Closure.Exact
import InterfaceSurface.Proofs.Layout.OwnRanking
import InterfaceSurface.Proofs.Metadata.Respelling
import InterfaceSurface.Proofs.Outcome

/-! # Answers do not depend on how references are spelled

Whether a reference is written by name or by the handle that the name leads to makes no
difference to any question about a type (`answers_eq_of_respelled`).  The walks of the two
repositories go on side by side: an edge and the respelled edge are printed alike, lead to
the same handle and leave the same entry, so the surfaces are equal, place by place, and
the faults as well. -/
set_option autoImplicit false
namespace InterfaceSurface

variable {repo other : Repository} {d e : TypeDef}

/-! ## Walks -/

namespace Surface

/-- Walks of some depth come to the same in both repositories. -/
def WalksAlike (repo other : Repository) (depth : Nat) : Prop :=
  ∀ (approach : Approach) (s : Surface) (edges edgesToo : List Edge),
    List.Forall₂ (Edge.Respelled repo) edges edgesToo →
    walk repo .display depth approach s edges = walk other .display depth approach s edgesToo

theorem visit_eq_of_respelled (alike : repo.Alike (TypeDef.Respelled repo) other) {depth : Nat}
    (below : WalksAlike repo other depth) (approach : Approach) (s : Surface) {edge edgeToo : Edge}
    (respelled : edge.Respelled repo edgeToo) :
    visit repo .display (walk repo .display depth) approach s edge =
      visit other .display (walk other .display depth) approach s edgeToo := by
  unfold visit
  rw [alike.display_name_eq_of_respelled respelled.1, alike.follow_eq_of_respelled respelled,
    alike.resolve_eq_of_respelled respelled.1]
  refine congrArg _ (funext fun name => ?_)
  dsimp only
  split
  · rfl
  · refine congrArg _ (funext fun target => ?_)
    refine alike.get_bind_congr target fun required requiredToo _ both => ?_
    rw [below _ _ _ _ both.edges]
    refine congrArg _ (funext fun under => ?_)
    simp only [Facet.ofEdge, Edge.isDefault, respelled.2, TypeDef.hasExclusiveMark,
      TypeDef.version, both.attributes_eq]

theorem walksAlike_of_respelled (alike : repo.Alike (TypeDef.Respelled repo) other) (depth : Nat) :
    WalksAlike repo other depth := by
  induction depth with
  | zero => exact fun _ _ _ _ _ => rfl
  | succ depth ih =>
      intro approach s edges edgesToo respelled
      rw [walk, walk]
      apply foldlM_eq_of_forall₂ _ respelled
      intro middle edge edgeToo both
      exact visit_eq_of_respelled alike ih approach middle both

theorem walkType_eq_of_respelled (alike : repo.Alike (TypeDef.Respelled repo) other)
    (base : Bool) (s : Surface) (respelled : d.Respelled repo e) :
    walkType repo .display base s d.edges = walkType other .display base s e.edges := by
  rw [walkType, walkType, alike.size_eq]
  exact walksAlike_of_respelled alike _ _ _ _ _ respelled.edges

end Surface

/-! ## Single types -/

namespace TypeDef.Respelled

/-- Marks of edges are not respelled, so a default interface is found, or not, in both. -/
theorem checkDefault_eq (respelled : d.Respelled repo e) : d.checkDefault = e.checkDefault := by
  have marks : ∀ {edges edgesToo : List Edge}, List.Forall₂ (Edge.Respelled repo) edges edgesToo →
      (edges.find? Edge.isDefault).isSome = (edgesToo.find? Edge.isDefault).isSome ∧
        edges.isEmpty = edgesToo.isEmpty := by
    intro edges edgesToo both
    induction both with
    | nil => exact ⟨rfl, rfl⟩
    | @cons edge edgeToo _ _ first _ ih =>
        have same : edge.isDefault = edgeToo.isDefault := by
          rw [Edge.isDefault, Edge.isDefault, first.2]
        cases marked : edgeToo.isDefault with
        | true => simp [same, marked]
        | false => simpa [List.find?_cons, same, marked] using ih.1
  obtain ⟨found, empty⟩ := marks respelled.edges
  have kinds : d.kind = e.kind := by rw [respelled.rest]
  unfold checkDefault defaultInterface?
  rw [kinds, empty, respelled.name_eq]
  cases own : d.edges.find? Edge.isDefault <;> cases ownToo : e.edges.find? Edge.isDefault <;>
    simp_all [Except.map]

theorem usesFastAbi_eq (respelled : d.Respelled repo e) (settings : Settings) :
    d.usesFastAbi settings = e.usesFastAbi settings := by
  rw [TypeDef.usesFastAbi, TypeDef.usesFastAbi, respelled.attributes_eq]

theorem ofDefinition_eq (respelled : d.Respelled repo e)
    (alike : repo.Alike (TypeDef.Respelled repo) other) :
    Surface.ofDefinition repo .display d = Surface.ofDefinition other .display e := by
  unfold Surface.ofDefinition
  rw [respelled.checkDefault_eq, Surface.walkType_eq_of_respelled alike _ _ respelled,
    alike.bases_eq_of_respelled respelled]
  refine congrArg _ (funext fun _ => congrArg _ (funext fun own => congrArg _ (funext fun handles =>
    ?_)))
  congr 1
  funext s h
  exact alike.get_bind_congr h fun base baseToo _ both =>
    Surface.walkType_eq_of_respelled alike true s both

theorem declares_eq (respelled : d.Respelled repo e)
    (alike : repo.Alike (TypeDef.Respelled repo) other) (text : String) :
    d.declares repo .display text = e.declares other .display text := by
  apply anyM_eq_of_forall₂ _ respelled.edges
  intro edge edgeToo both
  rw [Edge.targets, Edge.targets, both.1.isInst_eq, alike.display_name_eq_of_respelled both.1]

theorem implements_eq (respelled : d.Respelled repo e)
    (alike : repo.Alike (TypeDef.Respelled repo) other) (text : String) :
    d.implements repo .display text = e.implements other .display text := by
  unfold TypeDef.implements
  rw [respelled.declares_eq alike, alike.bases_eq_of_respelled respelled]
  refine congrArg _ (funext fun declared => ?_)
  split
  · rfl
  · refine congrArg _ (funext fun handles => ?_)
    congr 1
    funext h
    exact alike.get_bind_congr h fun base baseToo _ both => both.declares_eq alike text

theorem letsOverride_eq (respelled : d.Respelled repo e)
    (alike : repo.Alike (TypeDef.Respelled repo) other) (text : String) :
    d.letsOverride repo .display text = e.letsOverride other .display text := by
  apply anyM_eq_of_forall₂ _ respelled.edges
  intro edge edgeToo both
  rw [Edge.isOverridable, Edge.isOverridable, both.2, Edge.targets, Edge.targets,
    both.1.isInst_eq, alike.display_name_eq_of_respelled both.1]

theorem canProduce_eq (respelled : d.Respelled repo e)
    (alike : repo.Alike (TypeDef.Respelled repo) other) (settings : Settings) :
    d.canProduce repo .display settings = e.canProduce other .display settings := by
  unfold TypeDef.canProduce TypeDef.exclusiveTo?
  rw [respelled.attributes_eq, respelled.name_eq]
  split
  · rfl
  · rw [alike.find_eq]
    refine congrArg _ (funext fun owner => ?_)
    refine alike.get_bind_congr owner fun ownerDef ownerDefToo _ both => ?_
    rw [both.letsOverride_eq alike]

end TypeDef.Respelled

/-! ## All answers -/

namespace Projection

theorem interfaces_eq_of_respelled (alike : repo.Alike (TypeDef.Respelled repo) other)
    (settings : Settings) (h : Handle) :
    interfaces ⟨repo, .display, settings⟩ h = interfaces ⟨other, .display, settings⟩ h := by
  refine alike.get_bind_congr h fun d e _ both => ?_
  rw [both.ofDefinition_eq alike]
  refine congrArg _ (funext fun found => ?_)
  have laid : found.layOut repo = found.layOut other := by
    simp only [Surface.layOut, Surface.remainder, Surface.leadingPart, Surface.ranked,
      Exposure.precedes, Exposure.layoutKey_eq_of_gates alike.isAlwaysEnabled_eq_of_respelled]
  rw [both.usesFastAbi_eq, Surface.order, Surface.order, laid]

theorem slotCount_eq_of_respelled (alike : repo.Alike (TypeDef.Respelled repo) other)
    (settings : Settings) (h : Handle) :
    slotCount ⟨repo, .display, settings⟩ h = slotCount ⟨other, .display, settings⟩ h := by
  refine alike.get_bind_congr h fun d e _ both => ?_
  rw [both.usesFastAbi_eq, interfaces_eq_of_respelled alike]
  have counted (laid : Surface) :
      d.slotCount repo laid settings = e.slotCount other laid settings := by
    rw [TypeDef.slotCount, TypeDef.slotCount, both.usesFastAbi_eq,
      alike.bases_eq_of_respelled both, Surface.leadingMethods, Surface.leadingMethods,
      alike.methodCount_eq_of_respelled]
  simp only [counted]

/-- All answers about a type, faults included, are the same where references are spelled in
another way. -/
theorem answers_eq_of_respelled (alike : repo.Alike (TypeDef.Respelled repo) other)
    (settings : Settings) (h : Handle) :
    (repo.get h >>= fun d => d.bases repo) = (other.get h >>= fun d => d.bases other) ∧
      Surface.ofType repo .display h = Surface.ofType other .display h ∧
      interfaces ⟨repo, .display, settings⟩ h = interfaces ⟨other, .display, settings⟩ h ∧
      slotCount ⟨repo, .display, settings⟩ h = slotCount ⟨other, .display, settings⟩ h ∧
      (∀ text, implements ⟨repo, .display, settings⟩ h text =
        implements ⟨other, .display, settings⟩ h text) ∧
      canProduce ⟨repo, .display, settings⟩ h = canProduce ⟨other, .display, settings⟩ h := by
  refine ⟨?_, ?_, interfaces_eq_of_respelled alike settings h,
    slotCount_eq_of_respelled alike settings h, fun text => ?_, ?_⟩
  · exact alike.get_bind_congr h fun d e _ both => alike.bases_eq_of_respelled both
  · exact alike.get_bind_congr h fun d e _ both => both.ofDefinition_eq alike
  · exact alike.get_bind_congr h fun d e _ both => both.implements_eq alike text
  · exact alike.get_bind_congr h fun d e _ both => both.canProduce_eq alike settings

/-- The shelf, at handle 5, is a list of arrays of things; the thing at handle 0 is shadowed
by the one at handle 1.  How its references are spelled is left open, apart from one. -/
def shelfSpelled (spell : TypeName → Handle → TypeRef) : Repository := .ofList [
  .interfaceNamed "Demo" "IThing" [],
  .interfaceNamed "Demo" "IThing" [⟨.named ⟨"Demo", "ISized"⟩, []⟩],
  .interfaceNamed "Demo" "ISized" [],
  .interfaceNamed "Coll" "IList`1" [],
  ⟨⟨"Demo", "Board"⟩, .classType, [], none,
    [.markDefault ⟨spell ⟨"Demo", "ISized"⟩ ⟨2⟩, []⟩], [], [], []⟩,
  ⟨⟨"Demo", "Shelf"⟩, .classType, [], some (spell ⟨"Demo", "Board"⟩ ⟨4⟩),
    [.markDefault ⟨.inst (spell ⟨"Coll", "IList`1"⟩ ⟨3⟩)
      [.array (.ref (spell ⟨"Demo", "IThing"⟩ ⟨1⟩))], []⟩,
     .markOverridable ⟨spell ⟨"Demo", "IThing"⟩ ⟨1⟩, []⟩], [], [], []⟩]

def shelfByName : Repository := shelfSpelled fun name _ => .named name

def shelfByHandle : Repository := shelfSpelled fun _ h => .handle h

theorem alike_shelfByHandle : shelfByName.Alike (TypeDef.Respelled shelfByName) shelfByHandle := by
  have thing : shelfByName.find? ⟨"Demo", "IThing"⟩ = some ⟨1⟩ := by decide
  have sized : shelfByName.find? ⟨"Demo", "ISized"⟩ = some ⟨2⟩ := by decide
  have list : shelfByName.find? ⟨"Coll", "IList`1"⟩ = some ⟨3⟩ := by decide
  have board : shelfByName.find? ⟨"Demo", "Board"⟩ = some ⟨4⟩ := by decide
  rw [Repository.Alike, shelfByHandle]
  nth_rewrite 2 [shelfByName]
  rw [shelfSpelled, shelfSpelled, Repository.toList_ofList, Repository.toList_ofList]
  refine .cons ⟨rfl, rfl, .none, .nil⟩ <| .cons ⟨rfl, rfl, .none, ?_⟩ <|
    .cons ⟨rfl, rfl, .none, .nil⟩ <| .cons ⟨rfl, rfl, .none, .nil⟩ <|
    .cons ⟨rfl, rfl, .none, ?_⟩ <| .cons ⟨rfl, rfl, .some (.found board), ?_⟩ .nil
  · exact .cons ⟨.named _, rfl⟩ .nil
  · exact .cons ⟨.found sized, rfl⟩ .nil
  · exact .cons ⟨.inst (.found list) (.cons (.array (.ref (.found thing))) .nil), rfl⟩ <|
      .cons ⟨.found thing, rfl⟩ .nil

theorem answers_eq_of_shelfByHandle :
    shelfByName.Alike (TypeDef.Respelled shelfByName) shelfByHandle ∧
      (∃ s, interfaces ⟨shelfByName, .display, .off⟩ ⟨5⟩ = .ok s ∧
        s.names = ["Coll.IList`1<Demo.IThing[]>", "Demo.ISized", "Demo.IThing"]) ∧
      (shelfByName.get ⟨5⟩ >>= fun d => d.bases shelfByName) =
        (shelfByHandle.get ⟨5⟩ >>= fun d => d.bases shelfByHandle) ∧
      Surface.ofType shelfByName .display ⟨5⟩ = Surface.ofType shelfByHandle .display ⟨5⟩ ∧
      interfaces ⟨shelfByName, .display, .off⟩ ⟨5⟩ =
        interfaces ⟨shelfByHandle, .display, .off⟩ ⟨5⟩ ∧
      slotCount ⟨shelfByName, .display, .off⟩ ⟨5⟩ =
        slotCount ⟨shelfByHandle, .display, .off⟩ ⟨5⟩ ∧
      (∀ text, implements ⟨shelfByName, .display, .off⟩ ⟨5⟩ text =
        implements ⟨shelfByHandle, .display, .off⟩ ⟨5⟩ text) ∧
      canProduce ⟨shelfByName, .display, .off⟩ ⟨5⟩ =
        canProduce ⟨shelfByHandle, .display, .off⟩ ⟨5⟩ :=
  ⟨alike_shelfByHandle, ⟨_, rfl, by decide⟩, answers_eq_of_respelled alike_shelfByHandle _ _⟩

end Projection
end InterfaceSurface
