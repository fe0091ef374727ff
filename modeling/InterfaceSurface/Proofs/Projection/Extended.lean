import InterfaceSurface.Projection
import InterfaceSurface.Proofs.Metadata.Extension

/-! # Answers outlast insertions

A definition of a new name, whatever it holds, changes no answer that there was before
(`answers_kept_of_insert`).  It may be what some reference was waiting for, so a fault may
become an answer; and where a name that it takes only stands inside a printed argument, it is
printed as before.  The larger repository lets walks go one deeper, which a walk that
succeeded had no need of. -/
set_option autoImplicit false
namespace InterfaceSurface

variable {repo other : Repository}

/-! ## Walks -/

namespace Surface

/-- A walk keeps what it comes to when it may go deeper in a larger repository. -/
def WalksKept (repo other : Repository) (depth : Nat) : Prop :=
  ∀ more, depth ≤ more → ∀ (approach : Approach) (s : Surface) (edges : List Edge),
    Kept (walk repo .display depth approach s edges) (walk other .display more approach s edges)

theorem kept_visit (kept : repo.KeptIn other) {depth more : Nat} (le : depth ≤ more)
    (below : WalksKept repo other depth) (approach : Approach) (s : Surface) (e : Edge) :
    Kept (visit repo .display (walk repo .display depth) approach s e)
      (visit other .display (walk other .display more) approach s e) := by
  unfold visit
  refine (kept.kept_display_name e.target approach.scope).bind fun name printed => ?_
  dsimp only
  rw [kept.follow_eq approach (Renderer.issued_of_name printed)]
  split
  · exact .of_eq rfl
  · refine (kept.kept_resolve e.target).bind fun target _ => ?_
    refine (kept.kept_get target).bind fun d _ => ?_
    exact (below more le _ s d.edges).bind fun under _ => .of_eq rfl

theorem walksKept (kept : repo.KeptIn other) (depth : Nat) : WalksKept repo other depth := by
  induction depth with
  | zero => exact fun _ _ _ _ _ => .of_error
  | succ depth ih =>
      intro more le approach s edges
      obtain ⟨more, rfl⟩ := Nat.exists_eq_add_of_le' (Nat.le_of_add_left_le le)
      rw [walk, walk]
      exact .foldlM (kept_visit kept (Nat.le_of_succ_le_succ le) ih approach) edges s

theorem kept_walkType (kept : repo.KeptIn other) (base : Bool) (s : Surface) (edges : List Edge) :
    Kept (walkType repo .display base s edges) (walkType other .display base s edges) :=
  walksKept kept _ _ (Nat.succ_le_succ kept.size_le) _ s edges

theorem kept_ofDefinition (kept : repo.KeptIn other) (d : TypeDef) :
    Kept (ofDefinition repo .display d) (ofDefinition other .display d) := by
  unfold ofDefinition
  refine .bind (.of_eq rfl) fun _ _ => ?_
  refine (kept_walkType kept false .empty d.edges).bind fun own _ => ?_
  refine (kept.kept_bases d).bind fun handles _ => ?_
  refine .foldlM (fun s h => ?_) handles own
  exact (kept.kept_get h).bind fun base _ => kept_walkType kept true s base.edges

theorem kept_ofType (kept : repo.KeptIn other) (h : Handle) :
    Kept (ofType repo .display h) (ofType other .display h) :=
  (kept.kept_get h).bind fun d _ => kept_ofDefinition kept d

end Surface

/-! ## Single questions -/

theorem Edge.kept_targets (e : Edge) (kept : repo.KeptIn other) (text : String) :
    Kept (e.targets repo .display text) (e.targets other .display text) := by
  unfold targets
  split
  · exact .of_eq rfl
  · exact (kept.kept_display_name e.target .empty).bind fun name _ => .of_eq rfl

namespace TypeDef

theorem kept_declares (kept : repo.KeptIn other) (d : TypeDef) (text : String) :
    Kept (d.declares repo .display text) (d.declares other .display text) :=
  .anyM (fun e => e.kept_targets kept text) d.edges

theorem kept_implements (kept : repo.KeptIn other) (d : TypeDef) (text : String) :
    Kept (d.implements repo .display text) (d.implements other .display text) := by
  unfold implements
  refine (kept_declares kept d text).bind fun declared _ => ?_
  split
  · exact .of_eq rfl
  · refine (kept.kept_bases d).bind fun handles _ => ?_
    exact .anyM (fun h => (kept.kept_get h).bind fun base _ => kept_declares kept base text) handles

theorem kept_factories (kept : repo.KeptIn other) (d : TypeDef) :
    Kept (d.factories repo .display) (d.factories other .display) := by
  refine .foldlM (fun found a => ?_) d.attributes ∅
  unfold Factories.addAttribute
  split
  · exact .of_eq rfl
  · have type : Kept (Factory.typeOf repo a) (Factory.typeOf other a) := by
      unfold Factory.typeOf
      split
      · exact (kept.kept_find _).map some
      · exact .of_eq rfl
    refine type.bind fun type _ => .bind ?_ fun key _ => .of_eq rfl
    unfold Factory.key
    split
    · exact kept.kept_display_name _ .empty
    · exact .of_eq rfl

theorem kept_canProduce (kept : repo.KeptIn other) (d : TypeDef) (settings : Settings) :
    Kept (d.canProduce repo .display settings) (d.canProduce other .display settings) := by
  unfold canProduce
  split
  · exact .of_eq rfl
  · refine (kept.kept_find _).bind fun owner _ => (kept.kept_get owner).bind fun ownerDef _ => ?_
    refine .bind (.anyM (fun e => ?_) ownerDef.edges) fun found _ => .of_eq rfl
    split
    · exact e.kept_targets kept _
    · exact .of_eq rfl

end TypeDef

theorem Marshaling.kept_ofSig (kept : repo.KeptIn other) (sig : TypeSig) :
    Kept (ofSig repo sig) (ofSig other sig) := by
  have handle (h : Handle) : Kept (ofHandle repo h) (ofHandle other h) :=
    (kept.kept_get h).map _
  cases sig with
  | element _ => exact .of_eq rfl
  | inst _ _ => exact .of_eq rfl
  | param _ => exact .of_eq rfl
  | array _ => exact .of_eq rfl
  | ref target =>
      cases target with
      | handle h => exact handle h
      | inst _ _ => exact .of_eq rfl
      | named name =>
          rw [ofSig, ofSig, ofRef, ofRef]
          split
          · exact .of_eq rfl
          · exact (kept.kept_find name).bind fun h _ => handle h

/-! ## All answers -/

/-- A definition of a new name, whatever it holds, leaves every answer as it was. -/
theorem answers_kept_of_insert {t : TypeDef} (fresh : repo.find? t.name = none) :
    (∀ h, Kept (Surface.ofType repo .display h) (Surface.ofType (repo.insert t) .display h)) ∧
      (∀ d, Kept (TypeDef.bases d repo) (d.bases (repo.insert t))) ∧
      (∀ d text, Kept (TypeDef.implements d repo .display text)
        (d.implements (repo.insert t) .display text)) ∧
      (∀ d, Kept (TypeDef.factories d repo .display) (d.factories (repo.insert t) .display)) ∧
      (∀ d settings, Kept (TypeDef.canProduce d repo .display settings)
        (d.canProduce (repo.insert t) .display settings)) ∧
      ∀ sig, Kept (Marshaling.ofSig repo sig) (Marshaling.ofSig (repo.insert t) sig) := by
  have kept := Repository.keptIn_insert fresh
  exact ⟨Surface.kept_ofType kept, kept.kept_bases, TypeDef.kept_implements kept,
    TypeDef.kept_factories kept, TypeDef.kept_canProduce kept, Marshaling.kept_ofSig kept⟩

/-- The crate, at handle 1, is a list of labels, which are not there yet. -/
def crate : Repository := .ofList [
  ⟨⟨"Coll", "IList`1"⟩, .interfaceType, ["T"], none, [], [], [], []⟩,
  ⟨⟨"Demo", "Crate"⟩, .classType, [], none,
    [.markDefault ⟨.inst (.handle ⟨0⟩) [.ref (.named ⟨"Demo", "ILabel"⟩)], []⟩], [], [], []⟩]

/-- A label that requires itself, and points at a handle that nobody issued. -/
def label : TypeDef :=
  ⟨⟨"Demo", "ILabel"⟩, .interfaceType, [], none,
    [⟨.named ⟨"Demo", "ILabel"⟩, []⟩, ⟨.handle ⟨7⟩, []⟩], [], [], []⟩

theorem answers_kept_of_label :
    crate.find? label.name = none ∧
      ∃ s, Surface.ofType crate .display ⟨1⟩ = .ok s ∧ s.names = ["Coll.IList`1<Demo.ILabel>"] ∧
        Surface.ofType (crate.insert label) .display ⟨1⟩ = .ok s := by
  have fresh : crate.find? label.name = none := by decide
  obtain ⟨s, run, names⟩ : ∃ s, Surface.ofType crate .display ⟨1⟩ = .ok s ∧
      s.names = ["Coll.IList`1<Demo.ILabel>"] := ⟨_, rfl, by decide⟩
  exact ⟨fresh, s, run, names, (answers_kept_of_insert fresh).1 ⟨1⟩ s run⟩

end InterfaceSurface
