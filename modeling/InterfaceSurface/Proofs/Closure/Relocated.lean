import InterfaceSurface.Proofs.Metadata.Relocation
import InterfaceSurface.Surface.Lemmas

/-! # Surfaces of definitions at other places

Where definitions stand at other places, the surface of a type is what it was with the
handles in it moved (`Surface.ofDefinition_relocate`).  A walk asks a surface for names
only, and the names are the same, so both walks pass over the same edges and write in the
same order; the layout ranks by flags, versions and names, and moves no entry either
(`Surface.order_relocate`). -/
set_option autoImplicit false
namespace InterfaceSurface

def Facet.relocate (move : Handle → Handle) (facet : Facet) : Facet :=
  { facet with type := move facet.type }

theorem Facet.ofEdge_relocate (move : Handle → Handle) (e : Edge) (behind : Approach)
    (target : Handle) (d : TypeDef) :
    Facet.ofEdge (e.relocate move) behind (move target) (d.relocate move) =
      (Facet.ofEdge e behind target d).relocate move := rfl

def Exposure.relocate (move : Handle → Handle) (entry : Exposure) : Exposure :=
  (entry.1, entry.2.relocate move)

/-- The same names in the same places, with moved handles. -/
def Surface.relocate (move : Handle → Handle) (s : Surface) : Surface where
  entries := s.entries.map (Exposure.relocate move)
  index := s.index

variable {move : Handle → Handle} {repo other : Repository}

namespace Surface

theorem relocate_empty : empty.relocate move = empty := by
  simp [relocate, empty]

theorem toList_relocate (s : Surface) :
    (s.relocate move).toList = s.toList.map (Exposure.relocate move) := by
  simp [toList, relocate]

theorem names_relocate (s : Surface) : (s.relocate move).names = s.names := by
  rw [names, toList_relocate, List.map_map]
  rfl

theorem get?_relocate (s : Surface) (name : String) :
    (s.relocate move).get? name = (s.get? name).map (Facet.relocate move) := by
  simp only [get?, relocate]
  cases s.index[name]? with
  | none => rfl
  | some place =>
      simp only [Option.bind_some, Array.getElem?_map]
      cases s.entries[place]? <;> rfl

theorem settles_relocate (s : Surface) (name : String) (defaulted : Bool) :
    (s.relocate move).settles name defaulted = s.settles name defaulted := by
  rw [settles, settles, get?_relocate]
  cases s.get? name <;> rfl

theorem insertOrAssign_relocate (s : Surface) (name : String) (facet : Facet) :
    (s.relocate move).insertOrAssign name (facet.relocate move) =
      (s.insertOrAssign name facet).relocate move := by
  cases known : s.index[name]? with
  | some place =>
      have knownToo : (s.relocate move).index[name]? = some place := known
      rw [insertOrAssign_of_present known, insertOrAssign_of_present knownToo]
      simp [relocate, Exposure.relocate, Array.map_setIfInBounds]
  | none =>
      have absentToo : (s.relocate move).index[name]? = none := known
      rw [insertOrAssign_of_absent known, insertOrAssign_of_absent absentToo]
      simp [relocate, Exposure.relocate]

/-- The names are the same, and so is the index. -/
theorem reorder_relocate (entries : List Exposure) :
    reorder (entries.map (Exposure.relocate move)) = (reorder entries).relocate move := by
  simp [reorder, relocate, Function.comp_def, Exposure.relocate]

/-! ## Walks -/

/-- Walks of some depth go on side by side in both repositories. -/
def WalksRelocated (move : Handle → Handle) (repo other : Repository) (depth : Nat) : Prop :=
  ∀ (approach : Approach) (s : Surface) (edges : List Edge),
    walk other .display depth approach (s.relocate move) (edges.map (Edge.relocate move)) =
      (walk repo .display depth approach s edges).map (Surface.relocate move)

theorem visit_relocate (moved : repo.Relocated move other) {depth : Nat}
    (below : WalksRelocated move repo other depth) (approach : Approach) (s : Surface) (e : Edge) :
    visit other .display (walk other .display depth) approach (s.relocate move) (e.relocate move) =
      (visit repo .display (walk repo .display depth) approach s e).map (Surface.relocate move) := by
  unfold visit
  rw [moved.follow_eq]
  refine bind_eq_map_of_eq (moved.display_name_eq e.target approach.scope) fun name => ?_
  dsimp only
  rw [settles_relocate]
  split
  · rfl
  · refine bind_eq_map (moved.resolve_eq e.target) fun target => ?_
    refine bind_eq_map (moved.get_eq target) fun d => ?_
    refine bind_eq_map (below _ s d.edges) fun under => ?_
    rw [Facet.ofEdge_relocate]
    exact congrArg Except.ok (insertOrAssign_relocate under name _)

theorem walksRelocated (moved : repo.Relocated move other) (depth : Nat) :
    WalksRelocated move repo other depth := by
  induction depth with
  | zero => exact fun _ _ _ => rfl
  | succ depth ih =>
      intro approach s edges
      rw [walk, walk]
      exact foldlM_eq_map (visit_relocate moved ih approach) edges s

theorem walkType_relocate (moved : repo.Relocated move other) (base : Bool) (s : Surface)
    (edges : List Edge) :
    walkType other .display base (s.relocate move) (edges.map (Edge.relocate move)) =
      (walkType repo .display base s edges).map (Surface.relocate move) := by
  rw [walkType, walkType, moved.size_eq]
  exact walksRelocated moved _ _ s edges

theorem addBase_relocate (moved : repo.Relocated move other) (s : Surface) (h : Handle) :
    addBase other .display (s.relocate move) (move h) =
      (addBase repo .display s h).map (Surface.relocate move) :=
  bind_eq_map (moved.get_eq h) fun d => walkType_relocate moved true s d.edges

end Surface

theorem TypeDef.checkDefault_relocate (d : TypeDef) :
    (d.relocate move).checkDefault = d.checkDefault := by
  have marks : Edge.isDefault ∘ Edge.relocate move = Edge.isDefault := rfl
  have found : (d.relocate move).defaultInterface? =
      d.defaultInterface?.map (Option.map (TypeRef.relocate move)) := by
    rw [defaultInterface?, defaultInterface?]
    simp only [relocate, List.find?_map, marks, List.isEmpty_map]
    cases d.edges.find? Edge.isDefault with
    | some e => rfl
    | none => cases d.edges.isEmpty <;> rfl
  rw [checkDefault, checkDefault, found]
  cases d.defaultInterface? <;> rfl

namespace Surface

theorem ofDefinition_relocate (moved : repo.Relocated move other) (d : TypeDef) :
    ofDefinition other .display (d.relocate move) =
      (ofDefinition repo .display d).map (Surface.relocate move) := by
  unfold ofDefinition
  refine bind_eq_map_of_eq (TypeDef.checkDefault_relocate d) fun _ => ?_
  have own := walkType_relocate moved false empty d.edges
  rw [relocate_empty] at own
  refine bind_eq_map own fun s => ?_
  exact bind_eq_map (moved.bases_eq d) fun handles =>
    foldlM_eq_map (addBase_relocate moved) handles s

/-! ## Layouts -/

theorem leadingCount_relocate (s : Surface) : (s.relocate move).leadingCount = s.leadingCount := by
  rw [leadingCount, leadingCount, toList_relocate, List.countP_map]
  rfl

theorem ranked_relocate (moved : repo.Relocated move other) (s : Surface) :
    (s.relocate move).ranked other =
      (s.ranked repo).map (Prod.map (Exposure.relocate move) id) := by
  have precedes (a b : Exposure) :
      a.precedes repo b = (a.relocate move).precedes other (b.relocate move) := by
    simp only [Exposure.precedes, Exposure.layoutKey, Exposure.relocate, Facet.relocate,
      moved.isAlwaysEnabled_eq]
  rw [ranked, ranked, toList_relocate, List.zipIdx_map]
  exact (List.map_mergeSort fun a _ b _ => precedes a.1 b.1).symm

theorem leadingPart_relocate (moved : repo.Relocated move other) (s : Surface) :
    (s.relocate move).leadingPart other =
      (s.leadingPart repo).map (Prod.map (Exposure.relocate move) id) := by
  rw [leadingPart, leadingPart, ranked_relocate moved, leadingCount_relocate, List.map_take]

theorem remainder_relocate (moved : repo.Relocated move other) (s : Surface) :
    (s.relocate move).remainder other = (s.remainder repo).map (Exposure.relocate move) := by
  have taken : ((s.relocate move).leadingPart other).map Prod.snd =
      (s.leadingPart repo).map Prod.snd := by
    rw [leadingPart_relocate moved, List.map_map]
    rfl
  rw [remainder, remainder, taken, toList_relocate, List.zipIdx_map]
  simp only [List.filter_map, List.map_map]
  rfl

theorem layOut_relocate (moved : repo.Relocated move other) (s : Surface) :
    (s.relocate move).layOut other = (s.layOut repo).relocate move := by
  rw [layOut, layOut, ← reorder_relocate, leadingPart_relocate moved, remainder_relocate moved]
  simp only [List.map_append, List.map_map]
  rfl

theorem order_relocate (moved : repo.Relocated move other) (s : Surface) (enabled : Bool) :
    (s.relocate move).order other enabled = (s.order repo enabled).relocate move := by
  cases enabled with
  | true => exact layOut_relocate moved s
  | false => rfl

theorem leadingMethods_relocate (moved : repo.Relocated move other) (s : Surface) :
    (s.relocate move).leadingMethods other = s.leadingMethods repo := by
  rw [leadingMethods, leadingMethods, toList_relocate, List.takeWhile_map, List.foldr_map]
  simp only [Exposure.relocate, Facet.relocate, moved.methodCount_eq]
  rfl

end Surface
end InterfaceSurface
