import InterfaceSurface.Proofs.Attributes.Reading
import InterfaceSurface.Proofs.Closure.Accounting
import InterfaceSurface.Proofs.Closure.Exact

/-! # What a surface calls exclusive

A surface calls an interface exclusive when its definition carries a mark, whatever the
mark says.  Which class an interface is exclusive to is read off the first mark.  So the
two tell the same interfaces apart from the rest just as long as first marks name a
class; a first mark that names none makes an interface exclusive to nobody
(`Surface.exclusive_ofType_iff`). -/
set_option autoImplicit false
namespace InterfaceSurface

namespace TypeDef

/-- The first mark of an exclusive interface names no class. -/
def MarkedForNobody (d : TypeDef) : Prop :=
  ∃ front mark back, d.attributes = front ++ mark :: back ∧ mark.isKnown .exclusiveTo = true ∧
    (∀ a ∈ front, a.isKnown .exclusiveTo = false) ∧ ∀ owner, AttributeArg.type owner ∉ mark.args

variable {d : TypeDef}

theorem hasExclusiveMark_eq_isSome :
    d.hasExclusiveMark = (Attribute.firstKnown? d.attributes .exclusiveTo).isSome :=
  List.isSome_find?.symm

theorem markedForNobody_iff :
    d.MarkedForNobody ↔
      ∃ mark, Attribute.firstKnown? d.attributes .exclusiveTo = some mark ∧
        mark.firstType? = none := by
  constructor
  · rintro ⟨front, mark, back, split, isMark, first, unnamed⟩
    exact ⟨mark, Attribute.firstKnown?_eq_some_iff.mpr ⟨isMark, front, back, split, first⟩,
      Attribute.firstType?_eq_none_iff.mpr unnamed⟩
  · rintro ⟨mark, found, unread⟩
    obtain ⟨isMark, front, back, split, first⟩ := Attribute.firstKnown?_eq_some_iff.mp found
    exact ⟨front, mark, back, split, isMark, first, Attribute.firstType?_eq_none_iff.mp unread⟩

/-- A mark names a class, or it is for nobody. -/
theorem hasExclusiveMark_iff :
    d.hasExclusiveMark = true ↔ d.exclusiveTo?.isSome = true ∨ d.MarkedForNobody := by
  rw [hasExclusiveMark_eq_isSome, markedForNobody_iff, exclusiveTo?]
  cases found : Attribute.firstKnown? d.attributes .exclusiveTo with
  | none => simp
  | some mark => cases named : mark.firstType? <;> simp [named]

theorem not_markedForNobody_of_owned (owned : d.exclusiveTo?.isSome = true) :
    ¬ d.MarkedForNobody := by
  intro nobody
  obtain ⟨mark, found, unread⟩ := markedForNobody_iff.mp nobody
  simp [exclusiveTo?, found, unread] at owned

end TypeDef

namespace Surface

variable {repo : Repository} {renderer : Renderer} {s : Surface} {h : Handle} {entry : Exposure}

theorem exists_exclusive_eq_of_mem (run : ofType repo renderer h = .ok s)
    (member : entry ∈ s.toList) :
    ∃ d, repo.get? entry.2.type = some d ∧ entry.2.exclusive = d.hasExclusiveMark := by
  obtain ⟨_, _, run⟩ := bind_eq_ok_iff.mp run
  obtain ⟨base, path, _, finds⟩ := exists_path_of_mem run member
  obtain ⟨_, target, d, _, _, known, facet⟩ :=
    Facet.exists_of_atEnd? (Exposure.atEnd?_eq_some finds).2
  refine ⟨d, ?_, ?_⟩
  · rw [facet]
    exact known
  · rw [facet]

/-- An entry is exclusive if the interface has an owner, and also if it is marked for nobody;
only in the second case does the entry say other than its definition. -/
theorem exclusive_ofType_iff (run : ofType repo renderer h = .ok s) (member : entry ∈ s.toList) :
    ∃ d, repo.get? entry.2.type = some d ∧
      (entry.2.exclusive = true ↔ d.exclusiveTo?.isSome = true ∨ d.MarkedForNobody) ∧
      ((entry.2.exclusive = true ↔ d.exclusiveTo?.isSome = true) ↔ ¬ d.MarkedForNobody) := by
  obtain ⟨d, known, flag⟩ := exists_exclusive_eq_of_mem run member
  have marked : entry.2.exclusive = true ↔ _ := flag ▸ TypeDef.hasExclusiveMark_iff
  refine ⟨d, known, marked, ?_⟩
  rw [marked]
  constructor
  · intro same nobody
    exact TypeDef.not_markedForNobody_of_owned (same.mp (.inr nobody)) nobody
  · exact fun somebody => or_iff_left somebody

/-- An interface with one mark, which has the given arguments. -/
def markedInterface (name : String) (args : List AttributeArg) : TypeDef :=
  { TypeDef.interfaceNamed "Demo" name [] with
    attributes := [.metadata KnownAttribute.exclusiveTo.simpleName args] }

/-- The badge, at handle 2, declares an interface that is exclusive to it, and one that is
marked for nobody. -/
def badges : Repository := .ofList [
  markedInterface "IBadge" [.type ⟨"Demo", "Badge"⟩],
  markedInterface "IBlank" [],
  ⟨⟨"Demo", "Badge"⟩, .classType, [], none,
    [.markDefault ⟨.named ⟨"Demo", "IBadge"⟩, []⟩, ⟨.named ⟨"Demo", "IBlank"⟩, []⟩], [], [], []⟩]

theorem exclusive_ofType_iff_of_badges :
    ∃ s entry d, ofType badges .display ⟨2⟩ = .ok s ∧ entry ∈ s.toList ∧
      entry.2.type = ⟨0⟩ ∧ badges.get? entry.2.type = some d ∧
      (entry.2.exclusive = true ↔ d.exclusiveTo?.isSome = true ∨ d.MarkedForNobody) ∧
      ((entry.2.exclusive = true ↔ d.exclusiveTo?.isSome = true) ↔ ¬ d.MarkedForNobody) := by
  have run : ∃ s, ofType badges .display ⟨2⟩ = .ok s ∧ ∃ entry ∈ s.toList, entry.2.type = ⟨0⟩ :=
    ⟨_, rfl, by decide⟩
  obtain ⟨s, run, entry, member, type⟩ := run
  obtain ⟨d, known, said⟩ := exclusive_ofType_iff run member
  exact ⟨s, entry, d, run, member, type, known, said⟩

/-- What is marked for nobody is entered as exclusive, and exclusive to no class. -/
theorem exclusive_ne_owned_of_badges :
    badges.Closed ∧ badges.Acyclic ∧
      ∃ s entry d, ofType badges .display ⟨2⟩ = .ok s ∧ entry ∈ s.toList ∧
        badges.get? entry.2.type = some d ∧
        ¬ (entry.2.exclusive = true ↔ d.exclusiveTo?.isSome = true) := by
  refine ⟨by decide, Repository.acyclic_of_descending (by decide), ?_⟩
  have run : ∃ s, ofType badges .display ⟨2⟩ = .ok s ∧
      ∃ entry ∈ s.toList, entry.2.type = ⟨1⟩ ∧ entry.2.exclusive = true :=
    ⟨_, rfl, by decide⟩
  obtain ⟨s, run, entry, member, type, exclusive⟩ := run
  have known : badges.get? entry.2.type = some (markedInterface "IBlank" []) := by
    rw [type]
    rfl
  have unowned : (markedInterface "IBlank" []).exclusiveTo? = none := rfl
  refine ⟨s, entry, _, run, member, known, ?_⟩
  simp [exclusive, unowned]

end Surface
end InterfaceSurface
