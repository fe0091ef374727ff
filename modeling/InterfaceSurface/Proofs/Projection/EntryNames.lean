import InterfaceSurface.Proofs.Layout.Reordering
import InterfaceSurface.Proofs.Metadata.Issued

/-! # Entries tell their names

An entry is kept under a text that is printed from a reference in the scope in front of it.
What it says comes from elsewhere: the definition from resolving the reference, the scope from
what was entered on the way.  Under the `display` renderer the two fit
(`Exposure.TellsName`): the definition and the innermost frame of the scope are enough to print
the name again.

A laid-out surface has the same entries, apart from the mark on those of its leading part. -/
set_option autoImplicit false
namespace InterfaceSurface

/-- The entry points at the definition and says of it what there is to say; its name is that of
the definition, alone or with the innermost frame as arguments. -/
structure Exposure.TellsName (repo : Repository) (entry : Exposure) (d : TypeDef) : Prop where
  known : repo.get? entry.2.type = some d
  exclusive : entry.2.exclusive = d.hasExclusiveMark
  version : entry.2.version = d.version
  named : entry.1 = d.name.display ∨
    ∃ args, entry.2.scope.outermostFirst.getLast? = some args ∧
      entry.1 = d.name.display ++ "<" ++ String.intercalate ", " args ++ ">"

variable {repo : Repository}

theorem Scope.getLast?_outermostFirst_push (scope : Scope) (args : List String) :
    (scope.push args).outermostFirst.getLast? = some args := by
  simp [push, outermostFirst]

/-- What is entered behind a reference is what was printed for it. -/
theorem Renderer.display_type_cases (repo : Repository) (scope : Scope) (ref : TypeRef) :
    display.type repo ref scope = (repo.rootName ref).display ∨
      ∃ args, (scope.enter repo display ref).outermostFirst.getLast? = some args ∧
        display.type repo ref scope = instText (repo.rootName ref).display args := by
  cases ref with
  | handle _ => exact .inl rfl
  | named _ => exact .inl rfl
  | inst head args =>
      refine .inr ⟨_, Scope.getLast?_outermostFirst_push scope _, ?_⟩
      exact congrArg (instText _) (displayArgs_eq_map repo scope args)

namespace Exposure

theorem TellsName.of_atEnd? {base : Bool} {path : List Edge} {entry : Exposure}
    (finds : atEnd? repo .display base path = some entry) : ∃ d, entry.TellsName repo d := by
  obtain ⟨printed, said⟩ := atEnd?_eq_some finds
  obtain ⟨last, target, d, isLast, resolved, known, facet⟩ := Facet.exists_of_atEnd? said
  obtain ⟨front, rfl⟩ := List.getLast?_eq_some_iff.mp isLast
  have root : repo.rootName last.target = d.name := by
    rw [Repository.rootName, Repository.nameOf_of_resolve resolved known]
  rw [keyOf?_concat] at printed
  have name := Option.some.inj printed
  refine ⟨d, ?_, ?_, ?_, ?_⟩
  · rw [facet]
    exact known
  · rw [facet]
  · rw [facet]
  · rw [facet, scopeBehind_concat, ← root, ← name]
    exact Renderer.display_type_cases repo (scopeBehind repo .display front) last.target

theorem TellsName.of_unmark {entry : Exposure} {d : TypeDef}
    (tells : entry.unmark.TellsName repo d) : entry.TellsName repo d :=
  ⟨tells.known, tells.exclusive, tells.version, tells.named⟩

end Exposure

theorem Surface.tellsName_of_ofDefinition {d : TypeDef} {s : Surface}
    (run : ofDefinition repo .display d = .ok s) :
    ∀ entry ∈ s.toList, ∃ d, entry.TellsName repo d := by
  intro entry member
  obtain ⟨base, path, _, finds⟩ := exists_path_of_mem run member
  exact Exposure.TellsName.of_atEnd? finds

variable (repo) in
/-- Putting a surface in order marks entries and moves them, if it does anything. -/
theorem Surface.map_unmark_order_perm {s : Surface}
    (plain : ∀ entry ∈ s.toList, entry.2.leading = false) (enabled : Bool) :
    ((s.order repo enabled).toList.map Exposure.unmark).Perm s.toList := by
  cases enabled with
  | true => exact map_unmark_layOut_perm plain
  | false => exact .of_eq (map_unmark_of_unmarked plain)

namespace Projection

/-- All entries of a surface tell their names, and so do those of the laid-out one, whatever the
settings: it has the same entries, some of them marked. -/
theorem entries_tell_names {h : Handle} {s : Surface}
    (run : Surface.ofType repo .display h = .ok s) :
    (∀ entry ∈ s.toList, ∃ d, entry.TellsName repo d) ∧
      ∀ settings, ∃ laid, interfaces ⟨repo, .display, settings⟩ h = .ok laid ∧
        (laid.toList.map Exposure.unmark).Perm s.toList ∧
        ∀ entry ∈ laid.toList, ∃ d, entry.TellsName repo d := by
  obtain ⟨d, got, run⟩ := bind_eq_ok_iff.mp run
  have tell := Surface.tellsName_of_ofDefinition run
  obtain ⟨_, plain⟩ := Surface.indexed_and_unmarked run
  refine ⟨tell, fun settings => ?_⟩
  have perm := Surface.map_unmark_order_perm repo plain (d.usesFastAbi settings)
  have resolved : interfaces ⟨repo, .display, settings⟩ h =
      .ok (s.order repo (d.usesFastAbi settings)) :=
    bind_eq_ok_iff.mpr ⟨d, got, bind_eq_ok_iff.mpr ⟨s, run, rfl⟩⟩
  refine ⟨_, resolved, perm, ?_⟩
  intro entry member
  obtain ⟨target, tells⟩ := tell entry.unmark (perm.subset (List.mem_map_of_mem member))
  exact ⟨target, tells.of_unmark⟩

/-- A panel, at handle 3, whose own interface requires a box of boxes; what instantiates the box
is written twice over. -/
def boxedPanel : Repository := .ofList [
  .interfaceNamed "Coll" "IBag`1" [],
  .interfaceNamed "Coll" "IBox`1" [⟨.inst (.handle ⟨0⟩) [.array (.param 0)], []⟩],
  .ofPanel "IPanel" 0x10000
    [⟨.inst (.inst (.named ⟨"Coll", "IBox`1"⟩) [.element .string]) [.element .int32], []⟩] [],
  ⟨⟨"Demo", "Panel"⟩, .classType, [], none, [(toDemo "IPanel").markDefault], [], [],
    [.metadata "FastAbiAttribute" []]⟩]

theorem entries_tell_names_of_boxedPanel :
    ∃ s laid, Surface.ofType boxedPanel .display ⟨3⟩ = .ok s ∧
      interfaces ⟨boxedPanel, .display, fastSettings⟩ ⟨3⟩ = .ok laid ∧
      s.toList.map (fun entry => (entry.1, entry.2.scope.outermostFirst)) =
        [("Coll.IBag`1<Int32[]>", [["Int32"], ["Int32[]"]]), ("Coll.IBox`1<Int32>", [["Int32"]]),
          ("Demo.IPanel", [])] ∧
      (laid.toList.map Exposure.unmark).Perm s.toList ∧
      (∀ entry ∈ s.toList, ∃ d, entry.TellsName boxedPanel d) ∧
      ∀ entry ∈ laid.toList, ∃ d, entry.TellsName boxedPanel d := by
  have run : ∃ s, Surface.ofType boxedPanel .display ⟨3⟩ = .ok s ∧
      s.toList.map (fun entry => (entry.1, entry.2.scope.outermostFirst)) =
        [("Coll.IBag`1<Int32[]>", [["Int32"], ["Int32[]"]]), ("Coll.IBox`1<Int32>", [["Int32"]]),
          ("Demo.IPanel", [])] := ⟨_, rfl, by decide⟩
  obtain ⟨s, run, frames⟩ := run
  obtain ⟨tell, settled⟩ := entries_tell_names run
  obtain ⟨laid, resolved, perm, tellToo⟩ := settled fastSettings
  exact ⟨s, laid, run, resolved, frames, perm, tell, tellToo⟩

end Projection
end InterfaceSurface
