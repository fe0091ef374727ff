import InterfaceSurface.Proofs.Closure.Grounded

/-! # Required interfaces come first

A name gets its place when it is first written, and keeps it when it is upgraded
(`exists_first_write`).  At that moment all that a listed interface requires is listed, and
under another name; so what it requires stands before it, also when the entry has been
overwritten since and is now told by another path (`required_before`). -/
set_option autoImplicit false
namespace InterfaceSurface
namespace Surface

/-- When a name got its place, the names before it were there, and no others. -/
theorem exists_first_write {log : List Write} {place : Nat} {key : String}
    (stands : (empty.replay log).names[place]? = some key) :
    ∃ front w, front ++ [w] <+: log ∧ w.entry.1 = key ∧
      (empty.replay front).names = (empty.replay log).names.take place := by
  induction log using List.reverseRecOn with
  | nil => simp [Surface.replay, empty, names, toList] at stands
  | append_singleton log w ih =>
      have indexed := indexed_empty.replay log
      rw [replay_concat, write] at stands ⊢
      by_cases present : w.entry.1 ∈ (empty.replay log).names
      · rw [indexed.names_insertOrAssign_of_present present] at stands ⊢
        obtain ⟨front, first, within, named, before⟩ := ih stands
        exact ⟨front, first, within.trans (List.prefix_append log [w]), named, before⟩
      · rw [indexed.names_insertOrAssign_of_absent present] at stands ⊢
        rcases Nat.lt_or_ge place (empty.replay log).names.length with inside | outside
        · rw [List.getElem?_append_left inside] at stands
          obtain ⟨front, first, within, named, before⟩ := ih stands
          rw [List.take_append_of_le_length (Nat.le_of_lt inside)]
          exact ⟨front, first, within.trans (List.prefix_append log [w]), named, before⟩
        · rw [List.getElem?_append_right outside, List.getElem?_singleton] at stands
          split at stands
          · have last : place = (empty.replay log).names.length := by omega
            rw [last, List.take_left]
            exact ⟨log, w, List.prefix_rfl, Option.some.inj stands, rfl⟩
          · cases stands

variable {repo : Repository} {renderer : Renderer} {d : TypeDef} {s : Surface}

/-- What lies right behind the end of a path stands before the name the path ends at. -/
theorem before_of_reaches (acyclic : repo.Acyclic) (consistent : renderer.Consistent repo d)
    (run : ofDefinition repo renderer d = .ok s) {base : Bool} {path : List Edge} {e : Edge}
    {place : Nat} {key : String} (hpath : path ≠ []) (onward : d.Reaches repo base (path ++ [e]))
    (named : keyOf? repo renderer path = some key) (stands : s.names[place]? = some key) :
    ∃ earlier < place,
      s.names[earlier]? = some (renderer.type repo e.target (scopeBehind repo renderer path)) := by
  have tracked : (ofDefinitionLogged repo renderer d).Tracked repo renderer _ empty :=
    tracked_ofDefinitionLogged d
  rw [← outcome_ofDefinitionLogged] at run
  rw [tracked.rebuilds s run] at stands ⊢
  obtain ⟨front, w, within, rfl, before⟩ := exists_first_write stands
  have indexed := indexed_empty.replay front
  have entered : w.entry.1 ∈ (empty.replay (front ++ [w])).names := by
    rw [replay_concat, write]
    exact indexed.mem_names_insertOrAssign.mpr (.inl rfl)
  have lists := grounded_of_accounted consistent tracked.accounted within base path e hpath onward
    ⟨w.entry.1, named, entered⟩
  rw [lists_concat_iff, replay_concat, write, indexed.mem_names_insertOrAssign, before] at lists
  have apart : renderer.type repo e.target (scopeBehind repo renderer path) ≠ w.entry.1 := by
    intro same
    refine consistent.keyOf?_ne acyclic hpath (by simp) onward ?_
    rw [keyOf?_concat, named, same]
  obtain ⟨earlier, there⟩ := List.mem_iff_getElem?.mp (lists.resolve_left apart)
  rw [List.getElem?_take] at there
  split at there
  · exact ⟨earlier, ‹earlier < place›, there⟩
  · cases there

/-- Each interface that an entry requires stands before it, under the name it has in the scope of
the entry. -/
theorem required_before {h : Handle} (known : repo.get? h = some d) (acyclic : repo.Acyclic)
    (consistent : renderer.Consistent repo d) (run : ofType repo renderer h = .ok s) :
    ∀ (place : Nat) (entry : Exposure), s.toList[place]? = some entry →
      ∃ required, repo.get? entry.2.type = some required ∧
        ∀ e ∈ required.edges, ∃ earlier < place,
          s.names[earlier]? = some (renderer.type repo e.target entry.2.scope) := by
  rw [ofType_eq_ofDefinition known] at run
  rintro place ⟨key, facet⟩ stands
  obtain ⟨base, path, reaches, finds⟩ := exists_path_of_mem run (List.mem_of_getElem? stands)
  obtain ⟨named, said⟩ := Exposure.atEnd?_eq_some finds
  obtain ⟨last, target, required, isLast, resolved, found, rfl⟩ := Facet.exists_of_atEnd? said
  refine ⟨required, found, fun e listed => ?_⟩
  have leads : last.targetDef? repo = some required :=
    (last.targetDef?_eq_some_iff repo required).mpr ⟨target, resolved, found⟩
  have placed : s.names[place]? = some key := by rw [names, List.getElem?_map, stands]; rfl
  exact before_of_reaches acyclic consistent run reaches.ne_nil
    (reaches.extend isLast leads (.stop listed)) named placed

/-- A row, at handle 3, declares a list and then, as its default, a vector, which is a list. -/
def rows : Repository := .ofList [
  .interfaceNamed "Coll" "IIterable`1" [],
  .interfaceNamed "Coll" "IList`1" [iterableOf (.param 0)],
  .interfaceNamed "Coll" "IVector`1" [listOf (.param 0)],
  ⟨⟨"Demo", "Row"⟩, .classType, [], none,
    [listOf (.element .int32),
      .markDefault ⟨.inst (.named ⟨"Coll", "IVector`1"⟩) [.element .int32], []⟩], [], [], []⟩]

/-- The list is entered for itself, and once more for the vector, in another scope. -/
theorem required_before_of_rows :
    ∃ d s, rows.get? ⟨3⟩ = some d ∧ rows.Acyclic ∧ Renderer.display.Consistent rows d ∧
      ofType rows .display ⟨3⟩ = .ok s ∧
      s.toList.map (fun entry => (entry.1, entry.2.scope)) =
        [("Coll.IIterable`1<Int32>", ⟨[["Int32"], ["Int32"], ["Int32"]]⟩),
          ("Coll.IList`1<Int32>", ⟨[["Int32"], ["Int32"]]⟩),
          ("Coll.IVector`1<Int32>", ⟨[["Int32"]]⟩)] ∧
      ∀ (place : Nat) (entry : Exposure), s.toList[place]? = some entry →
        ∃ required, rows.get? entry.2.type = some required ∧
          ∀ e ∈ required.edges, ∃ earlier < place,
            s.names[earlier]? = some (displayType rows entry.2.scope e.target) := by
  have acyclic : rows.Acyclic := Repository.acyclic_of_descending (by decide)
  obtain ⟨d, known, consistent⟩ :
      ∃ d, rows.get? ⟨3⟩ = some d ∧ Renderer.display.Consistent rows d :=
    ⟨_, rfl, Renderer.consistent_of_routes acyclic (by decide)⟩
  obtain ⟨s, run, entries⟩ : ∃ s, ofType rows .display ⟨3⟩ = .ok s ∧
      s.toList.map (fun entry => (entry.1, entry.2.scope)) =
        [("Coll.IIterable`1<Int32>", ⟨[["Int32"], ["Int32"], ["Int32"]]⟩),
          ("Coll.IList`1<Int32>", ⟨[["Int32"], ["Int32"]]⟩),
          ("Coll.IVector`1<Int32>", ⟨[["Int32"]]⟩)] := ⟨_, rfl, by decide⟩
  exact ⟨d, s, known, acyclic, consistent, run, entries,
    required_before known acyclic consistent run⟩

end Surface
end InterfaceSurface
