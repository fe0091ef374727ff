import InterfaceSurface.Proofs.Layout.Order

/-! # Layouts of growing surfaces

A new entry that ranks behind the marked ones leaves them where they are.  It may
raise the number of places, but the last place need not go to the new entry: a
default that is not eligible may have kept an older entry out. -/
set_option autoImplicit false
namespace InterfaceSurface
namespace Surface

def markedEntries (s : Surface) : List Exposure := s.toList.filter (·.2.leading)

variable {repo : Repository} {s : Surface}

theorem markedEntries_order (plain : ∀ entry ∈ s.toList, entry.2.leading = false) :
    (s.order repo true).markedEntries =
      ((s.leadingPart repo).map Prod.fst).map Exposure.markLeading := by
  have front : (((s.leadingPart repo).map Prod.fst).map Exposure.markLeading).filter
      (·.2.leading) = ((s.leadingPart repo).map Prod.fst).map Exposure.markLeading := by
    apply List.filter_eq_self.mpr
    intro entry marked
    obtain ⟨_, _, rfl⟩ := List.mem_map.mp marked
    rfl
  have back : (s.remainder repo).filter (·.2.leading) = [] := by
    apply List.filter_eq_nil_iff.mpr
    intro entry rest
    simp [plain entry (remainder_sublist.mem rest)]
  rw [order, if_pos rfl, markedEntries, toList_layOut, List.filter_append, front, back,
    List.append_nil]

/-! ## What is marked -/

/-- Some eligible entry is not ranked before a given one of the leading part. -/
theorem exists_eligible_of_leading (distinct : s.names.Nodup) {entry : Exposure}
    (leads : entry ∈ (s.leadingPart repo).map Prod.fst) :
    ∃ last ∈ s.toList, last.eligible = true ∧ (entry = last ∨ entry.Below repo last) := by
  rw [entries_leadingPart] at leads
  obtain ⟨front, back, split⟩ := List.append_of_mem leads
  have ranking := List.take_append_drop s.leadingCount ((s.ranked repo).map Prod.fst)
  rw [split, List.append_assoc] at ranking
  have short : front.length < s.leadingCount := by
    have bound := congrArg List.length split
    simp only [List.length_take, List.length_append, List.length_cons] at bound
    omega
  have few : front.countP Exposure.eligible ≤ front.length := List.countP_le_length
  have total : ((s.ranked repo).map Prod.fst).countP Exposure.eligible = s.leadingCount :=
    (s.ranked_entries_perm repo).countP_eq _
  rw [← ranking, List.countP_append] at total
  -- The entries before the given one are too few to be all of the eligible ones.
  have more : 0 < (entry :: back ++ ((s.ranked repo).map Prod.fst).drop s.leadingCount).countP
      Exposure.eligible := by
    omega
  obtain ⟨last, listed, eligible⟩ := List.countP_pos_iff.mp more
  have ascending : ((s.ranked repo).map Prod.fst).Pairwise (Exposure.Below repo) :=
    ranked_ascending distinct
  rw [← ranking] at ascending
  have later := (List.pairwise_cons.mp (List.pairwise_append.mp ascending).2.1).1
  have member : last ∈ s.toList := by
    refine (s.ranked_entries_perm repo).mem_iff.mp ?_
    rw [← ranking]
    exact List.mem_append_right _ listed
  refine ⟨last, member, eligible, ?_⟩
  rcases List.mem_cons.mp listed with same | behind
  · exact .inl same.symm
  · exact .inr (later last behind)

/-- An entry of the leading part that is not eligible got there as a default, before an eligible
entry that is none. -/
theorem eligible_or_default_of_leading (distinct : s.names.Nodup) {entry : Exposure}
    (leads : entry ∈ (s.leadingPart repo).map Prod.fst) :
    entry.2.base = false ∧ (entry.eligible = true ∨
      entry.2.isDefault = true ∧
        ∃ last ∈ s.toList, last.eligible = true ∧ last.2.isDefault = false) := by
  obtain ⟨last, listed, eligible, rfl | below⟩ := exists_eligible_of_leading distinct leads
  · exact ⟨Exposure.own_of_eligible eligible, .inl eligible⟩
  · obtain ⟨own, ⟨isDefault, other⟩ | isEligible⟩ := below.own_and_default_or_eligible eligible
    · exact ⟨own, .inr ⟨isDefault, last, listed, eligible, other⟩⟩
    · exact ⟨own, .inl isEligible⟩

theorem own_and_default_or_eligible_of_marked (distinct : s.names.Nodup)
    (plain : ∀ entry ∈ s.toList, entry.2.leading = false) {entry : Exposure}
    (marked : entry ∈ (s.order repo true).markedEntries) :
    entry.2.base = false ∧ (entry.2.isDefault = true ∨ entry.eligible = true) := by
  rw [markedEntries_order plain] at marked
  obtain ⟨entry, leads, rfl⟩ := List.mem_map.mp marked
  obtain ⟨own, isEligible | ⟨isDefault, _⟩⟩ := eligible_or_default_of_leading distinct leads
  · exact ⟨own, .inr isEligible⟩
  · exact ⟨own, .inl isDefault⟩

/-- An entry that is no default ranks behind the marked ones if it is newer than
those of them that are no defaults either. -/
theorem behind_of_newer (distinct : s.names.Nodup)
    (plain : ∀ entry ∈ s.toList, entry.2.leading = false) {x : Exposure}
    (other : x.2.isDefault = false)
    (newer : ∀ entry ∈ (s.order repo true).toList, entry.2.leading = true →
      entry.2.isDefault = false →
      repo.isAlwaysEnabled entry.2.type = repo.isAlwaysEnabled x.2.type ∧
        compare entry.2.version x.2.version = .lt) :
    ∀ entry ∈ (s.order repo true).toList, entry.2.leading = true → entry.Below repo x := by
  intro entry member leading
  have marked : entry ∈ (s.order repo true).markedEntries :=
    List.mem_filter.mpr ⟨member, leading⟩
  obtain ⟨own, flags⟩ := own_and_default_or_eligible_of_marked distinct plain marked
  exact Exposure.below_of_newer own flags other (newer entry member leading)

/-! ## Growth -/

/-- A new entry behind the first ones of a ranking leaves these as they are. -/
theorem take_of_grown {x : Exposure} {count : Nat} {old grown : List Exposure}
    (perm : grown.Perm (x :: old)) (oldAscending : old.Pairwise (Exposure.Below repo))
    (ascending : grown.Pairwise (Exposure.Below repo)) (enough : count ≤ old.length)
    (behind : ∀ entry ∈ old.take count, entry.Below repo x) :
    grown.take count = old.take count := by
  induction count generalizing old grown with
  | zero => rfl
  | succ count ih =>
      cases old with
      | nil => simp at enough
      | cons a old =>
          cases grown with
          | nil => simpa using perm.length_eq
          | cons b grown =>
              obtain ⟨aFirst, restAscending⟩ := List.pairwise_cons.mp oldAscending
              obtain ⟨bFirst, grownRestAscending⟩ := List.pairwise_cons.mp ascending
              have ahead : a.Below repo x := behind a (by simp)
              -- Each of the two heads is the least entry of both rankings.
              have same : b = a := by
                have aGrown : a ∈ b :: grown := perm.mem_iff.mpr (by simp)
                rcases List.mem_cons.mp aGrown with equal | later
                · exact equal.symm
                · have before := bFirst a later
                  have bOld : b ∈ x :: a :: old := perm.mem_iff.mp (by simp)
                  rcases List.mem_cons.mp bOld with rfl | bOld
                  · exact absurd ahead before.asymm
                  · rcases List.mem_cons.mp bOld with equal | bLater
                    · exact equal
                    · exact absurd (aFirst b bLater) before.asymm
              subst same
              have rest : grown.Perm (x :: old) := (perm.trans (List.Perm.swap b x old)).cons_inv
              rw [List.take_succ_cons, List.take_succ_cons,
                ih rest restAscending grownRestAscending (by simpa using enough)
                  (fun entry first => behind entry (by simp [first]))]

/-- An entry that ranks behind all marked ones moves none of them, and adds a
marked entry just if it is eligible. -/
theorem markedEntries_stable {grown : Surface} {before after : List Exposure} {x : Exposure}
    (distinct : s.names.Nodup) (plain : ∀ entry ∈ s.toList, entry.2.leading = false)
    (old : s.toList = before ++ after) (new : grown.toList = before ++ x :: after)
    (fresh : x.1 ∉ s.names) (unmarked : x.2.leading = false)
    (behind : ∀ entry ∈ (s.order repo true).toList, entry.2.leading = true →
      entry.Below repo x) :
    (s.order repo true).markedEntries <+: (grown.order repo true).markedEntries ∧
      (grown.order repo true).markedEntries.length =
        (s.order repo true).markedEntries.length + if x.eligible then 1 else 0 := by
  have perm : grown.toList.Perm (x :: s.toList) := by
    rw [old, new]
    exact List.perm_middle
  have grownDistinct : grown.names.Nodup := by
    apply ((perm.map Prod.fst).nodup_iff).mpr
    exact List.nodup_cons.mpr ⟨fresh, distinct⟩
  have grownPlain : ∀ entry ∈ grown.toList, entry.2.leading = false := by
    intro entry member
    rcases List.mem_cons.mp (perm.mem_iff.mp member) with rfl | older
    · exact unmarked
    · exact plain entry older
  have count : grown.leadingCount = s.leadingCount + if x.eligible then 1 else 0 := by
    rw [leadingCount, perm.countP_eq, List.countP_cons, leadingCount]
  have marked : (s.order repo true).markedEntries = _ := markedEntries_order plain
  have grownMarked : (grown.order repo true).markedEntries = _ :=
    markedEntries_order grownPlain
  have first : ∀ entry ∈ ((s.ranked repo).map Prod.fst).take s.leadingCount,
      entry.Below repo x := by
    intro entry leads
    rw [← entries_leadingPart] at leads
    have isMarked : entry.markLeading ∈ (s.order repo true).markedEntries := by
      rw [marked]
      exact List.mem_map_of_mem leads
    obtain ⟨member, leading⟩ := List.mem_filter.mp isMarked
    exact behind entry.markLeading member leading
  have rankings : ((grown.ranked repo).map Prod.fst).Perm (x :: (s.ranked repo).map Prod.fst) :=
    (grown.ranked_entries_perm repo).trans
      (perm.trans ((s.ranked_entries_perm repo).symm.cons x))
  have enough : s.leadingCount ≤ ((s.ranked repo).map Prod.fst).length := by
    rw [List.length_map, length_ranked]
    exact leadingCount_le
  have same := take_of_grown rankings (ranked_ascending distinct) (ranked_ascending grownDistinct)
    enough first
  constructor
  · rw [marked, grownMarked, entries_leadingPart, entries_leadingPart, ← same]
    exact (List.take_prefix_take_left (by omega)).map _
  · rw [marked, grownMarked]
    simp [length_leadingPart, count]

def newcomer : Exposure :=
  ("Demo.INew", ⟨⟨0⟩, false, false, false, false, true, false, ⟨3, 0⟩, .empty⟩)

/-- The shelf with the newer entry in second place. -/
def grownShelf : Surface := .reorder (shelf.toList.take 1 ++ newcomer :: shelf.toList.drop 1)

/-- The newer entry adds a place, which goes to the slower one that a default had kept out.  The
gated one is older than both, and its gate keeps it behind them. -/
theorem markedEntries_stable_of_shelf :
    newcomer.eligible = true ∧
      (shelf.order things true).markedEntries.map Prod.fst =
        ["Demo.IShared", "Demo.IOpen", "Demo.IFast"] ∧
      (grownShelf.order things true).markedEntries.map Prod.fst =
        ["Demo.IShared", "Demo.IOpen", "Demo.IFast", "Demo.ISlow"] ∧
      (shelf.order things true).markedEntries <+: (grownShelf.order things true).markedEntries ∧
      (grownShelf.order things true).markedEntries.length =
        (shelf.order things true).markedEntries.length + if newcomer.eligible then 1 else 0 := by
  have distinct : shelf.names.Nodup := by decide
  have plain : ∀ entry ∈ shelf.toList, entry.2.leading = false := by decide
  have checked : ((shelf.order things true).toList.all fun entry =>
      !entry.2.leading || entry.2.isDefault ||
        (entry.2.type == newcomer.2.type &&
          decide (compare entry.2.version newcomer.2.version = .lt))) = true := by
    rw [order_things]
    cbv
  have behind : ∀ entry ∈ (shelf.order things true).toList, entry.2.leading = true →
      entry.Below things newcomer := by
    apply behind_of_newer distinct plain rfl
    intro entry member leading other
    obtain ⟨sameType, older⟩ :
        entry.2.type = newcomer.2.type ∧ compare entry.2.version newcomer.2.version = .lt := by
      simpa [leading, other] using List.all_eq_true.mp checked entry member
    exact ⟨congrArg things.isAlwaysEnabled sameType, older⟩
  refine ⟨by decide, ?_, ?_, ?_⟩
  · rw [order_things]
    cbv
  · rw [order_things]
    cbv
  · exact markedEntries_stable distinct plain (List.take_append_drop 1 shelf.toList).symm
      (by decide) (by decide) (by decide) behind

end Surface
end InterfaceSurface
