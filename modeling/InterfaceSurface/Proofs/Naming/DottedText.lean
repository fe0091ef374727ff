import InterfaceSurface.Metadata.TypeName

/-! # Names and their dotted texts

A name is printed with a dot between its two parts, or as its simple name alone if it has no
namespace.  A text is read by its last dot.  So what is read has no dot in its simple name, and
just the names of that kind are read back from their texts (`TypeName.parse_display_iff`).

A text without a dot, or with something in front of its last dot, is printed as it was.  The
one text that is not is a dot followed by a simple name: what is read from it has no namespace,
and nothing tells that there was a dot (`TypeName.display_parse_iff`). -/
set_option autoImplicit false
namespace InterfaceSurface
namespace TypeName

/-- The first character is a dot, and no other is. -/
def HasOnlyLeadingDot (text : String) : Prop :=
  ∃ rest : String, text = "." ++ rest ∧ '.' ∉ rest.toList

/-! ## The last dot -/

theorem splitAtLastDot_of_dotless {chars : List Char} (dotless : '.' ∉ chars) :
    splitAtLastDot chars = none := by
  induction chars with
  | nil => rfl
  | cons c rest ih =>
      rw [List.mem_cons, not_or] at dotless
      obtain ⟨other, dotless⟩ := dotless
      rw [splitAtLastDot, ih dotless, if_neg (Ne.symm other)]

theorem splitAtLastDot_append (front : List Char) {back : List Char} (dotless : '.' ∉ back) :
    splitAtLastDot (front ++ '.' :: back) = some (front, back) := by
  induction front with
  | nil => simp [splitAtLastDot, splitAtLastDot_of_dotless dotless]
  | cons c front ih => rw [List.cons_append, splitAtLastDot, ih]

theorem dotless_or_split (chars : List Char) :
    '.' ∉ chars ∨ ∃ front back, chars = front ++ '.' :: back ∧ '.' ∉ back := by
  induction chars with
  | nil => exact .inl List.not_mem_nil
  | cons c rest ih =>
      rcases ih with dotless | ⟨front, back, rfl, dotless⟩
      · by_cases dot : c = '.'
        · exact .inr ⟨[], rest, by rw [dot, List.nil_append], dotless⟩
        · exact .inl (List.not_mem_cons_of_ne_of_not_mem (Ne.symm dot) dotless)
      · exact .inr ⟨c :: front, back, rfl, dotless⟩

/-! ## Reading -/

theorem parse_of_dotless {text : String} (dotless : '.' ∉ text.toList) :
    parse text = ⟨"", text⟩ := by
  rw [parse, splitAtLastDot_of_dotless dotless]

theorem parse_dotted (space : String) {name : String} (dotless : '.' ∉ name.toList) :
    parse (space ++ "." ++ name) = ⟨space, name⟩ := by
  have chars : (space ++ "." ++ name).toList = space.toList ++ '.' :: name.toList := by simp
  rw [parse, chars, splitAtLastDot_append _ dotless]
  simp

/-- Every text is a simple name, or a simple name behind a dot. -/
theorem dotless_or_dotted (text : String) :
    '.' ∉ text.toList ∨
      ∃ space name : String, text = space ++ "." ++ name ∧ '.' ∉ name.toList := by
  rcases dotless_or_split text.toList with dotless | ⟨front, back, split, dotless⟩
  · exact .inl dotless
  · refine .inr ⟨String.ofList front, String.ofList back, String.toList_inj.mp ?_, by simpa⟩
    simp [split]

theorem dotless_of_parse (text : String) : '.' ∉ (parse text).name.toList := by
  rcases dotless_or_dotted text with dotless | ⟨space, name, rfl, dotless⟩
  · rwa [parse_of_dotless dotless]
  · rwa [parse_dotted space dotless]

/-! ## Printing and reading -/

theorem display_of_spaceless (name : String) : display ⟨"", name⟩ = name := rfl

theorem display_of_spaced {n : TypeName} (spaced : n.space ≠ "") :
    n.display = n.space ++ "." ++ n.name := by
  have filled : n.space.isEmpty = false := by simpa using spaced
  rw [display, filled]
  rfl

theorem parse_display_iff (n : TypeName) : parse n.display = n ↔ '.' ∉ n.name.toList := by
  constructor
  · intro same
    exact same ▸ dotless_of_parse n.display
  · intro dotless
    by_cases spaceless : n.space = ""
    · obtain ⟨space, name⟩ := n
      subst spaceless
      exact parse_of_dotless dotless
    · rw [display_of_spaced spaceless, parse_dotted n.space dotless]

theorem display_parse_of_leadingDot {rest : String} (dotless : '.' ∉ rest.toList) :
    (parse ("." ++ rest)).display = rest := by
  have read : parse ("" ++ "." ++ rest) = ⟨"", rest⟩ := parse_dotted "" dotless
  rw [String.empty_append] at read
  rw [read, display_of_spaceless]

theorem display_parse_iff (text : String) :
    (parse text).display = text ↔ ¬ HasOnlyLeadingDot text := by
  constructor
  · intro same ⟨rest, split, dotless⟩
    rw [split, display_parse_of_leadingDot dotless] at same
    -- The dot that was lost would have to be in the rest.
    exact dotless (same ▸ by simp)
  · intro other
    rcases dotless_or_dotted text with dotless | ⟨space, name, rfl, dotless⟩
    · rw [parse_of_dotless dotless, display_of_spaceless]
    · rw [parse_dotted space dotless]
      apply display_of_spaced
      intro (spaceless : space = "")
      exact other ⟨name, by rw [spaceless, String.empty_append], dotless⟩

/-- Just the names without a dot in the simple name are read back from their texts, so these
texts differ; and every text is printed back but one that has a dot in front and no other, which
loses it. -/
theorem round_trip_exactly :
    (∀ n : TypeName, parse n.display = n ↔ '.' ∉ n.name.toList) ∧
      (∀ n m : TypeName, '.' ∉ n.name.toList → '.' ∉ m.name.toList →
        n.display = m.display → n = m) ∧
      (∀ text : String, (parse text).display = text ↔ ¬ HasOnlyLeadingDot text) ∧
      ∀ rest : String, '.' ∉ rest.toList → (parse ("." ++ rest)).display = rest := by
  refine ⟨parse_display_iff, ?_, display_parse_iff, fun _ => display_parse_of_leadingDot⟩
  intro n m dotless dotlessToo same
  have read := (parse_display_iff n).mpr dotless
  rw [same, (parse_display_iff m).mpr dotlessToo] at read
  exact read.symm

/-- A namespace may be made of dots, and a simple name may be empty. -/
theorem round_trip_exactly_of_oddNames :
    parse (display ⟨"Ω..Coll.", "IList`1"⟩) = ⟨"Ω..Coll.", "IList`1"⟩ ∧
      parse (display ⟨".", ""⟩) = ⟨".", ""⟩ ∧ parse (display ⟨"Ω", "a.b"⟩) ≠ ⟨"Ω", "a.b"⟩ ∧
      (parse "..IΩ").display = "..IΩ" ∧ (parse ".IΩ").display = "IΩ" := by
  obtain ⟨names, _, texts, leading⟩ := round_trip_exactly
  refine ⟨(names _).mpr (by decide), (names _).mpr (by decide), ?_, (texts _).mpr ?_,
    leading "IΩ" (by decide)⟩
  · intro same
    exact absurd ((names _).mp same) (by decide)
  · intro ⟨rest, split, dotless⟩
    have same : ".IΩ" = rest := String.append_right_inj "." |>.mp split
    subst same
    exact dotless (by decide)

end TypeName
end InterfaceSurface
