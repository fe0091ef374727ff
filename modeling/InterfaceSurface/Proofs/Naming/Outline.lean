import InterfaceSurface.Naming.Renderer
import Mathlib.Logic.Function.Basic

/-! # What a printed text tells

A printed text is made of words: names of elements, dotted names and positions of
parameters.  Six characters end a word, and no word has one of them in it, so a text is
cut into words in one way only; readable words are told apart by their texts
(`Word.eq_of_text`).

The outline of a text is a word, with arguments if the word is the name of an
instantiation, and a number of array brackets behind it.  A text has one outline at most
(`Outline.eq_of_chars`): arguments are separated by commas and closed by an angle bracket,
neither of which can go on with the outline before it. -/
set_option autoImplicit false
namespace InterfaceSurface

/-! ## Delimiters -/

/-- The characters that end a word. -/
def delimiters : List Char := ['<', '>', ',', ' ', '[', ']']

/-- Nothing in the text ends a word. -/
def Plain (text : String) : Prop := ∀ c ∈ text.toList, c ∉ delimiters

instance (text : String) : Decidable (Plain text) :=
  decidable_of_iff (text.toList.all fun c => !delimiters.contains c) (by simp [Plain])

/-- A list is cut where some kind of character comes first. -/
theorem eq_and_eq_of_append {kind : Char → Prop} {front frontToo back backToo : List Char}
    (inner : ∀ c ∈ front, ¬ kind c) (innerToo : ∀ c ∈ frontToo, ¬ kind c)
    (stops : ∀ c ∈ back.head?, kind c) (stopsToo : ∀ c ∈ backToo.head?, kind c)
    (same : front ++ back = frontToo ++ backToo) : front = frontToo ∧ back = backToo := by
  rcases List.append_eq_append_iff.mp same with ⟨more, rfl, rfl⟩ | ⟨more, rfl, rfl⟩
  · cases more with
    | nil => simp
    | cons c rest => exact absurd (stops c rfl) (innerToo c (by simp))
  · cases more with
    | nil => simp
    | cons c rest => exact absurd (stopsToo c rfl) (inner c (by simp))

/-- A dotted name that can be read back: its last dot comes before the simple name, and it
is one word. -/
structure TypeName.Readable (n : TypeName) : Prop where
  space_ne : n.space ≠ ""
  dotless : '.' ∉ n.name.toList
  space_plain : Plain n.space
  name_plain : Plain n.name

namespace TypeName.Readable

variable {n other : TypeName}

theorem toList_display (readable : n.Readable) :
    n.display.toList = n.space.toList ++ '.' :: n.name.toList := by
  have spaced : n.space.isEmpty = false := by simpa using readable.space_ne
  simp [TypeName.display, spaced]

theorem display_plain (readable : n.Readable) : Plain n.display := by
  intro c inside
  rw [readable.toList_display] at inside
  rcases List.mem_append.mp inside with early | late
  · exact readable.space_plain c early
  · rcases List.mem_cons.mp late with rfl | late
    · decide
    · exact readable.name_plain c late

theorem dot_mem (readable : n.Readable) : '.' ∈ n.display.toList := by
  simp [readable.toList_display]

/-- Read from the back, a dotted name is cut at its first dot. -/
theorem eq_of_display (readable : n.Readable) (readableToo : other.Readable)
    (same : n.display = other.display) : n = other := by
  have turned : n.name.toList.reverse ++ '.' :: n.space.toList.reverse =
      other.name.toList.reverse ++ '.' :: other.space.toList.reverse := by
    have texts := congrArg (fun text => text.toList.reverse) same
    simpa [readable.toList_display, readableToo.toList_display] using texts
  have dotless : ∀ {m : TypeName}, m.Readable → ∀ c ∈ m.name.toList.reverse, ¬ c = '.' := by
    rintro m readable c inside rfl
    exact readable.dotless (List.mem_reverse.mp inside)
  obtain ⟨names, spaces⟩ := eq_and_eq_of_append (dotless readable) (dotless readableToo)
    (by simp) (by simp) turned
  cases n
  cases other
  simpa [String.toList_inj] using And.intro spaces names

end TypeName.Readable

/-! ## Words -/

inductive Word
  | element (item : Element)
  | dotted (name : TypeName)
  | param (position : Nat)

theorem Element.name_injective : Function.Injective Element.name := by
  intro a b same
  cases a <;> cases b <;> first | rfl | exact absurd same (by decide)

namespace Word

def text : Word → String
  | .element item => item.name
  | .dotted name => name.display
  | .param position => paramText .empty position

def Readable : Word → Prop
  | .element _ => True
  | .dotted name => name.Readable
  | .param _ => True

theorem toList_text_param (position : Nat) :
    (param position).text.toList = 'T' :: Nat.toDigits 10 position := by
  simp [text, paramText, Scope.arg?, Scope.innermost?, Scope.empty]

theorem isDigit_of_mem_text_param {position : Nat} {c : Char}
    (inside : c ∈ (param position).text.toList) : c = 'T' ∨ c.isDigit = true := by
  rw [toList_text_param] at inside
  rcases List.mem_cons.mp inside with first | digit
  · exact .inl first
  · exact .inr (Nat.isDigit_of_mem_toDigits (by decide) (by decide) digit)

theorem text_plain : ∀ {w : Word}, w.Readable → Plain w.text
  | .element item, _ => by cases item <;> decide
  | .dotted _, readable => readable.display_plain
  | .param _, _ => by
      intro c inside delimits
      rcases isDigit_of_mem_text_param inside with rfl | digit
      · exact absurd delimits (by decide)
      · have none : delimiters.all (fun c => !c.isDigit) = true := by decide
        simpa [digit] using List.all_eq_true.mp none c delimits

theorem text_ne_nil : ∀ {w : Word}, w.Readable → w.text.toList ≠ []
  | .element item, _ => by cases item <;> decide
  | .dotted _, readable => List.ne_nil_of_mem readable.dot_mem
  | .param _, _ => by simp [toList_text_param]

/-- Only dotted names have dots in them. -/
theorem dot_notMem : ∀ {w : Word}, (∀ name, w ≠ .dotted name) → '.' ∉ w.text.toList
  | .element item, _ => by cases item <;> decide
  | .dotted name, other => absurd rfl (other name)
  | .param _, _ => by
      intro inside
      rcases isDigit_of_mem_text_param inside with first | digit
      · exact absurd first (by decide)
      · exact absurd digit (by decide)

theorem text_ne_dotted {w : Word} {name : TypeName} (readable : name.Readable)
    (other : ∀ name, w ≠ .dotted name) : w.text ≠ (dotted name).text := by
  intro same
  have dot : '.' ∈ (dotted name).text.toList := readable.dot_mem
  exact dot_notMem other (same ▸ dot)

theorem element_text_ne_param (item : Element) (position : Nat) :
    (element item).text ≠ (param position).text := by
  intro same
  have heads := congrArg (fun text => text.toList.head?) same
  simp only [toList_text_param, List.head?_cons] at heads
  cases item <;> exact absurd heads (by decide)

theorem param_text_injective : Function.Injective fun position => (param position).text := by
  intro position other same
  have digits := congrArg String.toList same
  simp only [toList_text_param, List.cons.injEq, true_and] at digits
  have values := congrArg (fun digits => Nat.ofDigitChars 10 digits 0) digits
  simpa only [Nat.ofDigitChars_ten_toDigits] using values

/-- Readable words of one text are the same word. -/
theorem eq_of_text {w v : Word} (readable : w.Readable) (readableToo : v.Readable)
    (same : w.text = v.text) : w = v := by
  cases w with
  | element item =>
      cases v with
      | element itemToo => exact congrArg _ (Element.name_injective same)
      | dotted name => exact absurd same (text_ne_dotted readableToo (by simp))
      | param position => exact absurd same (element_text_ne_param item position)
  | dotted name =>
      cases v with
      | element item => exact absurd same.symm (text_ne_dotted readable (by simp))
      | dotted nameToo =>
          exact congrArg _ (TypeName.Readable.eq_of_display readable readableToo same)
      | param position => exact absurd same.symm (text_ne_dotted readable (by simp))
  | param position =>
      cases v with
      | element item => exact absurd same.symm (element_text_ne_param item position)
      | dotted name => exact absurd same (text_ne_dotted readableToo (by simp))
      | param positionToo => exact congrArg _ (param_text_injective same)

/-- A readable word is cut off where a delimiter comes first. -/
theorem eq_of_append {w v : Word} (readable : w.Readable) (readableToo : v.Readable)
    {back backToo : List Char} (stops : ∀ c ∈ back.head?, c ∈ delimiters)
    (stopsToo : ∀ c ∈ backToo.head?, c ∈ delimiters)
    (same : w.text.toList ++ back = v.text.toList ++ backToo) :
    w = v ∧ back = backToo := by
  obtain ⟨texts, backs⟩ :=
    eq_and_eq_of_append (text_plain readable) (text_plain readableToo) stops stopsToo same
  exact ⟨eq_of_text readable readableToo (String.toList_inj.mp texts), backs⟩

/-- A readable word starts with something. -/
theorem append_ne_delimiter {w : Word} (readable : w.Readable) {c : Char}
    (delimits : c ∈ delimiters) (back rest : List Char) :
    w.text.toList ++ back ≠ c :: rest := by
  intro same
  cases chars : w.text.toList with
  | nil => exact text_ne_nil readable chars
  | cons first more =>
      rw [chars] at same
      cases same
      exact text_plain readable c (by simp [chars]) delimits

end Word

/-! ## Outlines -/

/-- A word, or a name with arguments, and the number of array brackets behind. -/
inductive Outline
  | plain (word : Word) (rank : Nat)
  | inst (name : TypeName) (args : List Outline) (rank : Nat)

def brackets : Nat → List Char
  | 0 => []
  | rank + 1 => '[' :: ']' :: brackets rank

/-- Texts one after the other, with commas and spaces between them. -/
def separated : List (List Char) → List Char
  | [] => []
  | first :: rest => first ++ rest.flatMap fun text => ',' :: ' ' :: text

mutual

def Outline.chars : Outline → List Char
  | .plain word rank => word.text.toList ++ brackets rank
  | .inst name args rank =>
      name.display.toList ++ '<' :: (separated (Outline.texts args) ++ '>' :: brackets rank)

def Outline.texts : List Outline → List (List Char)
  | [] => []
  | outline :: rest => outline.chars :: Outline.texts rest

end

mutual

def Outline.Readable : Outline → Prop
  | .plain word _ => word.Readable
  | .inst name args _ => name.Readable ∧ Outline.AllReadable args

def Outline.AllReadable : List Outline → Prop
  | [] => True
  | outline :: rest => outline.Readable ∧ Outline.AllReadable rest

end

theorem intercalate_comma : ∀ texts : List (List Char),
    [',', ' '].intercalate texts = separated texts
  | [] => rfl
  | [first] => by simp [separated]
  | first :: second :: rest => by
      rw [List.intercalate_cons_cons, intercalate_comma (second :: rest)]
      simp [separated]

/-! ## One outline for each text -/

/-- What can follow an outline: nothing, another argument or the end of all arguments. -/
def Closes (back : List Char) : Prop := ∀ c ∈ back.head?, c = ',' ∨ c = '>'

theorem Closes.nil : Closes [] := by simp [Closes]

theorem Closes.later (texts : List (List Char)) (back : List Char) :
    Closes ((texts.flatMap fun text => ',' :: ' ' :: text) ++ '>' :: back) := by
  cases texts <;> simp [Closes]

theorem Closes.ne_cons {back : List Char} (closes : Closes back) {c : Char}
    (opens : ¬ (c = ',' ∨ c = '>')) (rest : List Char) : back ≠ c :: rest := by
  rintro rfl
  exact opens (closes c rfl)

theorem brackets_stop (rank : Nat) {back : List Char} (closes : Closes back) :
    ∀ c ∈ (brackets rank ++ back).head?, c ∈ delimiters := by
  intro c first
  cases rank with
  | zero => rcases closes c first with rfl | rfl <;> decide
  | succ rank =>
      cases first
      decide

theorem brackets_ne_angle (rank : Nat) {back : List Char} (closes : Closes back)
    (rest : List Char) : brackets rank ++ back ≠ '<' :: rest := by
  cases rank with
  | zero => exact closes.ne_cons (by decide) rest
  | succ rank => simp [brackets]

theorem eq_of_brackets {rank rankToo : Nat} {back backToo : List Char} (closes : Closes back)
    (closesToo : Closes backToo)
    (same : brackets rank ++ back = brackets rankToo ++ backToo) :
    rank = rankToo ∧ back = backToo := by
  induction rank generalizing rankToo with
  | zero =>
      cases rankToo with
      | zero => exact ⟨rfl, same⟩
      | succ rankToo => exact absurd same (closes.ne_cons (by decide) _)
  | succ rank ih =>
      cases rankToo with
      | zero => exact absurd same.symm (closesToo.ne_cons (by decide) _)
      | succ rankToo =>
          simp only [brackets, List.cons_append, List.cons.injEq, true_and] at same
          obtain ⟨ranks, backs⟩ := ih same
          exact ⟨congrArg _ ranks, backs⟩

/-- An outline starts with a word, so not with a delimiter. -/
theorem Outline.chars_ne_delimiter : ∀ {outline : Outline}, outline.Readable → ∀ {c : Char},
    c ∈ delimiters → ∀ back rest : List Char, outline.chars ++ back ≠ c :: rest
  | .plain word rank, readable, c, delimits, back, rest => by
      rw [Outline.chars, List.append_assoc]
      exact Word.append_ne_delimiter readable delimits _ _
  | .inst name args rank, readable, c, delimits, back, rest => by
      rw [Outline.chars, List.append_assoc]
      exact Word.append_ne_delimiter (w := .dotted name) readable.1 delimits _ _

mutual

/-- An outline can be read off the text it begins, if what follows does not go on with it. -/
-- What follows is left open on both sides, so that an argument can be followed by the rest of
-- its list; two outlines are known to end at the same place only once they are known equal.
theorem Outline.eq_of_chars : ∀ (outline other : Outline) {back backToo : List Char},
    outline.Readable → other.Readable → Closes back → Closes backToo →
    outline.chars ++ back = other.chars ++ backToo → outline = other ∧ back = backToo
  | .plain word rank, .plain wordToo rankToo, back, backToo, readable, readableToo, closes,
      closesToo, same => by
      simp only [Outline.chars, List.append_assoc] at same
      obtain ⟨words, tails⟩ := Word.eq_of_append readable readableToo (brackets_stop rank closes)
        (brackets_stop rankToo closesToo) same
      obtain ⟨ranks, backs⟩ := eq_of_brackets closes closesToo tails
      exact ⟨by rw [words, ranks], backs⟩
  | .plain word rank, .inst name args rankToo, back, backToo, readable, readableToo, closes,
      closesToo, same => by
      simp only [Outline.chars, List.append_assoc, List.cons_append] at same
      -- Behind the same word, one text opens its arguments and the other does not.
      obtain ⟨_, tails⟩ := Word.eq_of_append (v := .dotted name) readable readableToo.1
        (brackets_stop rank closes) (by simp [delimiters]) same
      exact absurd tails (brackets_ne_angle rank closes _)
  | .inst name args rank, .plain word rankToo, back, backToo, readable, readableToo, closes,
      closesToo, same => by
      simp only [Outline.chars, List.append_assoc, List.cons_append] at same
      obtain ⟨_, tails⟩ := Word.eq_of_append (w := .dotted name) readable.1 readableToo
        (by simp [delimiters]) (brackets_stop rankToo closesToo) same
      exact absurd tails.symm (brackets_ne_angle rankToo closesToo _)
  | .inst name args rank, .inst nameToo argsToo rankToo, back, backToo, readable, readableToo,
      closes, closesToo, same => by
      simp only [Outline.chars, List.append_assoc, List.cons_append] at same
      obtain ⟨names, tails⟩ := Word.eq_of_append (w := .dotted name) (v := .dotted nameToo)
        readable.1 readableToo.1 (by simp [delimiters]) (by simp [delimiters]) same
      obtain ⟨arguments, tails⟩ := Outline.eq_of_separated args argsToo readable.2 readableToo.2
        (List.cons.inj tails).2
      obtain ⟨ranks, backs⟩ := eq_of_brackets closes closesToo tails
      cases names
      exact ⟨by rw [arguments, ranks], backs⟩

theorem Outline.eq_of_separated : ∀ (args others : List Outline) {back backToo : List Char},
    Outline.AllReadable args → Outline.AllReadable others →
    separated (Outline.texts args) ++ '>' :: back =
      separated (Outline.texts others) ++ '>' :: backToo →
    args = others ∧ back = backToo
  | [], [], _, _, _, _, same => ⟨rfl, (List.cons.inj same).2⟩
  | [], other :: others, _, _, _, readableToo, same => by
      simp only [Outline.texts, separated, List.append_assoc] at same
      exact absurd same.symm (Outline.chars_ne_delimiter readableToo.1 (by decide) _ _)
  | arg :: rest, [], _, _, readable, _, same => by
      simp only [Outline.texts, separated, List.append_assoc] at same
      exact absurd same (Outline.chars_ne_delimiter readable.1 (by decide) _ _)
  | arg :: rest, other :: others, _, _, readable, readableToo, same => by
      simp only [Outline.texts, separated, List.append_assoc] at same
      obtain ⟨first, tails⟩ := Outline.eq_of_chars arg other readable.1 readableToo.1
        (Closes.later _ _) (Closes.later _ _) same
      obtain ⟨later, backs⟩ := Outline.eq_of_later rest others readable.2 readableToo.2 tails
      exact ⟨by rw [first, later], backs⟩

theorem Outline.eq_of_later : ∀ (args others : List Outline) {back backToo : List Char},
    Outline.AllReadable args → Outline.AllReadable others →
    ((Outline.texts args).flatMap fun text => ',' :: ' ' :: text) ++ '>' :: back =
      ((Outline.texts others).flatMap fun text => ',' :: ' ' :: text) ++ '>' :: backToo →
    args = others ∧ back = backToo
  | [], [], _, _, _, _, same => ⟨rfl, (List.cons.inj same).2⟩
  | [], other :: others, _, _, _, _, same => by simp [Outline.texts] at same
  | arg :: rest, [], _, _, _, _, same => by simp [Outline.texts] at same
  | arg :: rest, other :: others, _, _, readable, readableToo, same => by
      simp only [Outline.texts, List.flatMap_cons, List.cons_append, List.cons.injEq, true_and,
        List.append_assoc] at same
      obtain ⟨first, tails⟩ := Outline.eq_of_chars arg other readable.1 readableToo.1
        (Closes.later _ _) (Closes.later _ _) same
      obtain ⟨later, backs⟩ := Outline.eq_of_later rest others readable.2 readableToo.2 tails
      exact ⟨by rw [first, later], backs⟩

end

end InterfaceSurface
