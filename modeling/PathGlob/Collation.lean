import PathGlob.Text.Category
import PathGlob.Text.Decomposition
import PathGlob.Text.Folding

/-!
# Collation

The order of sorted results, the same on every machine. Texts are compared by their base characters
first (white space, punctuation, symbols, digits, letters; case folded), then by accents, then by
case with the lower case first, and at last character by character, so that no two texts are equal.
-/
namespace PathGlob.Collation

/-- ASCII punctuation and symbols in the order in which they sort. -/
def asciiOrder : List Char := "_-,;:!?.'\"()[]\x7b\x7d@*/\\&#%`^+<=>|~$".toList

/-- Letters that do not decompose, and the letters they sort with. -/
def letterFolds : List (Char × List Char) :=
  [('ø', ['o']), ('Ø', ['O']), ('æ', ['a', 'e']), ('Æ', ['A', 'E']), ('œ', ['o', 'e']),
    ('Œ', ['O', 'E']), ('ł', ['l']), ('Ł', ['L']), ('đ', ['d']), ('Đ', ['D']), ('ħ', ['h']),
    ('Ħ', ['H']), ('þ', ['t', 'h']), ('Þ', ['T', 'H'])]

structure Weight where
  category : Text.Category
  /-- The place in `asciiOrder`; its length for all other characters. -/
  rank : Nat
  /-- The code point of the folded character. -/
  code : Nat
  deriving DecidableEq, Repr

/-- A base character with its accents. -/
structure Element where
  weight : Weight
  accents : List Nat
  /-- Whether folding changed the character. -/
  folded : Bool
  deriving DecidableEq, Repr

def Element.ofChar (c : Char) : Element :=
  { weight := ⟨Text.category c, asciiOrder.idxOf c, (Text.foldFirst c).toNat⟩
    accents := []
    folded := c ≠ Text.foldFirst c }

def Element.addAccent (c : Char) (e : Element) : Element :=
  { e with accents := e.accents ++ [c.toNat] }

/-- Puts an accent on the last element. -/
def accentLast (c : Char) (es : List Element) : List Element :=
  match es.getLast? with
  | some e => es.dropLast ++ [e.addAccent c]
  | none => []

/-- The elements of a character that is no accent. -/
def baseElements (c : Char) : List Element :=
  match letterFolds.lookup c with
  | some base => accentLast c (base.map Element.ofChar)
  | none => [Element.ofChar c]

/-- Reads one more character of a decomposed text. A mark with nothing before it stands for
itself. -/
def addChar (es : List Element) (c : Char) : List Element :=
  if Text.combiningClass c ≠ 0 ∧ es ≠ [] then accentLast c es else es ++ baseElements c

def elements (cs : List Char) : List Element := (Text.decomposeText cs).foldl addChar []

structure Key where
  primary : List Weight
  accents : List (List Nat)
  folded : List Bool
  text : List Char
  deriving DecidableEq, Repr

def key (cs : List Char) : Key :=
  let es := elements cs
  ⟨es.map Element.weight, es.map Element.accents, es.map Element.folded, cs⟩

def Weight.compare (a b : Weight) : Ordering :=
  (Ord.compare a.category.rank b.category.rank).then <|
    (Ord.compare a.rank b.rank).then (Ord.compare a.code b.code)

def Key.compare (a b : Key) : Ordering :=
  (List.compareLex Weight.compare a.primary b.primary).then <|
    (List.compareLex (List.compareLex Ord.compare) a.accents b.accents).then <|
      (List.compareLex Ord.compare a.folded b.folded).then
        (List.compareLex Ord.compare a.text b.text)

def before (s t : String) : Prop := (key s.toList).compare (key t.toList) = .lt

instance (s t : String) : Decidable (before s t) := inferInstanceAs (Decidable (_ = _))

/-- Sorts texts; equal texts stay side by side. -/
def sort (texts : List String) : List String :=
  let keyed := texts.map fun t => (key t.toList, t)
  (keyed.mergeSort fun a b => a.1.compare b.1 != .gt).map Prod.snd

end PathGlob.Collation
