/-! # Cutting a text at a character

* `cut`: the parts before and after the first occurrence of a character.
* `splitOn`: the parts between the occurrences of a character. There is always one part more than
  there are occurrences, and joining the parts with the character gives the text back.
* `stripSuffix`: a text without an ending, if it has that ending. -/

namespace RvBackend.Text

/-- The text before the first `sep` and the text after it, `none` if there is no `sep`. -/
def cut (sep : Char) (cs : List Char) : Option (List Char × List Char) :=
  match cs.span (· != sep) with
  | (before, _ :: after) => some (before, after)
  | (_, []) => none

/-- The parts when one more character stands in front of them. -/
def splitStep (sep c : Char) (parts : List (List Char)) : List (List Char) :=
  if c = sep then [] :: parts
  else
    match parts with
    | [] => [[c]]
    | part :: parts => (c :: part) :: parts

/-- The parts of a text between the occurrences of `sep`. -/
def splitOn (sep : Char) (cs : List Char) : List (List Char) := cs.foldr (splitStep sep) [[]]

/-- The parts of a text joined with `sep` between them. -/
def joinWith (sep : List Char) : List (List Char) → List Char
  | [] => []
  | [part] => part
  | part :: parts => part ++ sep ++ joinWith sep parts

/-- The text in front of the ending `e`, `none` if the text does not end so. -/
def stripSuffix (e cs : List Char) : Option (List Char) :=
  if e.isSuffixOf cs then some (cs.take (cs.length - e.length)) else none

/-- The text behind the beginning `b`, `none` if the text does not begin so. -/
def stripFront : List Char → List Char → Option (List Char)
  | [], cs => some cs
  | _ :: _, [] => none
  | b :: bs, c :: cs => if b = c then stripFront bs cs else none

end RvBackend.Text
