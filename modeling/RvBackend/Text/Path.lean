import RvBackend.Text.Split

/-! # Slash-separated paths

A path is a text whose parts are separated by slashes; it is rooted if it begins with one.

* `cleanPath`: the shortest path with the same parts: empty parts and `.` are dropped, and `..`
  removes the part before it. The empty path is `.`.
* `joinPath`: a path below another one, cleaned.
* `baseName`, `extension`, `dirName`: the last part, its ending from the last dot on, and the
  cleaned path in front of it. -/

namespace RvBackend.Text

/-- A slash. -/
def slash : Char := '/'

/-- A path that begins with a slash. -/
def isRooted (p : List Char) : Bool := p.head? == some slash

/-- One more part behind the parts `out`, which are in reverse order. A `..` has nothing to remove
at the root and piles up in front of a path that is not rooted. -/
def pushPart (rooted : Bool) (out : List (List Char)) (part : List Char) : List (List Char) :=
  if part.isEmpty || part == ['.'] then out
  else if part == ['.', '.'] then
    match out with
    | [] => if rooted then [] else [part]
    | last :: before => if last == ['.', '.'] then part :: out else before
  else part :: out

/-- The shortest path with the same meaning. -/
def cleanPath (p : List Char) : List Char :=
  let rooted := isRooted p
  let parts := ((splitOn slash p).foldl (pushPart rooted) []).reverse
  if rooted then slash :: joinWith [slash] parts
  else if parts.isEmpty then ['.'] else joinWith [slash] parts

/-- Two paths one behind the other, an empty one left out. -/
def joinPath (a b : String) : String :=
  if a.isEmpty && b.isEmpty then ""
  else if a.isEmpty then String.ofList (cleanPath b.toList)
  else if b.isEmpty then String.ofList (cleanPath a.toList)
  else String.ofList (cleanPath (a.toList ++ slash :: b.toList))

/-- A path without the slashes at its end. -/
def dropTrailingSlashes (p : List Char) : List Char := (p.reverse.dropWhile (· == slash)).reverse

/-- The text behind the last slash. -/
def lastPart (p : List Char) : List Char := (p.reverse.takeWhile (· != slash)).reverse

/-- The last part of a path: `.` of the empty path, `/` of slashes only. -/
def baseName (p : String) : String :=
  if p.isEmpty then "."
  else
    match dropTrailingSlashes p.toList with
    | [] => "/"
    | cs => String.ofList (lastPart cs)

/-- The ending of the last part from its last dot on, empty without a dot. -/
def extension (p : String) : String :=
  let part := (lastPart p.toList).reverse
  if part.contains '.' then String.ofList ('.' :: (part.takeWhile (· != '.')).reverse) else ""

/-- The cleaned path in front of the last part. -/
def dirName (p : String) : String :=
  let cs := p.toList
  String.ofList (cleanPath (cs.take (cs.length - (lastPart cs).length)))

/-- A text without an ending that it may have. -/
def withoutSuffix (s e : String) : String :=
  match stripSuffix e.toList s.toList with
  | some cs => String.ofList cs
  | none => s

/-- A text without a beginning that it may have. -/
def withoutFront (s b : String) : String :=
  match stripFront b.toList s.toList with
  | some cs => String.ofList cs
  | none => s

/-- The file that the text made from `source` is written to: the last part of `source` with its
ending exchanged, in `dir`. Where nothing of the name is left, it is `out`. -/
def outputPath (source dir ext : String) : String :=
  let name := baseName source
  let stem := withoutSuffix name (extension name)
  let stem := if stem.isEmpty || stem == "." || stem == "/" then "out" else stem
  joinPath (if dir.isEmpty then "." else dir) (stem ++ ext)

end RvBackend.Text
