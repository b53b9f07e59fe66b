import RvBackend.Toml.Scan

/-! # Reading a settings file

A file has one expression or none on each line, except that an array may go over several lines, with
comments in them. An inline table stands in one line, and no comma follows its last member.

* `parse` reads a file up to its end or its first fault. -/

namespace RvBackend.Toml

mutual

/-- A value, and the text behind it. `fuel` bounds the number of items and the depth of nesting;
twice the length of the text is enough for both. -/
def scanValue : Nat → List Char → Option (Value × List Char)
  | 0, _ => none
  | fuel + 1, cs =>
    match cs with
    | '"' :: _ => (scanQuoted cs).map fun (s, rest) => (.text s, rest)
    | '\'' :: _ => (scanQuoted cs).map fun (s, rest) => (.text s, rest)
    | '[' :: rest => scanItems fuel [] rest
    | '\x7b' :: rest => scanMembers fuel [] rest
    | 't' :: 'r' :: 'u' :: 'e' :: rest => some (.other, rest)
    | 'f' :: 'a' :: 'l' :: 's' :: 'e' :: rest => some (.other, rest)
    | cs => scanNumberOrDate cs

/-- The rest of an array behind the items `acc`, which are in reverse order. -/
def scanItems : Nat → List Value → List Char → Option (Value × List Char)
  | 0, _, _ => none
  | fuel + 1, acc, cs => do
    match ← skipLines false cs with
    | ']' :: rest => return (.array acc.reverse, rest)
    | ',' :: rest =>
      if acc.isEmpty then none
      match ← skipLines false rest with
      | ']' :: rest => return (.array acc.reverse, rest)
      | rest =>
        let (v, rest) ← scanValue fuel rest
        scanItems fuel (v :: acc) rest
    | rest =>
      if !acc.isEmpty then none
      let (v, rest) ← scanValue fuel rest
      scanItems fuel (v :: acc) rest

/-- The rest of an inline table behind the members `acc`, which are in reverse order. -/
def scanMembers : Nat → List (Key × Value) → List Char → Option (Value × List Char)
  | 0, _, _ => none
  | fuel + 1, acc, cs =>
    match skipSpace cs with
    | '\x7d' :: rest => some (.table acc.reverse, rest)
    | ',' :: rest => do
      if acc.isEmpty then none
      let (member, rest) ← scanMember fuel (skipSpace rest)
      scanMembers fuel (member :: acc) rest
    | rest => do
      if !acc.isEmpty then none
      let (member, rest) ← scanMember fuel rest
      scanMembers fuel (member :: acc) rest

/-- A key with its value. -/
def scanMember : Nat → List Char → Option ((Key × Value) × List Char)
  | 0, _ => none
  | fuel + 1, cs => do
    let (parts, rest) ← scanKey cs
    match skipSpace rest with
    | '=' :: rest =>
      let (v, rest) ← scanValue fuel (skipSpace rest)
      return ((keyOf parts, v), rest)
    | _ => none

end

/-- The key of a table header behind its opening brackets, and the text behind its closing ones. -/
def scanHeader (closing : List Char) (cs : List Char) : Option (List KeyPart × List Char) := do
  let (parts, rest) ← scanKey (skipSpace cs)
  let rest := skipSpace rest
  if closing.isPrefixOf rest then some (parts, rest.drop closing.length) else none

/-- An expression. -/
def scanExpression : List Char → Option (Expression × List Char)
  | '[' :: '[' :: cs =>
    (scanHeader [']', ']'] cs).map fun (parts, rest) => (.arrayTable (keyOf parts), rest)
  | '[' :: cs => (scanHeader [']'] cs).map fun (parts, rest) => (.table parts, rest)
  | cs => (scanMember (2 * cs.length + 2) cs).map fun ((key, v), rest) => (.assign key v, rest)

/-- The text behind a comment that may stand at the end of a line. -/
def skipRemark (cs : List Char) : Option (List Char) :=
  match skipSpace cs with
  | '#' :: cs => skipComment cs
  | cs => some cs

/-- One line: an expression if there is one, and the text from the end of the line on. -/
def scanLine (cs : List Char) : Option (Option Expression × List Char) :=
  match skipSpace cs with
  | [] => some (none, [])
  | '#' :: cs => (skipComment cs).map (none, ·)
  | '\n' :: cs => some (none, '\n' :: cs)
  | '\r' :: cs => some (none, '\r' :: cs)
  | cs => do
    let (e, rest) ← scanExpression cs
    return (some e, ← skipRemark rest)

/-- What is read of a file: the expressions before its first fault. -/
structure Contents where
  expressions : List Expression
  /-- Whether there is a fault behind them. -/
  faulty : Bool

/-- The expressions of some lines, behind the expressions `acc`, which are in reverse order.
Whatever is left of a line is looked at only when the next line is read. -/
def scanAll : Nat → List Expression → List Char → Contents
  | 0, acc, _ => ⟨acc.reverse, true⟩
  | fuel + 1, acc, cs =>
    match scanLine cs with
    | none => ⟨acc.reverse, true⟩
    | some (e, rest) =>
      let acc := e.toList ++ acc
      if rest.isEmpty then ⟨acc.reverse, false⟩
      else
        match skipNewline rest with
        | none => ⟨acc.reverse, true⟩
        | some rest => scanAll fuel acc rest

/-- The expressions of a file, up to its end or its first fault. -/
def parse (text : List Char) : Contents := scanAll (text.length + 1) [] text

end RvBackend.Toml
