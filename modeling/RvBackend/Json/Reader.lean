import RvBackend.Json.Token

/-! # Reading a JSON text

The tokens of a text are put together by a machine with a stack: the arrays and objects that are
open, the innermost on top. Each token takes one step, so reading ends for every text, and the
height of the stack is the depth of nesting, which is limited.

* `Json.parse` reads a text that holds exactly one value. -/

namespace RvBackend.Json

/-- An array or object that is not closed yet, its parts in reverse order. -/
inductive OpenValue where
  | array (items : List Json)
  | object (members : List (String × Extent × Json))
  /-- An object whose member `name` waits for its value, which begins at `start`. -/
  | member (members : List (String × Extent × Json)) (name : String) (start : List Char)

/-- What the machine waits for. -/
inductive Awaits where
  | value
  /-- A value, or the end of the array that was just opened. -/
  | valueOrEnd
  /-- The name of a member. -/
  | name
  /-- The name of a member, or the end of the object that was just opened. -/
  | nameOrEnd
  /-- The colon behind the name of a member. -/
  | colon
  /-- A comma, or the end of the innermost array or object. -/
  | commaOrEnd
  /-- The end of the text, its value being read. -/
  | endOfText (v : Json)

/-- The state of the machine: what it waits for, and the stack of open values. -/
structure Reader where
  awaits : Awaits := .value
  stack : List OpenValue := []

/-- The deepest nesting of arrays and objects. -/
def maxDepth : Nat := 10000

namespace Reader

/-- A finished value takes its place in the innermost open value; `rest` is the text behind it. -/
def finish (v : Json) (rest : List Char) : List OpenValue → Option Reader
  | [] => some ⟨.endOfText v, []⟩
  | .array items :: stack => some ⟨.commaOrEnd, .array (v :: items) :: stack⟩
  | .member members name start :: stack =>
    some ⟨.commaOrEnd, .object ((name, ⟨start, rest⟩, v) :: members) :: stack⟩
  | .object _ :: _ => none

/-- One more value is open, if that is not too deep. -/
def push (awaits : Awaits) (v : OpenValue) (stack : List OpenValue) : Option Reader :=
  if stack.length < maxDepth then some ⟨awaits, v :: stack⟩ else none

/-- The stack when a value begins at `start`: a member remembers where its value begins. -/
def mark (start : List Char) : List OpenValue → List OpenValue
  | .member members name _ :: stack => .member members name start :: stack
  | stack => stack

/-- The token begins a value. -/
def beginValue (l : Lexeme) (stack : List OpenValue) : Option Reader :=
  let stack := mark l.extent.start stack
  match l.token with
  | .null => finish .null l.extent.rest stack
  | .bool b => finish (.bool b) l.extent.rest stack
  | .number digits => finish (.number digits) l.extent.rest stack
  | .string s => finish (.string s) l.extent.rest stack
  | .beginArray => push .valueOrEnd (.array []) stack
  | .beginObject => push .nameOrEnd (.object []) stack
  | _ => none

/-- The token ends the innermost array or object. -/
def endValue (l : Lexeme) : List OpenValue → Option Reader
  | .array items :: stack =>
    if l.token = .endArray then finish (.array items.reverse) l.extent.rest stack else none
  | .object members :: stack =>
    if l.token = .endObject then finish (.object members.reverse) l.extent.rest stack else none
  | _ => none

/-- The token names a member of the innermost object. -/
def beginMember (l : Lexeme) : List OpenValue → Option Reader
  | .object members :: stack =>
    match l.token with
    | .string s => some ⟨.colon, .member members s [] :: stack⟩
    | _ => none
  | _ => none

/-- What follows a comma: another item, or another member. -/
def afterComma : List OpenValue → Option Reader
  | .array items :: stack => some ⟨.value, .array items :: stack⟩
  | .object members :: stack => some ⟨.name, .object members :: stack⟩
  | _ => none

/-- The machine takes one token. -/
def step (r : Reader) (l : Lexeme) : Option Reader :=
  match r.awaits with
  | .value => beginValue l r.stack
  | .valueOrEnd => if l.token = .endArray then endValue l r.stack else beginValue l r.stack
  | .name => beginMember l r.stack
  | .nameOrEnd => if l.token = .endObject then endValue l r.stack else beginMember l r.stack
  | .colon => if l.token = .colon then some ⟨.value, r.stack⟩ else none
  | .commaOrEnd => if l.token = .comma then afterComma r.stack else endValue l r.stack
  | .endOfText _ => none

/-- The machine takes the tokens in order. -/
def run (r : Reader) : List Lexeme → Option Reader
  | [] => some r
  | l :: ls => (r.step l).bind (·.run ls)

/-- The value that has been read, if the text may end here. -/
def value? (r : Reader) : Option Json :=
  match r.awaits with
  | .endOfText v => some v
  | _ => none

end Reader

/-- The value of a text, `none` if the text is not one JSON value or is nested too deep. -/
def parse (text : List Char) : Option Json :=
  (Token.scan text).bind fun tokens => (({} : Reader).run tokens).bind Reader.value?

end RvBackend.Json
