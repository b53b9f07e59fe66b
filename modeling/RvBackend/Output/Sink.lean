import RvBackend.Text.Utf8

/-! # Where output goes

A `Sink` takes bytes until its room is used up. Of a text that does not fit it takes the part that
fits, and then reports that it is full. -/

namespace RvBackend

/-- The bytes taken so far, and the room left; `none` is room without end. -/
structure Sink where
  taken : Array UInt8 := #[]
  room : Option Nat := none

namespace Sink

/-- What is said of a full sink. -/
def fullMessage : String := "disk full"

/-- An empty sink for that many bytes. -/
def ofRoom (room : Option Nat) : Sink := { room }

/-- Takes the text, or the part of it that fits; tells whether all of it did. -/
def write (s : Sink) (text : String) : Sink × Bool :=
  let bytes := Text.utf8 text
  match s.room with
  | none => ({ s with taken := s.taken ++ bytes }, true)
  | some n =>
    ({ taken := s.taken ++ bytes.take n, room := some (n - bytes.length) }, bytes.length ≤ n)

/-- The text taken so far. A character that was cut shows as replacement characters. -/
def text (s : Sink) : String := Text.textOfBytes s.taken.toList

end Sink

end RvBackend
