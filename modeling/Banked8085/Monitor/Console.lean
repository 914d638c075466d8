import Banked8085.Ports

/-! # The console

A queue of typed bytes that the program reads from a port, and a buffer of bytes that it has
written to another:

* `Console.keystrokes`: what the queue gets for typed bytes;
* `Console.push`, `Console.take`, `Console.clear`: the user's side;
* `Console.read`, `Console.write`: the program's side.
-/

namespace Banked8085
set_option autoImplicit false

/-- Typed bytes that wait, printed bytes that wait, and whether bytes are printed when read. -/
structure Console where
  input : List Byte := []
  output : Array Byte := #[]
  echo : Bool := false
deriving DecidableEq, Repr, Inhabited

namespace Console

def inputPort : Byte := 0

def outputPort : Byte := 1

/-- What a single typed byte becomes: a line feed is a carriage return and a delete is a
backspace. -/
def key (b : Byte) : Byte := if b = 0x0A then 0x0D else if b = 0x7F then 0x08 else b

/-- Typed bytes as the program will read them. A carriage return with a line feed after it is one
keystroke. -/
def keystrokes : List Byte → List Byte
  | [] => []
  | b :: rest =>
    if b = 0x0D ∧ rest.head? = some 0x0A then keystrokes rest else key b :: keystrokes rest

def push (console : Console) (bytes : List Byte) : Console :=
  { console with input := console.input ++ keystrokes bytes }

def pending (console : Console) : Nat := console.input.length

def take (console : Console) : List Byte × Console :=
  (console.output.toList, { console with output := #[] })

def clear (console : Console) : Console := { echo := console.echo }

/-- Read a port. The input port gives the next typed byte, or zero if none waits. -/
def read (console : Console) (port : Byte) : Byte × Console :=
  if port = inputPort then
    match console.input with
    | [] => (0, console)
    | b :: rest =>
      let output := if console.echo then console.output.push b else console.output
      (b, { console with input := rest, output })
  else (Ports.unconnected, console)

/-- Write to a port. Only the output port prints. -/
def write (console : Console) (port value : Byte) : Console :=
  if port = outputPort then { console with output := console.output.push value } else console

end Console
end Banked8085
