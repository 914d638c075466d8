import Banked8085.Assembler.Value

/-! # Source lines

A line holds a label, a statement, both or neither, and may end in a comment:

* `splitOperands`: the items of an operand field;
* `Statement`: a directive or an instruction whose operands are still text;
* `Line.parse`: one line of source text;
* `LineError`: what can be wrong with a line.
-/

namespace Banked8085.Assembler
set_option autoImplicit false

/-! ## Statements -/

/-- An item of a byte directive: a string as its UTF-8 bytes, or a value. -/
inductive DataItem
  | text (bytes : List Byte)
  | value (v : Value)
deriving DecidableEq, Repr, Inhabited

inductive Statement
  | origin (address : Value)
  | constant (name : List Char) (value : Value)
  | bytes (items : List DataItem)
  | words (values : List Value)
  | finish
  | instruction (mnemonic : List Char) (operands : List (List Char))
deriving DecidableEq, Repr, Inhabited

/-- A line of source text; lines are numbered from one. -/
structure Line where
  number : Nat
  label : Option (List Char)
  statement : Option Statement
deriving DecidableEq, Repr, Inhabited

inductive LineError
  | value (cause : ValueError)
  | constantName (name : List Char)
  | namelessConstant
  | unterminatedString (item : List Char)
  | noBytes
  | noWords
deriving DecidableEq, Repr, Inhabited

def LineError.message : LineError → String
  | .value cause => cause.message
  | .constantName name => "invalid EQU name " ++ quoted name
  | .namelessConstant => "EQU without a name"
  | .unterminatedString item => "unterminated string " ++ String.ofList item
  | .noBytes => "DB needs at least one value"
  | .noWords => "DW needs at least one value"

/-! ## Parts of a line -/

/-- The items of an operand field, separated by commas outside quotations. A blank field has no
items. -/
def splitOperands (text : List Char) : List (List Char) :=
  match trim text with
  | [] => []
  | field => (Quoted.split ',' field).map trim

def withoutComment (text : List Char) : List Char :=
  match Quoted.cut ';' text with
  | some (before, _) => before
  | none => text

/-- The label in front of the first colon outside quotations, and the text after it. If no
identifier stands there, the colon does not mark a label. -/
def splitLabel (text : List Char) : Option (List Char) × List Char :=
  match Quoted.cut ':' text with
  | some (before, after) =>
    if isIdentifier (trim before) then (some (upper (trim before)), trim after) else (none, text)
  | none => (none, text)

def splitHead (text : List Char) : List Char × List Char :=
  (text.takeWhile (!isBlank ·), trim (text.dropWhile (!isBlank ·)))

/-! ## Operands of directives -/

def parseValue (text : List Char) : Except LineError Value :=
  match Value.parse text with
  | .ok v => .ok v
  | .error cause => .error (.value cause)

def DataItem.parse (item : List Char) : Except LineError DataItem :=
  if Quoted.opens item then
    match Quoted.inner? item with
    | some inner => .ok (.text (Utf8.encode inner))
    | none => .error (.unterminatedString item)
  else
    match parseValue item with
    | .ok v => .ok (.value v)
    | .error e => .error e

def parseBytes (operands : List Char) : Except LineError Statement := do
  let items ← (splitOperands operands).mapM DataItem.parse
  if items.isEmpty then throw .noBytes
  pure (.bytes items)

def parseWords (operands : List Char) : Except LineError Statement := do
  let values ← (splitOperands operands).mapM parseValue
  if values.isEmpty then throw .noWords
  pure (.words values)

/-! ## Statements and lines -/

/-- The label that is left on the line and its statement, for a text that is not blank. A constant
is written with its name as the first word or as a label, which it then uses up. -/
def parseStatement (label : Option (List Char)) (text : List Char) :
    Except LineError (Option (List Char) × Option Statement) := do
  let (head, tail) := splitHead text
  let (second, afterSecond) := splitHead tail
  if String.ofList (upper second) = "EQU" then
    if !isIdentifier head then throw (.constantName head)
    pure (label, some (.constant (upper head) (← parseValue afterSecond)))
  else
    match String.ofList (upper head) with
    | "EQU" =>
      match label with
      | none => throw .namelessConstant
      | some name => pure (none, some (.constant name (← parseValue tail)))
    | "ORG" => pure (label, some (.origin (← parseValue tail)))
    | "DB" => pure (label, some (← parseBytes tail))
    | "DW" => pure (label, some (← parseWords tail))
    | "END" => pure (label, some .finish)
    | "CPU" => pure (label, none)
    | _ => pure (label, some (.instruction (upper head) (splitOperands tail)))

def Line.parse (number : Nat) (text : List Char) : Except LineError Line := do
  let (label, rest) := splitLabel (trim (withoutComment text))
  if rest.isEmpty then pure ⟨number, label, none⟩
  else
    let (label, statement) ← parseStatement label rest
    pure ⟨number, label, statement⟩

end Banked8085.Assembler
