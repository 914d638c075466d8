/-! # Quoted text

A quote character opens a quotation, which the same character closes. Inside a quotation the other
quote character stands for itself.

* `Quoted.next`: the quotation that is open after a character;
* `Quoted.cut`: a text before and after the first separator that stands outside quotations;
* `Quoted.split`: the pieces between all separators outside quotations;
* `Quoted.inner?`: the text between a pair of quotes.
-/

namespace Banked8085.Quoted
set_option autoImplicit false

def isQuote (c : Char) : Bool := c == '\'' || c == '"'

/-- The quotation that is open after `c`, given the one that is open before it. -/
def next (quote : Option Char) (c : Char) : Option Char :=
  match quote with
  | some q => if c = q then none else some q
  | none => if isQuote c then some c else none

def scan (quote : Option Char) (text : List Char) : Option Char := text.foldl next quote

/-- `cut`, after the characters `reversed` and inside the quotation `quote`. -/
def cutFrom (separator : Char) (reversed : List Char) (quote : Option Char) :
    List Char → Option (List Char × List Char)
  | [] => none
  | c :: rest =>
    if quote = none ∧ c = separator then some (reversed.reverse, rest)
    else cutFrom separator (c :: reversed) (next quote c) rest

def cut (separator : Char) (text : List Char) : Option (List Char × List Char) :=
  cutFrom separator [] none text

/-- `split`, after the characters `reversed` of a piece and inside the quotation `quote`. -/
def splitFrom (separator : Char) (reversed : List Char) (quote : Option Char) :
    List Char → List (List Char)
  | [] => [reversed.reverse]
  | c :: rest =>
    if quote = none ∧ c = separator then reversed.reverse :: splitFrom separator [] none rest
    else splitFrom separator (c :: reversed) (next quote c) rest

/-- The pieces of a text between the separators outside quotations; there is at least one. -/
def split (separator : Char) (text : List Char) : List (List Char) :=
  splitFrom separator [] none text

def opens : List Char → Bool
  | [] => false
  | c :: _ => isQuote c

/-- The text between its first character and the same character at its end. -/
def inner? : List Char → Option (List Char)
  | [] => none
  | quote :: rest => if rest.getLast? = some quote then some rest.dropLast else none

end Banked8085.Quoted
