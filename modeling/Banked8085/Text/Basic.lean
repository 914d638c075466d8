import Banked8085.Word

/-! # Texts

* `isBlank`: the characters with the Unicode property `White_Space`, by `Blank.ranges`;
* `trimStart`, `trimEnd`, `trim`: a text without the blanks at its ends;
* `lines`: a text cut after each line feed;
* `Utf8.encode`, `Utf8.decode?`: the bytes of a text, and the text of bytes that are valid.
-/

namespace Banked8085
set_option autoImplicit false

/-! ## Blanks -/

/-- The code points with the property `White_Space`, as closed ranges in ascending order. -/
def Blank.ranges : List (Nat × Nat) :=
  [(0x09, 0x0D), (0x20, 0x20), (0x85, 0x85), (0xA0, 0xA0), (0x1680, 0x1680), (0x2000, 0x200A),
    (0x2028, 0x2029), (0x202F, 0x202F), (0x205F, 0x205F), (0x3000, 0x3000)]

def isBlank (c : Char) : Bool :=
  Blank.ranges.any fun (first, last) => first ≤ c.toNat && c.toNat ≤ last

def trimStart (text : List Char) : List Char := text.dropWhile isBlank

def trimEnd (text : List Char) : List Char := (trimStart text.reverse).reverse

def trim (text : List Char) : List Char := trimEnd (trimStart text)

@[simp] theorem trim_nil : trim [] = [] := rfl

/-! ## Lines -/

/-- A line whose characters were collected in reverse and which a line feed has ended. One carriage
return right before the line feed does not belong to it. -/
def Lines.finish : List Char → List Char
  | '\r' :: reversed => reversed.reverse
  | reversed => reversed.reverse

/-- The lines of a text whose first line began with the characters `reversed`. -/
def Lines.after (reversed : List Char) : List Char → List (List Char)
  | [] => if reversed = [] then [] else [reversed.reverse]
  | c :: rest =>
    if c = '\n' then finish reversed :: after [] rest else after (c :: reversed) rest

/-- The lines of a text. The last one need not end in a line feed; a carriage return at its end then
belongs to it. -/
def lines (text : List Char) : List (List Char) := Lines.after [] text

/-! ## UTF-8 -/

def Utf8.encode (text : List Char) : List Byte := text.flatMap String.utf8EncodeChar

/-- The text that valid bytes stand for. -/
def Utf8.decode? (bytes : List Byte) : Option String := String.fromUTF8? ⟨bytes.toArray⟩

end Banked8085
