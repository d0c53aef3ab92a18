/-!
# Blank characters

Text that a program or a settings file hands over as a number or a name may be surrounded by
blanks. Blank means the Unicode property `White_Space`, not only its ASCII part, so that a
no-break space or an ideographic space around a number is dropped as well.
-/

namespace RecordMachine.Text

/-- The code points with the property `White_Space`, as closed ranges in increasing order. -/
def blankRanges : List (Nat × Nat) :=
  [(0x09, 0x0D), (0x20, 0x20), (0x85, 0x85), (0xA0, 0xA0), (0x1680, 0x1680), (0x2000, 0x200A),
    (0x2028, 0x2029), (0x202F, 0x202F), (0x205F, 0x205F), (0x3000, 0x3000)]

def isBlank (c : Char) : Bool :=
  blankRanges.any fun (low, high) => low ≤ c.toNat && c.toNat ≤ high

/-- The text without the blanks at its two ends; blanks inside it stay. -/
def trim (text : List Char) : List Char :=
  ((text.dropWhile isBlank).reverse.dropWhile isBlank).reverse

/-- Whether nothing is left of the text once its blanks are gone. -/
def isAllBlank (text : String) : Bool :=
  (trim text.toList).isEmpty

end RecordMachine.Text
