import Mathlib

/-! # Predicates on texts -/
namespace DtgProxy.Lib.Text

/-- The characters with the Unicode `White_Space` property. -/
def isWhitespace (c : Char) : Bool :=
  let n := c.toNat
  (9 ≤ n && n ≤ 13) || n == 0x20 || n == 0x85 || n == 0xA0 || n == 0x1680 ||
    (0x2000 ≤ n && n ≤ 0x200A) || n == 0x2028 || n == 0x2029 || n == 0x202F || n == 0x205F ||
    n == 0x3000

/-- Trimming the text leaves nothing. -/
def isBlank (text : String) : Bool := text.toList.all isWhitespace

def isLowerAscii (c : Char) : Bool := 97 ≤ c.toNat && c.toNat ≤ 122

def isDigitAscii (c : Char) : Bool := 48 ≤ c.toNat && c.toNat ≤ 57

/-- What stands before and after the first occurrence of a nonempty separator. -/
def splitOnce (separator : List Char) : List Char → Option (List Char × List Char)
  | [] => none
  | c :: cs =>
    if separator.isPrefixOf (c :: cs) then some ([], (c :: cs).drop separator.length)
    else (splitOnce separator cs).map fun (before, after) => (c :: before, after)

end DtgProxy.Lib.Text
