import Mathlib.Data.List.Basic

/-!
Owns the operations on text that a verified service shares with its source language:
what Unicode calls white space and control characters, and the trimming and splitting
of strings at white space.
-/

set_option autoImplicit false

namespace Cairn.Library.Text

/-- `char::is_whitespace`: the characters of Unicode's White_Space. -/
def isWhitespace (char : Char) : Bool :=
  let code := char.toNat
  (9 ≤ code && code ≤ 13) || code == 0x20 || code == 0x85 || code == 0xA0 || code == 0x1680 ||
    (0x2000 ≤ code && code ≤ 0x200A) || code == 0x2028 || code == 0x2029 || code == 0x202F ||
    code == 0x205F || code == 0x3000

/-- `char::is_control`: the characters of category Cc. -/
def isControl (char : Char) : Bool :=
  let code := char.toNat
  code ≤ 0x1F || (0x7F ≤ code && code ≤ 0x9F)

/-- `str::trim`. -/
def trim (text : String) : String :=
  String.ofList (((text.toList.dropWhile isWhitespace).reverse.dropWhile isWhitespace).reverse)

/-- `str::split_whitespace`. -/
def splitWhitespace (text : String) : List String :=
  ((text.toList.splitOnP isWhitespace).filter fun word => word ≠ []).map String.ofList

end Cairn.Library.Text
