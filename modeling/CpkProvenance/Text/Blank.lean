/-!
# Blank characters

The characters with the Unicode property White_Space, and trimming by them.
Zero-width space and the byte order mark do not have the property.
-/

namespace CpkProvenance.Text

def isBlank (c : Char) : Bool :=
  let n := c.toNat
  (0x09 ≤ n && n ≤ 0x0D) || n == 0x20 || n == 0x85 || n == 0xA0 || n == 0x1680 ||
    (0x2000 ≤ n && n ≤ 0x200A) || n == 0x2028 || n == 0x2029 || n == 0x202F ||
    n == 0x205F || n == 0x3000

def trim (text : String) : String :=
  String.ofList
    ((text.toList.dropWhile isBlank).reverse.dropWhile isBlank).reverse

def allBlank (text : String) : Bool :=
  text.toList.all isBlank

end CpkProvenance.Text
