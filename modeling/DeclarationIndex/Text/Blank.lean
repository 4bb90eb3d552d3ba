/-!
White space: the characters with the Unicode property of that name, and the five bytes of ASCII.
-/

namespace DeclarationIndex

def isBlank (c : Char) : Bool :=
  let code := c.toNat
  (0x09 ≤ code && code ≤ 0x0d) || code == 0x20 || code == 0x85 || code == 0xa0 ||
    code == 0x1680 || (0x2000 ≤ code && code ≤ 0x200a) || code == 0x2028 || code == 0x2029 ||
    code == 0x202f || code == 0x205f || code == 0x3000

def isAllBlank (text : String) : Bool :=
  text.toList.all isBlank

/-- White space among single bytes: tab, line feed, form feed, carriage return and space. -/
def isBlankByte (byte : UInt8) : Bool :=
  byte == 9 || byte == 10 || byte == 12 || byte == 13 || byte == 32

end DeclarationIndex
