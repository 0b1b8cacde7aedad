/-!
# Blanks

The characters that count as blank around a setting: the space characters of the
Unicode category `Zs`, the horizontal and vertical tabulators, the form feed, the
line ends and the byte order mark.

* `Balancer.Text.isBlank` – the class.
* `Balancer.Text.trim` – a text without the blanks at its ends.
-/

namespace Balancer.Text

/-- **The blank characters**, by code point. -/
def isBlank (c : Char) : Bool :=
  let code := c.toNat
  (0x09 ≤ code && code ≤ 0x0D) || code == 0x20 || code == 0xA0 || code == 0x1680 ||
    (0x2000 ≤ code && code ≤ 0x200A) || code == 0x2028 || code == 0x2029 ||
    code == 0x202F || code == 0x205F || code == 0x3000 || code == 0xFEFF

/-- **A text without the blanks at its ends.** -/
def trim (text : List Char) : List Char :=
  ((text.dropWhile isBlank).reverse.dropWhile isBlank).reverse

end Balancer.Text
