namespace PackageSheet.Text

/-- Whether a character is white space in the sense of Unicode (property `White_Space`). -/
def isBlank (c : Char) : Bool :=
  c == ' ' || (0x9 ≤ c.toNat && c.toNat ≤ 0xD) || c.toNat == 0x85 || c.toNat == 0xA0 ||
    c.toNat == 0x1680 || (0x2000 ≤ c.toNat && c.toNat ≤ 0x200A) || c.toNat == 0x2028 ||
    c.toNat == 0x2029 || c.toNat == 0x202F || c.toNat == 0x205F || c.toNat == 0x3000

def trimEnd (cs : List Char) : List Char :=
  (cs.reverse.dropWhile isBlank).reverse

def trim (cs : List Char) : List Char :=
  trimEnd (cs.dropWhile isBlank)

theorem trimEnd_isPrefix (cs : List Char) : trimEnd cs <+: cs := by
  have := List.dropWhile_suffix isBlank (l := cs.reverse)
  exact List.reverse_suffix.mp (by simpa [trimEnd] using this)

/-- What is left of a text without the blanks at its ends is a fragment of it. -/
theorem trim_isInfix (cs : List Char) : trim cs <:+: cs :=
  (trimEnd_isPrefix _).isInfix.trans (List.dropWhile_suffix _).isInfix

end PackageSheet.Text
