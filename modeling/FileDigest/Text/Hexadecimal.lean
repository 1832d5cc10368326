/-!
# Hexadecimal digits

Escapes in JSON and TOML give characters by hexadecimal digits, in letters of
either case.
-/

namespace FileDigest.Text

def hexValue? (c : Char) : Option Nat :=
  if '0' ≤ c && c ≤ '9' then some (c.toNat - 48)
  else if 'a' ≤ c && c ≤ 'f' then some (c.toNat - 87)
  else if 'A' ≤ c && c ≤ 'F' then some (c.toNat - 55)
  else none

def hexNumber? (digits : List Char) : Option Nat :=
  digits.foldlM (fun n c => (hexValue? c).map (n * 16 + ·)) 0

example : hexNumber? "00fF".toList = some 255 ∧
    hexNumber? "0g".toList = none := by
  decide +kernel

end FileDigest.Text
