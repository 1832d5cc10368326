import FileDigest.Bytes.Basic

/-!
# Text in bytes

`scan` reads a byte string as UTF-8 and gives one entry for each character and
one absent entry for each longest piece that starts a character and cannot be
completed, or that starts none. The strict reading asks that nothing is absent;
the lenient one, used where a path is shown to people, puts the replacement
character there.
-/

namespace FileDigest.Bytes

def continuation (b : UInt8) : Bool :=
  0x80 ≤ b && b ≤ 0xbf

/-- The bytes that may follow a first byte of three: they exclude long spellings
and surrogates. -/
def secondOfThree (a b : UInt8) : Bool :=
  if a = 0xe0 then 0xa0 ≤ b && b ≤ 0xbf
  else if a = 0xed then 0x80 ≤ b && b ≤ 0x9f
  else continuation b

/-- The bytes that may follow a first byte of four: they exclude long spellings
and what lies above the last code point. -/
def secondOfFour (a b : UInt8) : Bool :=
  if a = 0xf0 then 0x90 ≤ b && b ≤ 0xbf
  else if a = 0xf4 then 0x80 ≤ b && b ≤ 0x8f
  else continuation b

def payload (b : UInt8) : Nat :=
  b.toNat % 64

/-- One entry for each character, and an absent one for each piece that is
none. -/
def scan : Bytes → List (Option Char)
  | [] => []
  | a :: rest =>
      if a < 0x80 then some (Char.ofNat a.toNat) :: scan rest
      else if 0xc2 ≤ a && a ≤ 0xdf then
        match rest with
        | b :: rest' =>
            if continuation b then
              some (Char.ofNat (a.toNat % 32 * 64 + payload b)) :: scan rest'
            else none :: scan (b :: rest')
        | [] => [none]
      else if 0xe0 ≤ a && a ≤ 0xef then
        match rest with
        | b :: rest' =>
            if secondOfThree a b then
              match rest' with
              | c :: rest'' =>
                  if continuation c then
                    some
                      (Char.ofNat (a.toNat % 16 * 4096 + payload b * 64 +
                        payload c)) :: scan rest''
                  else none :: scan (c :: rest'')
              | [] => [none]
            else none :: scan (b :: rest')
        | [] => [none]
      else if 0xf0 ≤ a && a ≤ 0xf4 then
        match rest with
        | b :: rest' =>
            if secondOfFour a b then
              match rest' with
              | c :: rest'' =>
                  if continuation c then
                    match rest'' with
                    | d :: rest''' =>
                        if continuation d then
                          some
                            (Char.ofNat (a.toNat % 8 * 262144 + payload b *
                              4096 + payload c * 64
                            + payload d)) :: scan rest'''
                        else none :: scan (d :: rest''')
                    | [] => [none]
                  else none :: scan (c :: rest'')
              | [] => [none]
            else none :: scan (b :: rest')
        | [] => [none]
      else none :: scan rest

def text? (b : Bytes) : Option String :=
  ((scan b).mapM id).map String.ofList

/-- The text of a byte string with the replacement character for what is no
character. -/
def lossyText (b : Bytes) : String :=
  String.ofList ((scan b).map (·.getD '\ufffd'))

def ofText (s : String) : Bytes :=
  s.toList.flatMap String.utf8EncodeChar

example : text? [0x61, 0xc3, 0xa9] = some "aé" := by decide +kernel

example : text? [0x61, 0xff] = none := by decide +kernel

example : lossyText [0x61, 0xf0, 0x9f, 0x62, 0xed, 0xa0] =
    "a\ufffdb\ufffd\ufffd" := by
  decide +kernel

end FileDigest.Bytes
