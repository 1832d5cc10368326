import FileDigest.Json.Reader
import FileDigest.Proofs.Decimal.Written

/-!
# The grammar of JSON

`Writes v cs` says that the characters `cs` are a text of the value `v`, with or
without blanks around it. It is put together from what the parts of such a text
are, and knows nothing of how a text is read: an array has one comma less than
it has items, an object may have its members in any order and under any names,
and there is no bound on the depth.

What is written between the quotes of a string are characters and code units
(`Spells`). What they stand for is said apart from that (`StandsFor`), since a
string may be well written and yet stand for no text.
-/

namespace FileDigest.Json

open Decimal

def Blanks (cs : List Char) : Prop :=
  ∀ c ∈ cs, c ∈ [' ', '\t', '\n', '\r']

theorem blanks_nil : Blanks [] :=
  fun _ hc => absurd hc List.not_mem_nil

/-! ## Strings -/

/-- The letters of the short escapes, each with the character that it is written
for. -/
def shortEscapes : List (Char × Char) :=
  [('"', '"'), ('\\', '\\'), ('/', '/'), ('b', '\x08'), ('f', '\x0c'),
    ('n', '\n'), ('r', '\r'), ('t', '\t')]

def HexDigit (c : Char) (value : Nat) : Prop :=
  "0123456789abcdef".toList[value]? = some c ∨
    "0123456789ABCDEF".toList[value]? = some c

/-- The parts of a string, as they are written between its quotes. -/
inductive Spells : List Unit16 → List Char → Prop
  | nil : Spells [] []
  | char {c : Char} {units : List Unit16} {cs : List Char} (hquote : c ≠ '"')
      (hslash : c ≠ '\\')
      (hcontrol : ' ' ≤ c) (h : Spells units cs) :
        Spells (.char c :: units) (c :: cs)
  | escape {letter c : Char} {units : List Unit16} {cs : List Char}
      (hletter : (letter, c) ∈ shortEscapes) (h : Spells units cs) :
      Spells (.char c :: units) ('\\' :: letter :: cs)
  | unit {a b c d : Char} {k l m n : Nat} {units : List Unit16} {cs : List Char}
      (ha : HexDigit a k) (hb : HexDigit b l) (hc : HexDigit c m)
        (hd : HexDigit d n)
      (h : Spells units cs) :
      Spells (.unit (k * 4096 + l * 256 + m * 16 + n) :: units)
        ('\\' :: 'u' :: a :: b :: c :: d :: cs)

/-- The characters that the parts of a string stand for. A code unit stands for
the character of its number, and a high surrogate with a low one behind it for a
character beyond these. -/
inductive StandsFor : List Unit16 → List Char → Prop
  | nil : StandsFor [] []
  | char (c : Char) {units : List Unit16} {chars : List Char}
      (h : StandsFor units chars) :
      StandsFor (.char c :: units) (c :: chars)
  | unit (c : Char) {units : List Unit16} {chars : List Char}
      (h : StandsFor units chars) :
      StandsFor (.unit c.toNat :: units) (c :: chars)
  | pair {high low : Nat} {c : Char} {units : List Unit16} {chars : List Char}
      (hhigh : 0xd800 ≤ high ∧ high < 0xdc00)
        (hlow : 0xdc00 ≤ low ∧ low < 0xe000)
      (hc : c.toNat = 0x10000 + (high - 0xd800) * 0x400 + (low - 0xdc00))
      (h : StandsFor units chars) :
      StandsFor (.unit high :: .unit low :: units) (c :: chars)

/-- A string with its quotes. Its text is what its parts stand for, or there is
none if they stand for nothing. -/
inductive WritesString : Text → List Char → Prop
  | text {s : String} {units : List Unit16} {cs : List Char}
      (hspells : Spells units cs)
      (hstands : StandsFor units s.toList) : WritesString (some s)
        ('"' :: (cs ++ ['"']))
  | torn {units : List Unit16} {cs : List Char} (hspells : Spells units cs)
      (hstands : ∀ chars, ¬StandsFor units chars) :
        WritesString none ('"' :: (cs ++ ['"']))

/-! ## Numbers -/

/-- How the sign of an exponent may be written; the first component tells
whether it is negative. -/
def exponentSigns : List (Bool × List Char) :=
  [(false, []), (false, ['+']), (true, ['-'])]

inductive WritesExponent : Option (Bool × List Char) → List Char → Prop
  | none : WritesExponent none []
  | some {letter : Char} {negative : Bool} {sign digits : List Char}
      (hletter : letter = 'e' ∨ letter = 'E') (hsign : (negative, sign) ∈
        exponentSigns)
      (hnonempty : digits ≠ []) (hdigits : ∀ c ∈ digits, isDigit c = true) :
      WritesExponent (some (negative, digits)) (letter :: (sign ++ digits))

inductive WritesNumber : Numeral → List Char → Prop
  | mk (n : Written) {exponent : Option (Bool × List Char)} {cs : List Char}
      (h : WritesExponent exponent cs) :
      WritesNumber ⟨n.negative, n.whole, n.places, exponent⟩ (n.text ++ cs)

/-! ## Values -/

/-- The name of a member, with or without blanks around it. -/
inductive WritesName : Text → List Char → Prop
  | mk {before after cs : List Char} {name : Text} (hbefore : Blanks before)
      (h : WritesString name cs) (hafter : Blanks after) :
        WritesName name (before ++ (cs ++ after))

structure Member where
  name : Text
  nameChars : List Char
  value : Value
  valueChars : List Char

namespace Member

def entry (m : Member) : Text × Value :=
  (m.name, m.value)

def chars (m : Member) : List Char :=
  m.nameChars ++ ':' :: m.valueChars

end Member

/-- The characters are a text of the value. -/
inductive Writes : Value → List Char → Prop
  | null : Writes .null "null".toList
  | trueWord : Writes (.bool true) "true".toList
  | falseWord : Writes (.bool false) "false".toList
  | number {n : Numeral} {cs : List Char} (h : WritesNumber n cs) :
      Writes (.number n) cs
  | text {t : Text} {cs : List Char} (h : WritesString t cs) :
      Writes (.text t) cs
  | emptyArray {cs : List Char} (h : Blanks cs) :
      Writes (.array []) ('[' :: (cs ++ [']']))
  | array {items : List (Value × List Char)} (hnonempty : items ≠ [])
      (h : ∀ i ∈ items, Writes i.1 i.2) :
      Writes (.array (items.map (·.1)))
        ('[' :: ([','].intercalate (items.map (·.2)) ++ [']']))
  | emptyObject {cs : List Char} (h : Blanks cs) :
      Writes (.object []) ('\x7b' :: (cs ++ ['\x7d']))
  | object {members : List Member} (hnonempty : members ≠ [])
      (hnames : ∀ m ∈ members, WritesName m.name m.nameChars)
      (hvalues : ∀ m ∈ members, Writes m.value m.valueChars) :
      Writes (.object (members.map Member.entry))
        ('\x7b' :: ([','].intercalate (members.map Member.chars) ++ ['\x7d']))
  | padded {v : Value} {before cs after : List Char} (hbefore : Blanks before)
      (h : Writes v cs)
      (hafter : Blanks after) : Writes v (before ++ (cs ++ after))

/-! ## The parts of a value -/

theorem Writes.writesNumber {n : Numeral} {cs : List Char}
    (h : Writes (.number n) cs) : ∃ cs, WritesNumber n cs := by
  generalize hv : Value.number n = v at h
  induction h with
  | number h =>
      obtain rfl := Value.number.inj hv
      exact ⟨_, h⟩
  | padded _ _ _ ih => exact ih hv
  | _ => cases hv

theorem Writes.of_mem_object {members : List (Text × Value)} {cs : List Char}
    (h : Writes (.object members) cs) {m : Text × Value} (hm : m ∈ members) :
    ∃ cs, Writes m.2 cs := by
  generalize hv : Value.object members = v at h
  induction h with
  | emptyObject _ =>
      obtain rfl := Value.object.inj hv
      cases hm
  | object _ _ hvalues _ =>
      obtain rfl := Value.object.inj hv
      obtain ⟨m', hm', rfl⟩ := List.mem_map.1 hm
      exact ⟨_, hvalues m' hm'⟩
  | padded _ _ _ ih => exact ih hv
  | _ => cases hv

end FileDigest.Json
