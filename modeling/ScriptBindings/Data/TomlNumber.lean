import ScriptBindings.Data.TomlText

/-! Numbers of a TOML text. A number is kept as written, but must be one
that can be held: an integer in 64 bits with a sign, and no float that
rounds to the positive infinity. -/
namespace ScriptBindings.Toml

def isDigitIn (radix : Nat) (c : Char) : Bool :=
  (Json.hexDigit? c).any (· < radix)

/-- Digits behind the first. One `_` may stand between two and is
dropped. -/
def moreDigits? (radix : Nat) : List Char → Option (List Char × List Char)
  | [] => some ([], [])
  | c :: rest =>
      if isDigitIn radix c then consContent c (moreDigits? radix rest)
      else if c == '_' then
        match rest with
        | d :: more => if isDigitIn radix d then consContent d (moreDigits? radix more) else none
        | [] => none
      else some ([], c :: rest)

/-- The digits a text begins with, of which there must be one. -/
def digits? (radix : Nat) : List Char → Option (List Char × List Char)
  | c :: rest => if isDigitIn radix c then consContent c (moreDigits? radix rest) else none
  | [] => none

/-- The digits before the point: a zero stands alone. -/
def whole? : List Char → Option (List Char × List Char)
  | '0' :: rest => some (['0'], rest)
  | text => digits? 10 text

def digitsValue (radix : Nat) (digits : List Char) : Nat :=
  digits.foldl (fun value c => radix * value + (Json.hexDigit? c).getD 0) 0

/-- Whether a text begins with a minus, and what follows its sign. -/
def sign : List Char → Bool × List Char
  | '-' :: rest => (true, rest)
  | '+' :: rest => (false, rest)
  | text => (false, text)

/-- The digits behind a point, if there is one. -/
def fraction? : List Char → Option (Option (List Char) × List Char)
  | '.' :: rest => (digits? 10 rest).map fun (digits, more) => (some digits, more)
  | text => some (none, text)

/-- The power of ten that ends a float, if there is one. -/
def exponent? : List Char → Option (Option Int × List Char)
  | c :: rest =>
      if c == 'e' || c == 'E' then
        let (negative, rest) := sign rest
        (digits? 10 rest).map fun (digits, more) =>
          let size : Int := digitsValue 10 digits
          (some (if negative then -size else size), more)
      else some (none, c :: rest)
  | [] => some (none, [])

/-- The first size that no positive integer of 64 bits has. -/
def integerLimit : Nat :=
  Nat.pow 2 63

def fitsInteger (negative : Bool) (size : Nat) : Bool :=
  if negative then size ≤ integerLimit else size < integerLimit

/-- The first value that rounds to the positive infinity of double
precision: half a unit beyond the largest float. -/
def floatLimit : Nat :=
  Nat.pow 2 1024 - Nat.pow 2 970

/-- Whether `digits` times a power of ten reaches `floatLimit`. The
magnitude decides it but for one power, so that no large power is
computed. -/
def exceedsFloat (digits : Nat) (power : Int) : Bool :=
  let magnitude := (Nat.toDigits 10 digits).length + power
  if digits == 0 || magnitude < 309 then false
  else if 309 < magnitude then true
  else floatLimit * Nat.pow 10 (-power).toNat ≤ digits * Nat.pow 10 power.toNat

/-- What follows a decimal integer or float. -/
def afterDecimal? (text : List Char) : Option (List Char) := do
  let (negative, rest) := sign text
  let (whole, rest) ← whole? rest
  let (fraction, rest) ← fraction? rest
  let (power, rest) ← exponent? rest
  match fraction, power with
  | none, none => guard (fitsInteger negative (digitsValue 10 whole))
  | _, _ =>
      let decimals := fraction.getD []
      let digits := digitsValue 10 (whole ++ decimals)
      guard (negative || !exceedsFloat digits (power.getD 0 - decimals.length))
  return rest

def radix? : Char → Option Nat
  | 'x' => some 16
  | 'o' => some 8
  | 'b' => some 2
  | _ => none

/-- What follows an integer that begins by naming its radix. -/
def afterRadix? : List Char → Option (List Char)
  | '0' :: c :: rest => do
      let radix ← radix? c
      let (digits, rest) ← digits? radix rest
      guard (fitsInteger false (digitsValue radix digits))
      return rest
  | _ => none

/-- What follows an infinity or what is no number. -/
def afterSpecial? (text : List Char) : Option (List Char) :=
  match (sign text).2 with
  | 'i' :: 'n' :: 'f' :: rest => some rest
  | 'n' :: 'a' :: 'n' :: rest => some rest
  | _ => none

/-- The number a text begins with. -/
def number? (text : List Char) : Option (Data × List Char) := do
  let rest ← (afterRadix? text).or ((afterDecimal? text).or (afterSpecial? text))
  return (.number (String.ofList (text.take (text.length - rest.length))), rest)

end ScriptBindings.Toml
