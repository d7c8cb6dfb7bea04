import LogHarvest.Text.Ascii

/-!
# Decimal text of binary numbers

A rate is a binary floating-point number.  Its text has the fewest digits that
read back as the same number, and of those digits the nearest.  The search runs
in exact integer arithmetic on the number's bits: the number is a whole multiple
of a power of two, and the reals that round to it form an interval around it.

How the digits are laid out is a separate matter: a `NumberStyle` says where
positional notation ends and how whole and non-finite numbers are spelled.
-/

namespace LogHarvest
namespace Text

/-- The number `digits * 10 ^ exponent`. -/
structure Decimal where
  digits : Nat
  exponent : Int
deriving DecidableEq, Repr

/-- A positive finite number `mantissa * 2 ^ exponent`, as its bits give it. -/
structure Binary where
  mantissa : Nat
  exponent : Int
  /-- The next smaller number is only half as far away as the next larger one. -/
  atStep : Bool

inductive FloatShape
  | nan
  | infinite (negative : Bool)
  | zero (negative : Bool)
  | finite (negative : Bool) (magnitude : Binary)

def FloatShape.ofBits (bits : Nat) : FloatShape :=
  let negative := bits / Nat.pow 2 63 == 1
  let field := bits / Nat.pow 2 52 % Nat.pow 2 11
  let fraction := bits % Nat.pow 2 52
  if field == 2047 then
    if fraction == 0 then .infinite negative else .nan
  else if field == 0 then
    if fraction == 0 then .zero negative
    else .finite negative ⟨fraction, -1074, false⟩
  else
    .finite negative
      ⟨Nat.pow 2 52 + fraction, Int.ofNat field - 1075, fraction == 0 && field != 1⟩

def FloatShape.of (x : Float) : FloatShape :=
  .ofBits x.toBits.toNat

/-!
## The shortest digits

The number and the ends of its interval are integers in units of a quarter of
its last binary place.  A decimal `c * 10 ^ k` is compared with them after both
sides are multiplied by the denominators.
-/

namespace Binary

def powerParts (base : Nat) (e : Int) : Nat × Nat :=
  if 0 ≤ e then (Nat.pow base e.toNat, 1) else (1, Nat.pow base (-e).toNat)

/-- The factors by which a decimal count and a quarter count are made comparable. -/
def scales (b : Binary) (k : Int) : Nat × Nat :=
  let (tenUp, tenDown) := powerParts 10 k
  let (twoUp, twoDown) := powerParts 2 (b.exponent - 2)
  (tenUp * twoDown, twoUp * tenDown)

def readsBack (b : Binary) (k : Int) (c : Nat) : Bool :=
  let (dec, bin) := b.scales k
  let low := (4 * b.mantissa - (if b.atStep then 1 else 2)) * bin
  let high := (4 * b.mantissa + 2) * bin
  if b.mantissa % 2 == 0 then low ≤ c * dec && c * dec ≤ high
  else low < c * dec && c * dec < high

def below (b : Binary) (k : Int) : Nat :=
  let (dec, bin) := b.scales k
  4 * b.mantissa * bin / dec

/-- Of the two decimals around the number, `c` is at least as near as `c + 1`. -/
def nearerBelow (b : Binary) (k : Int) (c : Nat) : Bool :=
  let (dec, bin) := b.scales k
  let twice := 2 * (4 * b.mantissa * bin)
  let middle := (2 * c + 1) * dec
  twice < middle || (twice == middle && c % 2 == 0)

/-- The decimal of the grid `10 ^ k` that reads back as the number, if there is one. -/
def onGrid (b : Binary) (k : Int) : Option Nat :=
  let c := b.below k
  match b.readsBack k c, b.readsBack k (c + 1) with
  | true, true => some (if b.nearerBelow k c then c else c + 1)
  | true, false => some c
  | false, true => some (c + 1)
  | false, false => none

def search (b : Binary) : (steps : Nat) → (k : Int) → Decimal
  | 0, k => ⟨b.below k, k⟩
  | steps + 1, k =>
      match b.onGrid k with
      | some c => ⟨c, k⟩
      | none => search b steps (k - 1)

/-- The exponent of the first digit: the greatest `e` with `10 ^ e` at most the number. -/
def magnitude (b : Binary) : Int :=
  let whole := b.below 0
  if 0 < whole then ((Nat.toDigits 10 whole).length : Int) - 1
  else
    -- the first of the grids below one that shows a digit
    let places := (List.range 330).find? fun j => 0 < b.below (Int.negOfNat j)
    Int.negOfNat (places.getD 330)

end Binary

def Decimal.normalised (fuel : Nat) (d : Decimal) : Decimal :=
  match fuel with
  | 0 => d
  | fuel + 1 =>
      if 0 < d.digits && d.digits % 10 == 0 then
        Decimal.normalised fuel ⟨d.digits / 10, d.exponent + 1⟩
      else d

/-- The shortest decimal that reads back as the number, and the nearest of those. -/
def Binary.shortest (b : Binary) : Decimal :=
  (b.search 18 b.magnitude).normalised 400

/-!
## Layout
-/

structure NumberStyle where
  /-- The places of the point, counted from the first digit, that are written positionally. -/
  positional : Int → Bool
  /-- A whole number ends in `.0`. -/
  pointAfterWhole : Bool
  nan : String
  infinity : String

/-- The style of messages: always positional, whole numbers without a point. -/
def plainStyle : NumberStyle where
  positional := fun _ => true
  pointAfterWhole := false
  nan := "NaN"
  infinity := "inf"

/-- The style of configuration files: exponents from `1e16` and below `1e-5`. -/
def documentStyle : NumberStyle where
  positional := fun point => -5 < point && point ≤ 16
  pointAfterWhole := true
  nan := ".nan"
  infinity := ".inf"

def Decimal.text (d : Decimal) : List Char :=
  Nat.toDigits 10 d.digits

def zeros (n : Int) : List Char :=
  List.replicate n.toNat '0'

def NumberStyle.layOut (style : NumberStyle) (d : Decimal) : List Char :=
  let digits := d.text
  let point : Int := digits.length + d.exponent
  if style.positional point then
    if 0 ≤ d.exponent then
      digits ++ zeros d.exponent ++ (if style.pointAfterWhole then ['.', '0'] else [])
    else if 0 < point then
      digits.take point.toNat ++ ['.'] ++ digits.drop point.toNat
    else ['0', '.'] ++ zeros (-point) ++ digits
  else
    let exponentText := 'e' :: (toString (point - 1)).toList
    match digits with
    | [] => exponentText
    | [first] => first :: exponentText
    | first :: more => first :: '.' :: more ++ exponentText

def NumberStyle.render (style : NumberStyle) (x : Float) : String :=
  let signed (negative : Bool) (text : String) := if negative then "-" ++ text else text
  match FloatShape.of x with
  | .nan => style.nan
  | .infinite negative => signed negative style.infinity
  | .zero negative => signed negative (if style.pointAfterWhole then "0.0" else "0")
  | .finite negative b => signed negative (String.ofList (style.layOut b.shortest))

/-!
## Reading
-/

def digitsValue (base : Nat) (digits : List Nat) : Nat :=
  digits.foldl (fun n d => n * base + d) 0

def decimalValue (cs : List Char) : Nat :=
  digitsValue 10 (cs.map digitValue)

def Decimal.parts (d : Decimal) : Nat × Nat :=
  let (up, down) := Binary.powerParts 10 d.exponent
  (d.digits * up, down)

/-- The whole number nearest to a fraction, and of two the even one. -/
def nearestWhole (num den : Nat) : Nat :=
  let below := num / den
  let twice := 2 * (num % den)
  if twice < den || (twice == den && below % 2 == 0) then below else below + 1

/-- The binary place to which a fraction is rounded, as an exponent of two. -/
def lastPlace (num den : Nat) : Int :=
  let guess : Int := (num.log2 : Int) - den.log2 - 52
  let (up, down) := Binary.powerParts 2 guess
  max (-1074) (if num * down < Nat.pow 2 52 * up * den then guess - 1 else guess)

def nearestBits (num den : Nat) : Nat :=
  let place := lastPlace num den
  let (up, down) := Binary.powerParts 2 place
  let mantissa := nearestWhole (num * down) (up * den)
  -- a mantissa that is rounded up to the next power of two carries into the exponent
  min ((place + 1074).toNat * Nat.pow 2 52 + mantissa) (2047 * Nat.pow 2 52)

/--
The number nearest to a decimal.  Magnitudes far outside the range of numbers are
settled by the count of digits, so that no huge power is computed.
-/
def Decimal.toFloat (d : Decimal) : Float :=
  let point : Int := (Nat.toDigits 10 d.digits).length + d.exponent
  if d.digits == 0 then 0
  else if 400 < point then 1 / 0
  else if point < -400 then 0
  else
    let (num, den) := d.parts
    Float.ofBits (UInt64.ofNat (nearestBits num den))

def readExponent? : List Char → Option Int
  | '-' :: digits =>
      if !digits.isEmpty && digits.all isDigit then some (-(decimalValue digits : Int)) else none
  | '+' :: digits =>
      if !digits.isEmpty && digits.all isDigit then some (decimalValue digits : Int) else none
  | digits =>
      if !digits.isEmpty && digits.all isDigit then some (decimalValue digits : Int) else none

def Decimal.read? (cs : List Char) : Option Decimal :=
  let whole := cs.takeWhile isDigit
  let rest := cs.dropWhile isDigit
  let (fraction, rest) :=
    match rest with
    | '.' :: rest' => (rest'.takeWhile isDigit, rest'.dropWhile isDigit)
    | _ => ([], rest)
  if whole.isEmpty && fraction.isEmpty then none
  else
    let digits := decimalValue (whole ++ fraction)
    let exponent : Option Int :=
      match rest with
      | [] => some 0
      | c :: rest' => if c == 'e' || c == 'E' then readExponent? rest' else none
    exponent.map fun e => ⟨digits, e - fraction.length⟩

def readFloat? : List Char → Option Float
  | '-' :: cs => (Decimal.read? cs).map fun d => -d.toFloat
  | '+' :: cs => (Decimal.read? cs).map Decimal.toFloat
  | cs => (Decimal.read? cs).map Decimal.toFloat

end Text
end LogHarvest
