/-!
# Decimal numbers that read back

The shortest decimal that reads back as a given binary number, and of those
the one nearest to it. A finite double is `m * 2 ^ q`; the reals that are read
as it form an interval around it, whose ends belong to it just when `m` is
even. On each decimal grid, coarse ones first, the number's two neighbours are
tested: the first grid with a hit decides how many digits are needed.

Everything is exact arithmetic on naturals.
-/

namespace PinnedHeap.Text

/-- The decimal `digits * 10 ^ exponent`. -/
structure Decimal where
  digits : Nat
  exponent : Int
  deriving DecidableEq, Repr

/-- A positive binary number `m * 2 ^ q`. -/
structure Binary where
  /-- The significand. -/
  m : Nat
  /-- The power of two. -/
  q : Int
  /-- Is the next smaller number only half as far away as the next larger one? -/
  narrowBelow : Bool
  deriving DecidableEq, Repr

namespace Binary

/-- Four times the number, the lower and the upper end of the interval that is
read as it, over one power of two: `(value, low, high, q')` stand for
`x * 2 ^ q'`. -/
def scaled (b : Binary) : Nat × Nat × Nat × Int :=
  (4 * b.m, 4 * b.m - (if b.narrowBelow then 1 else 2), 4 * b.m + 2, b.q - 2)

/-- Are reals at the ends of the interval read as the number? -/
def closed (b : Binary) : Bool := b.m % 2 = 0

/-- Numerator and denominator that turn `x * 2 ^ q` into a count of `10 ^ k`. -/
def perUnit (q k : Int) : Nat × Nat :=
  (Nat.pow 2 q.toNat * Nat.pow 10 (-k).toNat, Nat.pow 2 (-q).toNat * Nat.pow 10 k.toNat)

/-- The points of the grid `10 ^ k` next to the number that are read as it: of two,
the nearer, and the upper one if they are equally near. -/
def onGrid? (b : Binary) (k : Int) : Option Decimal :=
  let (value, low, high, q) := b.scaled
  let (num, den) := perUnit q k
  let within (c : Nat) : Bool :=
    if b.closed then low * num ≤ c * den && c * den ≤ high * num
    else low * num < c * den && c * den < high * num
  let below := value * num / den
  let above := below + 1
  match within below && 0 < below, within above with
  | false, false => none
  | true, false => some ⟨below, k⟩
  | false, true => some ⟨above, k⟩
  | true, true =>
    if value * num - below * den < above * den - value * num then some ⟨below, k⟩
    else some ⟨above, k⟩

/-- The exponent of the first decimal digit: the greatest `e` from -330 to 330
such that `10 ^ e` is at most the number. -/
def leading (b : Binary) : Int :=
  let exponents := (List.range 661).map fun (i : Nat) => (330 : Int) - i
  (exponents.find? fun e =>
    let (num, den) := perUnit b.q e
    den ≤ b.m * num).getD (-330)

/-- The shortest decimal that is read as the number. -/
def shortest (b : Binary) : Decimal :=
  let top := b.leading
  let grids := (List.range 20).map fun (i : Nat) => top + 1 - i
  (grids.findSome? b.onGrid?).getD ⟨b.m, 0⟩

end Binary

/-- The digits of a decimal without zeros at the end, and where the point stands:
behind so many of them. -/
def Decimal.digitsAndPoint (d : Decimal) : List Char × Int :=
  let all := Nat.toDigits 10 d.digits
  let kept := (all.reverse.dropWhile (· == '0')).reverse
  (kept, all.length + d.exponent)

/-- How doubles are laid out. -/
structure NumberLayout where
  /-- The least place of the point at which a number is written without exponent. -/
  leastPoint : Int
  /-- The greatest such place. -/
  greatestPoint : Int

/-- Numbers from `10 ^ -4` on and below `10 ^ 16` are written without exponent. -/
def NumberLayout.standard : NumberLayout := ⟨-3, 16⟩

/-- A positive decimal: at least one digit behind the point if there is no
exponent, and a point only where digits follow it if there is one. -/
def NumberLayout.write (layout : NumberLayout) (d : Decimal) : String :=
  let (digits, point) := d.digitsAndPoint
  let zeros (n : Int) : List Char := List.replicate n.toNat '0'
  let text :=
    if layout.leastPoint ≤ point ∧ point ≤ layout.greatestPoint then
      if point ≤ 0 then '0' :: '.' :: zeros (-point) ++ digits
      else if point < digits.length then
        digits.take point.toNat ++ '.' :: digits.drop point.toNat
      else digits ++ zeros (point - digits.length) ++ ['.', '0']
    else
      let mantissa := match digits with
        | [] => []
        | [c] => [c]
        | c :: rest => c :: '.' :: rest
      mantissa ++ 'e' :: (toString (point - 1)).toList
  String.ofList text

/-- The bit in front of the fraction of a double. -/
def leadingBit : Nat := 0x10000000000000

/-- The parts of a double: sign, biased exponent, fraction. -/
def doubleParts (x : Float) : Bool × Nat × Nat :=
  let bits := x.toBits.toNat
  (bits / leadingBit / 2048 = 1, bits / leadingBit % 2048, bits % leadingBit)

/-- A double as text. -/
def double (x : Float) : String :=
  let (negative, exponent, fraction) := doubleParts x
  let sign := if negative then "-" else ""
  if exponent = 2047 then
    if fraction = 0 then sign ++ "inf" else "NaN"
  else if exponent = 0 ∧ fraction = 0 then sign ++ "0.0"
  else
    let b : Binary :=
      if exponent = 0 then ⟨fraction, -1074, false⟩
      else ⟨leadingBit + fraction, exponent - 1075, fraction = 0 && 1 < exponent⟩
    sign ++ NumberLayout.standard.write b.shortest

example : NumberLayout.standard.write ⟨15, -1⟩ = "1.5" := by decide
example : NumberLayout.standard.write ⟨1, 2⟩ = "100.0" := by decide
example : NumberLayout.standard.write ⟨25, -4⟩ = "0.0025" := by decide
example : NumberLayout.standard.write ⟨12, 15⟩ = "1.2e16" := by decide

end PinnedHeap.Text
