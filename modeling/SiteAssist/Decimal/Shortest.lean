/-!
# The shortest decimal of a binary fraction

A finite double is `m · 2^q`, and the reals that round to it form an interval around it. Its
shortest decimal is the one with the fewest digits in that interval, and of those the nearest to
the value. The search tries one digit, then two, and so on: on each decimal grid only the two
neighbours of the value can be the nearest point, so two tests decide.
-/

namespace SiteAssist.Decimal

/-- A positive decimal `digits · 10^exponent`. -/
structure Scientific where
  digits : Nat
  exponent : Int
  deriving Repr, DecidableEq

/-- A ratio of naturals scaled by a power of ten: numerator and denominator of `n/d · 10^e`. -/
def scaled (n d : Nat) (e : Int) : Nat × Nat :=
  match e with
  | .ofNat k => (n * Nat.pow 10 k, d)
  | .negSucc k => (n, d * Nat.pow 10 (k + 1))

/-- The binary fraction `m · 2^q` as numerator and denominator. -/
def fraction (m : Nat) (q : Int) : Nat × Nat :=
  match q with
  | .ofNat k => (m * Nat.pow 2 k, 1)
  | .negSucc k => (m, Nat.pow 2 (k + 1))

/-- The interval of reals that round to `m · 2^q`, as numerators over one denominator: lower
end, value and upper end. Below a power of two the spacing halves. -/
def interval (m : Nat) (q : Int) : Nat × Nat × Nat × Nat :=
  let (n, d) := fraction m q
  let (gap, _) := fraction 1 q
  let low := if m = Nat.pow 2 52 ∧ -1074 < q then 4 * n - gap else 4 * n - 2 * gap
  (low, 4 * n, 4 * n + 2 * gap, 4 * d)

/-- The number of decimal digits of the integral part of `n / d`, or minus the number of zeros
that follow the point. -/
def magnitude (n d : Nat) (fuel : Nat) : Int :=
  match fuel with
  | 0 => 0
  | fuel + 1 =>
    if d ≤ n then magnitude n (10 * d) fuel + 1
    else if 10 * n < d then magnitude (10 * n) d fuel - 1
    else 0

/-- The better neighbour on a grid of step `10^e`, if one lies in the interval. -/
def onGrid (m : Nat) (q : Int) (e : Int) : Option Scientific :=
  let (low, value, high, den) := interval m q
  let (v, d) := scaled value den (-e)
  let (lo, dl) := scaled low den (-e)
  let (hi, dh) := scaled high den (-e)
  let inside (k : Nat) : Bool :=
    if m % 2 = 0 then lo ≤ k * dl && k * dh ≤ hi else lo < k * dl && k * dh < hi
  let below := v / d
  let above := below + 1
  let nearer : Nat := if 2 * (v % d) < d then below
    else if d < 2 * (v % d) then above
    else if below % 2 = 0 then below else above
  let farther : Nat := if nearer = below then above else below
  if nearer ≠ 0 && inside nearer then some ⟨nearer, e⟩
  else if farther ≠ 0 && inside farther then some ⟨farther, e⟩
  else none

/-- The first grid with a point in the interval, from the coarsest. -/
def search (m : Nat) (q : Int) (e : Int) : Nat → Scientific
  | 0 => ⟨0, 0⟩
  | fuel + 1 => (onGrid m q e).getD (search m q (e - 1) fuel)

/-- Trailing zeros move into the exponent. -/
def normalised (x : Scientific) : Nat → Scientific
  | 0 => x
  | fuel + 1 =>
    if x.digits ≠ 0 ∧ x.digits % 10 = 0 then normalised ⟨x.digits / 10, x.exponent + 1⟩ fuel else x

/-- The shortest decimal that rounds to `m · 2^q`, for a positive `m`. -/
def shortest (m : Nat) (q : Int) : Scientific :=
  let (n, d) := fraction m q
  normalised (search m q (magnitude n d 400) 20) 20

/-- The conventions by which a decimal is written out. -/
structure Style where
  /-- the least scientific exponent that is written with a point and zeros -/
  least : Int
  /-- the greatest such exponent -/
  greatest : Int

/-- Digits with a point or an exponent. -/
def Style.write (style : Style) (x : Scientific) : String :=
  let ds := Nat.toDigits 10 x.digits
  let scientific : Int := x.exponent + ds.length - 1
  if style.least ≤ scientific ∧ scientific ≤ style.greatest then
    if scientific < 0 then
      String.ofList ("0.".toList ++ List.replicate (-scientific - 1).toNat '0' ++ ds)
    else
      let whole := scientific.toNat + 1
      let ds := ds ++ List.replicate (whole + 1 - ds.length) '0'
      String.ofList (ds.take whole ++ '.' :: ds.drop whole)
  else
    let mantissa := match ds with
      | [d] => [d]
      | d :: rest => d :: '.' :: rest
      | [] => []
    let sign := if scientific < 0 then '-' else '+'
    String.ofList (mantissa ++ 'e' :: sign :: Nat.toDigits 10 scientific.natAbs)

/-- The binary parts of a double: sign, significand and exponent, if it is finite. -/
def parts? (x : Float) : Option (Bool × Nat × Int) :=
  let bits := x.toBits.toNat
  let negative := bits / Nat.pow 2 63 == 1
  let exponent : Nat := bits / Nat.pow 2 52 % Nat.pow 2 11
  let significand : Nat := bits % Nat.pow 2 52
  if exponent = 2047 then none
  else if exponent = 0 then some (negative, significand, -1074)
  else some (negative, significand + Nat.pow 2 52, (exponent : Int) - 1075)

/-- A double written by its shortest decimal; zero is `0.0`, and a number that is not finite has
no text. -/
def Style.show (style : Style) (x : Float) : String :=
  match parts? x with
  | none => "null"
  | some (negative, m, q) =>
    let body := if m = 0 then "0.0" else style.write (shortest m q)
    if negative then "-" ++ body else body

end SiteAssist.Decimal
