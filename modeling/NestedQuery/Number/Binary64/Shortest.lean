import NestedQuery.Number.Binary64

/-!
# The shortest decimal that reads back

Between a double and its two neighbours lies an interval of reals that round to it; its ends
belong to it when the significand is even.  Of the decimals in the interval the ones with the
fewest digits are wanted, and of these the nearest to the double.  Where two are equally near,
a rule decides.

* `Scientific`              a whole number times a power of ten;
* `Tie`, `roundsUp`         the rules, and which of two neighbours is the nearer one by a rule;
* `Binary64.interval`       the ends of the interval, in quarters of the last place;
* `Binary64.shortest`       the shortest decimal of a positive finite magnitude.
-/

namespace NestedQuery

/-- `digits * 10 ^ exponent` -/
structure Scientific where
  digits : Nat
  exponent : Int
deriving DecidableEq

/-- a digit zero at the end, which a carry leaves there, moved into the exponent -/
def Scientific.carried (s : Scientific) : Scientific :=
  go s.digits s.exponent
where
  go (digits : Nat) (exponent : Int) : Scientific :=
    if 10 ≤ digits ∧ digits % 10 = 0 then go (digits / 10) (exponent + 1) else ⟨digits, exponent⟩
  termination_by digits
  decreasing_by omega

/-- which of two equally near neighbours counts as the nearer one -/
inductive Tie
  /-- the one with the even last digit -/
  | toEven
  /-- the greater one -/
  | up
deriving DecidableEq

/-- the real `floor + rest / step`, with `rest` below `step`, is nearer to `floor + 1` -/
def roundsUp (tie : Tie) (floor rest step : Nat) : Bool :=
  step < 2 * rest || 2 * rest == step && (tie == .up || floor % 2 == 1)

namespace Binary64

/-- the reals that round to a magnitude: their lower and upper end as numerators over
`4 * denominator`, and whether the ends belong to them -/
structure Interval where
  low : Nat
  high : Nat
  closed : Bool

/-- a magnitude that starts a new exponent is twice as near to the magnitude below it -/
def interval (magnitude : Nat) : Interval :=
  let unit := twoPow (scale magnitude - 1074)
  let value := 4 * numerator magnitude
  let below := if magnitude % normal = 0 ∧ normal < magnitude then unit else 2 * unit
  ⟨value - below, value + 2 * unit, magnitude % 2 = 0⟩

/-- the real `num / den` lies in the interval of a magnitude with the denominator `unit` -/
def Interval.holds (i : Interval) (unit num den : Nat) : Bool :=
  if i.closed then i.low * den ≤ num * (4 * unit) && num * (4 * unit) ≤ i.high * den
  else i.low * den < num * (4 * unit) && num * (4 * unit) < i.high * den

/-- the number of digits before the point of `num / den`; not positive below one tenth -/
def pointPlace (num den : Nat) : Int :=
  if den ≤ num then (Nat.toDigits 10 (num / den)).length
  else 1 - (Nat.toDigits 10 (den / num)).length

/-- of the two decimals next to `num / den` on the grid of `10 ^ exponent`, the nearer one that
the interval holds -/
def nearestOnGrid (tie : Tie) (i : Interval) (num den : Nat) (exponent : Int) :
    Option Scientific :=
  let up := tenPow exponent.toNat
  let down := tenPow (-exponent).toNat
  let floor := num * down / (den * up)
  let lower := i.holds den (floor * up) down
  let upper := i.holds den ((floor + 1) * up) down
  let rest := num * down % (den * up)
  if lower && !(upper && roundsUp tie floor rest (den * up)) then some ⟨floor, exponent⟩
  else if upper then some (Scientific.carried ⟨floor + 1, exponent⟩)
  else none

/-- the first grid with a hit, from `count` digits on, `fuel` grids at most -/
def searchGrids (tie : Tie) (i : Interval) (num den : Nat) (place : Int) (count : Nat) :
    Nat → Scientific
  | 0 =>
    ⟨num * tenPow (-(place - count)).toNat / (den * tenPow (place - count).toNat), place - count⟩
  | fuel + 1 =>
    match nearestOnGrid tie i num den (place - count) with
    | some found => found
    | none => searchGrids tie i num den place (count + 1) fuel

/-- seventeen digits tell every double apart from its neighbours -/
def shortest (tie : Tie) (magnitude : Nat) : Scientific :=
  let num := numerator magnitude
  let den := denominator magnitude
  searchGrids tie (interval magnitude) num den (pointPlace num den) 1 17

end Binary64

end NestedQuery
