/-!
# Doubles

Numbers of at most 53 bits, times a power of two. A ratio stands for the double
nearest to it, and between two for the even one. A double is written with the
fewest digits to which no other double is nearer.
-/
namespace PluginGuard

structure Ratio where
  num : Nat
  den : Nat
  deriving DecidableEq, Repr

namespace Ratio

def ofNat (n : Nat) : Ratio := ⟨n, 1⟩

def twos (r : Ratio) (power : Int) : Ratio := ⟨r.num <<< power.toNat, r.den <<< (-power).toNat⟩

def tens (r : Ratio) (power : Int) : Ratio :=
  ⟨r.num * Nat.pow 10 power.toNat, r.den * Nat.pow 10 (-power).toNat⟩

def times (r s : Ratio) : Ratio := ⟨r.num * s.num, r.den * s.den⟩

def divided (r s : Ratio) : Ratio := ⟨r.num * s.den, r.den * s.num⟩

def before (r s : Ratio) : Bool := r.num * s.den < s.num * r.den

def floor (r : Ratio) : Nat := r.num / r.den

def nearest (r : Ratio) : Nat :=
  let rest := 2 * (r.num % r.den)
  if rest < r.den || (rest == r.den && r.floor % 2 == 0) then r.floor else r.floor + 1

end Ratio

structure Double where
  significand : Nat
  scale : Int
  deriving DecidableEq, Repr

namespace Double

def leastScale : Int := -1074
def mostScale : Int := 971

/-- The least significand that has all its bits, and the first that has too many. -/
def full : Nat := 1 <<< 52
def tooFull : Nat := 1 <<< 53

def zero : Double := ⟨0, leastScale⟩

def ratio (d : Double) : Ratio := (Ratio.ofNat d.significand).twos d.scale

/-- The power of two by which a ratio has 53 bits before the point. -/
def scaleOf (r : Ratio) : Int :=
  let guess : Int := (r.num.log2 : Int) - r.den.log2 - 52
  if (r.twos (-guess)).before (.ofNat full) then guess - 1 else guess

def ofRatio? (r : Ratio) : Option Double :=
  if r.num = 0 then some zero
  else
    let scale := max (scaleOf r) leastScale
    let n := (r.twos (-scale)).nearest
    let d : Double := if n = tooFull then ⟨full, scale + 1⟩ else ⟨n, scale⟩
    if mostScale < d.scale then none else some d

/-! ### Powers of ten -/

def mostTens : Nat := 308

def ten (power : Nat) : Double := (ofRatio? ((Ratio.ofNat 1).tens power)).getD zero

/-- A double times a power of ten, rounded at each of at most so many steps. After three
of them nothing is left of any number of 64 bits. -/
def scaled? : Nat → Double → Int → Option Double
  | 0, _, _ => some zero
  | steps + 1, d, power =>
    if d.significand = 0 then some zero
    else if mostTens < power then none
    else if 0 ≤ power then ofRatio? (d.ratio.times (ten power.toNat).ratio)
    else if -(mostTens : Int) ≤ power then ofRatio? (d.ratio.divided (ten (-power).toNat).ratio)
    else do scaled? steps (← ofRatio? (d.ratio.divided (ten mostTens).ratio)) (power + mostTens)

def ofDecimal? (n : Nat) (power : Int) : Option Double := do
  scaled? 3 (← ofRatio? (.ofNat n)) power

/-! ### Writing -/

def lowEnd (d : Double) : Ratio :=
  if d.significand = full && leastScale < d.scale then
    (Ratio.ofNat (4 * d.significand - 1)).twos (d.scale - 2)
  else (Ratio.ofNat (2 * d.significand - 1)).twos (d.scale - 1)

def highEnd (d : Double) : Ratio := (Ratio.ofNat (2 * d.significand + 1)).twos (d.scale - 1)

/-- The ends themselves go with the even double. -/
def isNear (d : Double) (r : Ratio) : Bool :=
  if d.significand % 2 = 0 then !r.before d.lowEnd && !d.highEnd.before r
  else d.lowEnd.before r && r.before d.highEnd

def magnitude (d : Double) : Int :=
  ((toString (d.ratio.tens 330).floor).length : Int) - 331

def digits? (d : Double) (count : Nat) : Option (Nat × Int) :=
  let power := d.magnitude + 1 - count
  let r := d.ratio.tens (-power)
  let other := if r.nearest = r.floor then r.floor + 1 else r.floor
  ([r.nearest, other].find? fun n => d.isNear ((Ratio.ofNat n).tens power)).map (·, power)

def shortest (d : Double) : Nat × Int :=
  ((List.range' 1 17).findSome? d.digits?).getD (0, 0)

def zeros (n : Int) : List Char := List.replicate n.toNat '0'

def pointed (ds : List Char) (point : Int) : List Char :=
  if point ≤ 0 then ['0', '.'] ++ zeros (-point) ++ ds
  else
    let after := ds.drop point.toNat
    ds.take point.toNat ++ zeros (point - ds.length) ++ '.' :: if after.isEmpty then ['0'] else after

def powered (ds : List Char) (power : Int) : List Char :=
  let after := ds.drop 1
  ds.take 1 ++ (if after.isEmpty then [] else '.' :: after) ++ 'e' :: (toString power).toList

def trimmed (ds : List Char) : List Char := (ds.reverse.dropWhile (· == '0')).reverse

def text (d : Double) : String :=
  if d.significand = 0 then "0.0"
  else
    let (n, power) := d.shortest
    let ds := (toString n).toList
    let point := ds.length + power
    String.ofList
      (if -5 < point ∧ point ≤ 16 then pointed (trimmed ds) point
       else powered (trimmed ds) (point - 1))

end Double

end PluginGuard
