/-!
# Arithmetic to a modulus

Powers and inverses to a modulus, and a test of primality.
-/

namespace KeyCustody.Crypto.Modular

/-- The power `b ^ e` to the modulus `m`, by squaring. -/
def pow (b e m : Nat) : Nat :=
  if h : e = 0 then 1 % m
  else
    let rest := pow (b * b % m) (e / 2) m
    if e % 2 = 1 then b * rest % m else rest
termination_by e
decreasing_by exact Nat.div_lt_self (Nat.pos_of_ne_zero h) (by decide)

/-- The greatest common divisor of `a` and `b` with a factor of `a` that yields it to the modulus
`m`: from `x` and `y` with `a ≡ x * k` and `b ≡ y * k` to the modulus, it finds `(g, z)` with
`g ≡ z * k`. -/
def gcdFactor (m : Nat) (a b x y : Nat) : Nat × Nat :=
  if _h : b = 0 then (a, x)
  else gcdFactor m b (a % b) y ((x + (m - a / b % m) * y) % m)
termination_by b
decreasing_by exact Nat.mod_lt _ (Nat.pos_of_ne_zero _h)

/-- The number that multiplies `a` to one, to the modulus `m`. -/
def inverse? (a m : Nat) : Option Nat :=
  match gcdFactor m (a % m) m 1 0 with
  | (1, x) => some (x % m)
  | _ => none

/-- How often two divides `n`, up to `fuel` times, and the quotient. -/
def twoPart : (fuel : Nat) → Nat → Nat × Nat
  | 0, n => (0, n)
  | fuel + 1, n =>
    if n % 2 = 0 then
      let (s, d) := twoPart fuel (n / 2)
      (s + 1, d)
    else (0, n)

/-- Whether one of `x` and its first `count` repeated squares is `n - 1`. -/
def squaresToMinusOne (n : Nat) : (count : Nat) → Nat → Bool
  | 0, _ => false
  | count + 1, x => x == n - 1 || squaresToMinusOne n count (x * x % n)

/-- Whether `n` passes the test of Miller and Rabin to the base `a`. -/
def passes (n a : Nat) : Bool :=
  let (s, d) := twoPart n.log2 (n - 1)
  let x := pow a d n
  x == 1 || squaresToMinusOne n s x

/-- The prime numbers below two hundred and fifty-six. -/
def smallPrimes : List Nat :=
  (List.range 256).filter fun n => 2 ≤ n && (List.range n).all fun d => d < 2 || n % d != 0

/-- Whether `n` has no small prime factor and passes the test to the first twenty prime bases. -/
def seemsPrime (n : Nat) : Bool :=
  if n < 256 then smallPrimes.contains n
  else smallPrimes.all (n % · != 0) && (smallPrimes.take 20).all (passes n)

end KeyCustody.Crypto.Modular
