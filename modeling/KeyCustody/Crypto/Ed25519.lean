import KeyCustody.Crypto.Modular
import KeyCustody.Crypto.Sha512
import KeyCustody.Crypto.Signature
/-!
# Ed25519

The signature scheme of RFC 8032 on the twisted Edwards curve `-x² + y² = 1 + d x² y²` over the
field with `2 ^ 255 - 19` elements. Points are kept in extended coordinates `(X, Y, Z, T)` with
`x = X / Z`, `y = Y / Z` and `x y = T / Z`.

A public key is taken as written: its `y` may be given by any number below `2 ^ 255`. A signature is
good when its scalar is below the order of the base point and its point, as written, is the one that
the equation of verification yields.
-/

namespace KeyCustody.Crypto.Ed25519

/-! ### The field -/

/-- The number of field elements. -/
def fieldPrime : Nat := Nat.pow 2 255 - 19

/-- The order of the base point. -/
def order : Nat := Nat.pow 2 252 + 27742317777372353535851937790883648493

def mul (a b : Nat) : Nat := a * b % fieldPrime
def add (a b : Nat) : Nat := (a + b) % fieldPrime
def sub (a b : Nat) : Nat := (a + fieldPrime - b) % fieldPrime
def neg (a : Nat) : Nat := sub 0 a

/-- The inverse of a field element; zero has none and stays. -/
def inv (a : Nat) : Nat := Modular.pow a (fieldPrime - 2) fieldPrime

/-- The coefficient of the curve. -/
def coefficient : Nat := mul (neg 121665) (inv 121666)

/-- A square root of minus one. -/
def rootOfMinusOne : Nat := Modular.pow 2 ((fieldPrime - 1) / 4) fieldPrime

/-- A square root of `u / v`, if there is one. -/
def sqrtRatio? (u v : Nat) : Option Nat :=
  let v3 := mul (mul v v) v
  let v7 := mul (mul v3 v3) v
  let r := mul (mul u v3) (Modular.pow (mul u v7) ((fieldPrime - 5) / 8) fieldPrime)
  let check := mul v (mul r r)
  if check = u then some r
  else if check = neg u then some (mul r rootOfMinusOne)
  else none

/-! ### Points -/

/-- A point in extended coordinates. -/
structure Point where
  x : Nat
  y : Nat
  z : Nat
  t : Nat

namespace Point

/-- The neutral point. -/
def zero : Point := ⟨0, 1, 1, 0⟩

/-- The sum of two points. -/
def add (p q : Point) : Point :=
  let a := mul (sub p.y p.x) (sub q.y q.x)
  let b := mul (Ed25519.add p.y p.x) (Ed25519.add q.y q.x)
  let c := mul (mul (mul p.t q.t) 2) coefficient
  let d := mul (mul p.z q.z) 2
  let e := sub b a
  let f := sub d c
  let g := Ed25519.add d c
  let h := Ed25519.add b a
  ⟨mul e f, mul g h, mul f g, mul e h⟩

/-- The opposite point. -/
def opposite (p : Point) : Point :=
  ⟨neg p.x, p.y, p.z, neg p.t⟩

/-- The multiple of a point, by doubling. -/
def smul (n : Nat) (p : Point) : Point :=
  if h : n = 0 then zero
  else
    let rest := smul (n / 2) (add p p)
    if n % 2 = 1 then add p rest else rest
termination_by n
decreasing_by exact Nat.div_lt_self (Nat.pos_of_ne_zero h) (by decide)

/-- The point as thirty-two octets: `y`, with the lowest bit of `x` as the highest bit. -/
def encode (p : Point) : Bytes :=
  let zi := inv p.z
  let x := mul p.x zi
  let y := mul p.y zi
  Bytes.ofNatLE 32 (y + x % 2 * Nat.pow 2 255)

/-- The point of thirty-two octets. -/
def decode? (bs : Bytes) : Option Point :=
  if bs.length = 32 then
    let n := Bytes.toNatLE bs
    let y := n % Nat.pow 2 255 % fieldPrime
    let yy := mul y y
    (sqrtRatio? (sub yy 1) (Ed25519.add (mul coefficient yy) 1)).map fun r =>
      let x := if r % 2 = n / Nat.pow 2 255 then r else neg r
      ⟨x, y, 1, mul x y⟩
  else none

/-- The base point, whose `y` is four fifths and whose `x` is even. -/
def base : Point :=
  (decode? (Bytes.ofNatLE 32 (mul 4 (inv 5)))).getD zero

end Point

/-! ### Signatures -/

/-- The secret scalar of a seed and the octets that enter the signatures. -/
def secret (seed : Bytes) : Nat × Bytes :=
  let h := Sha512.digest seed
  let n := Bytes.toNatLE (h.take 32)
  (Nat.pow 2 254 + n % Nat.pow 2 254 / 8 * 8, h.drop 32)

/-- The public key of a seed. -/
def publicOf (seed : Bytes) : Bytes :=
  (Point.base.smul (secret seed).1).encode

/-- The number of a hash, to the order of the base point. -/
def hashScalar (bs : Bytes) : Nat :=
  Bytes.toNatLE (Sha512.digest bs) % order

/-- The signature of a message: a point and a scalar. -/
def sign (seed message : Bytes) : Bytes :=
  let (a, nonceKey) := secret seed
  let r := hashScalar (nonceKey ++ message)
  let point := (Point.base.smul r).encode
  let k := hashScalar (point ++ publicOf seed ++ message)
  point ++ Bytes.ofNatLE 32 ((r + k * a) % order)

/-- Whether the signature of a message is good under a public key. -/
def verify (publicKey message signature : Bytes) : Bool :=
  let point := signature.take 32
  let s := Bytes.toNatLE (signature.drop 32)
  if signature.length = 64 ∧ s < order then
    match Point.decode? publicKey with
    | some a =>
      let k := hashScalar (point ++ publicKey ++ message)
      ((Point.base.smul s).add (a.opposite.smul k)).encode == point
    | none => false
  else false

/-- The signature scheme. -/
def scheme : SignatureScheme where
  publicOf := publicOf
  length_publicOf _ := Bytes.length_ofNatLE _ _
  isPublic bs := (Point.decode? bs).isSome
  sign := sign
  verify := verify

end KeyCustody.Crypto.Ed25519
