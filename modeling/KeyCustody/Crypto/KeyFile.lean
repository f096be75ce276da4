import KeyCustody.Crypto.Der
import KeyCustody.Crypto.Pem
import KeyCustody.Crypto.Rsa
/-!
# Files of RSA keys

A public key is kept in a file of the kind `PUBLIC KEY` and a private key in one of the kind
`PRIVATE KEY`, both of which name the algorithm in front of the numbers; a private key may also
come as the bare numbers, in a file of the kind `RSA PRIVATE KEY`.

## Main definitions

* `KeyFile.encodePublic`, `KeyFile.encodePrivate`: the files of a key.
* `KeyFile.readPublic?`, `KeyFile.readPrivate`: the key in a file.
* `KeyFile.loadCodec`: a codec from the files of its halves.
* `KeyFile.Pair`, `KeyFile.Pair.generate`: both files of a fresh key.
-/

namespace KeyCustody.Crypto.KeyFile

open Rsa (PublicKey PrivateKey Codec)

/-! ### Kinds of files -/

def publicLabel : String := "PUBLIC KEY"
def privateLabel : String := "PRIVATE KEY"
def barePrivateLabel : String := "RSA PRIVATE KEY"

/-- The words that tell a file of bare private numbers. -/
def bareMark : List Char := "BEGIN RSA".toList

/-- The name of the algorithm: the object identifier 1.2.840.113549.1.1.1 and the absent
parameters. -/
def algorithm : Bytes :=
  Der.encode Der.sequenceTag
    [0x06, 0x09, 0x2A, 0x86, 0x48, 0x86, 0xF7, 0x0D, 0x01, 0x01, 0x01, 0x05, 0x00]

/-! ### Writing -/

/-- The octets of a public key with the name of the algorithm. -/
def publicDer (k : PublicKey) : Bytes :=
  Der.encode Der.sequenceTag
    (algorithm ++ Der.encodeBits (Der.encodeNats [k.modulus, k.exponent]))

/-- The numbers of a private key: version, modulus, exponents, primes, and three numbers that
speed up decryption. -/
def privateNumbers (k : PrivateKey) : List Nat :=
  [0, k.modulus, k.publicExponent, k.privateExponent, k.prime1, k.prime2,
    k.privateExponent % (k.prime1 - 1), k.privateExponent % (k.prime2 - 1),
    (Modular.inverse? k.prime2 k.prime1).getD 0]

/-- The octets of a private key with the name of the algorithm. -/
def privateDer (k : PrivateKey) : Bytes :=
  Der.encode Der.sequenceTag
    (Der.encodeNat 0 ++ algorithm ++
      Der.encode Der.octetStringTag (Der.encodeNats (privateNumbers k)))

/-- The file of a public key. -/
def encodePublic (k : PublicKey) : String :=
  Pem.encode publicLabel (publicDer k)

/-- The file of a private key. -/
def encodePrivate (k : PrivateKey) : String :=
  Pem.encode privateLabel (privateDer k)

/-! ### Reading -/

/-- The octets after the name of the algorithm. -/
def afterAlgorithm? (bs : Bytes) : Option Bytes :=
  if algorithm.isPrefixOf bs then some (bs.drop algorithm.length) else none

/-- The public key of octets that name the algorithm. -/
def publicOfDer? (der : Bytes) : Option PublicKey := do
  let contents ← Der.expectWhole Der.sequenceTag der
  let contents ← afterAlgorithm? contents
  let bits ← Der.expectWhole Der.bitStringTag contents
  let numbers ← Der.expectWhole Der.sequenceTag (← Der.octetsOfBits bits)
  match ← Der.readNats 2 numbers with
  | ([n, e], []) =>
    let k : PublicKey := ⟨n, e⟩
    if k.isValid then some k else none
  | _ => none

/-- The private key of its bare numbers, before the check. The version must be zero, and the three
numbers that speed up decryption are not looked at. -/
def numbersOfDer? (der : Bytes) : Option PrivateKey := do
  let contents ← Der.expectWhole Der.sequenceTag der
  match ← Der.readNats 9 contents with
  | ([0, n, e, d, p, q, _, _, _], []) => some ⟨n, e, d, p, q⟩
  | _ => none

/-- The tag of the attributes and of the public key that may follow a private key. -/
def attributesTag : UInt8 := 0xA0
def attachedKeyTag : UInt8 := 0x81

/-- Whether the octets are elements with a context tag that hold one element each. -/
def areExtensions : (fuel : Nat) → Bytes → Bool
  | _, [] => true
  | 0, _ => false
  | fuel + 1, bs =>
    match Der.read bs with
    | some (tag, contents, rest) =>
      0xA0 ≤ tag && tag ≤ 0xBE && ((Der.read contents).any fun (_, _, r) => r.isEmpty) &&
        areExtensions fuel rest
    | none => false

/-- Whether what follows a private key fits the version: attributes may come first, the public key
is there exactly in version one, and extensions may come last. -/
def isFitTail (version : Nat) (bs : Bytes) : Bool :=
  let bs := match Der.read bs with
    | some (tag, _, rest) => if tag = attributesTag ∨ tag = 0x80 then rest else bs
    | none => bs
  match Der.read bs with
  | some (tag, contents, rest) =>
    if tag = attachedKeyTag then
      version == 1 && (Der.octetsOfBits contents).isSome && areExtensions rest.length rest
    else version == 0 && areExtensions bs.length bs
  | none => version == 0 && bs.isEmpty

/-- The private key of octets that name the algorithm, before the check. -/
def privateOfDer? (der : Bytes) : Option PrivateKey := do
  let contents ← Der.expectWhole Der.sequenceTag der
  let (version, contents) ← Der.readNat contents
  let contents ← afterAlgorithm? contents
  let (numbers, rest) ← Der.expect Der.octetStringTag contents
  if isFitTail version rest then numbersOfDer? numbers else none

/-- The public key in a file. -/
def readPublic? (text : String) : Option PublicKey := do
  publicOfDer? (← Pem.decode? publicLabel text)

/-- Whether the text has the words that tell bare private numbers. -/
def isBare (text : String) : Bool :=
  hasMark text.toList
where
  /-- Whether the mark occurs among the characters. -/
  hasMark : List Char → Bool
    | [] => false
    | c :: cs => bareMark.isPrefixOf (c :: cs) || hasMark cs

/-- The private key in a file of either kind. -/
def readPrivate (text : String) : Outcome CryptoError PrivateKey :=
  let key := if isBare text then (Pem.decode? barePrivateLabel text).bind numbersOfDer?
    else (Pem.decode? privateLabel text).bind privateOfDer?
  match key with
  | some k => k.check.mapFailure fun _ => .invalidPem
  | none => .failure .invalidPem

/-- The codec from the files of its halves. An empty text leaves its half out, but a private half
brings its public one along. -/
def loadCodec (publicText privateText : String) : Outcome CryptoError Codec := do
  let privateKey ←
    if privateText.isEmpty then pure none
    else some <$> readPrivate privateText
  if publicText.isEmpty then pure ⟨privateKey.map PrivateKey.toPublic, privateKey⟩
  else
    match readPublic? publicText with
    | some k => pure ⟨some k, privateKey⟩
    | none => .failure .invalidPem

/-! ### Fresh pairs -/

/-- The files of both halves of a key pair. -/
structure Pair where
  publicText : String
  privateText : String
  deriving DecidableEq, Repr

/-- The files of a private key. -/
def Pair.ofKey (k : PrivateKey) : Pair :=
  ⟨encodePublic k.toPublic, encodePrivate k⟩

/-- The files of a fresh key of `bits` bits. -/
def Pair.generate (bits : Nat) (r : Entropy) : Except CryptoError Pair × Entropy :=
  match Rsa.generate bits r with
  | (.ok k, r) => (.ok (.ofKey k), r)
  | (.error e, r) => (.error e, r)

end KeyCustody.Crypto.KeyFile
