import StupaWorkflow.PyText

/-!
`hashlib.sha256` and `hmac` over bytes. A word is a number below `2 ^ 32`; the
kernel computes the digests of short messages, so a test can name a real one.
-/
namespace Sha256

/-- The first 32 bits of the fractional parts of the cube roots of the first primes. -/
def roundConstants : List ℕ :=
  [0x428a2f98, 0x71374491, 0xb5c0fbcf, 0xe9b5dba5, 0x3956c25b, 0x59f111f1, 0x923f82a4, 0xab1c5ed5,
   0xd807aa98, 0x12835b01, 0x243185be, 0x550c7dc3, 0x72be5d74, 0x80deb1fe, 0x9bdc06a7, 0xc19bf174,
   0xe49b69c1, 0xefbe4786, 0x0fc19dc6, 0x240ca1cc, 0x2de92c6f, 0x4a7484aa, 0x5cb0a9dc, 0x76f988da,
   0x983e5152, 0xa831c66d, 0xb00327c8, 0xbf597fc7, 0xc6e00bf3, 0xd5a79147, 0x06ca6351, 0x14292967,
   0x27b70a85, 0x2e1b2138, 0x4d2c6dfc, 0x53380d13, 0x650a7354, 0x766a0abb, 0x81c2c92e, 0x92722c85,
   0xa2bfe8a1, 0xa81a664b, 0xc24b8b70, 0xc76c51a3, 0xd192e819, 0xd6990624, 0xf40e3585, 0x106aa070,
   0x19a4c116, 0x1e376c08, 0x2748774c, 0x34b0bcb5, 0x391c0cb3, 0x4ed8aa4a, 0x5b9cca4f, 0x682e6ff3,
   0x748f82ee, 0x78a5636f, 0x84c87814, 0x8cc70208, 0x90befffa, 0xa4506ceb, 0xbef9a3f7, 0xc67178f2]

structure Words where
  a : ℕ
  b : ℕ
  c : ℕ
  d : ℕ
  e : ℕ
  f : ℕ
  g : ℕ
  h : ℕ

def initial : Words :=
  ⟨0x6a09e667, 0xbb67ae85, 0x3c6ef372, 0xa54ff53a, 0x510e527f, 0x9b05688c, 0x1f83d9ab, 0x5be0cd19⟩

def add32 (x y : ℕ) : ℕ := (x + y) % 0x100000000

def rotr (x n : ℕ) : ℕ := (x >>> n) ||| (x <<< (32 - n)) % 0x100000000

def ch (x y z : ℕ) : ℕ := (x &&& y) ^^^ ((x ^^^ 0xffffffff) &&& z)

def maj (x y z : ℕ) : ℕ := (x &&& y) ^^^ (x &&& z) ^^^ (y &&& z)

def bigSigma0 (x : ℕ) : ℕ := rotr x 2 ^^^ rotr x 13 ^^^ rotr x 22
def bigSigma1 (x : ℕ) : ℕ := rotr x 6 ^^^ rotr x 11 ^^^ rotr x 25
def smallSigma0 (x : ℕ) : ℕ := rotr x 7 ^^^ rotr x 18 ^^^ (x >>> 3)
def smallSigma1 (x : ℕ) : ℕ := rotr x 17 ^^^ rotr x 19 ^^^ (x >>> 10)

def round (w : Words) (k x : ℕ) : Words :=
  let t₁ := (w.h + bigSigma1 w.e + ch w.e w.f w.g + k + x) % 0x100000000
  let t₂ := bigSigma0 w.a + maj w.a w.b w.c
  ⟨add32 t₁ t₂, w.a, w.b, w.c, add32 w.d t₁, w.e, w.f, w.g⟩

def rounds : List ℕ → List ℕ → Words → Words
  | k :: ks, x :: rest, w =>
    let next := (smallSigma1 (rest.getD 13 0) + rest.getD 8 0 + smallSigma0 (rest.getD 0 0) + x) % 0x100000000
    rounds ks (rest ++ [next]) (round w k x)
  | _, _, w => w

def addWords (u v : Words) : Words :=
  ⟨add32 u.a v.a, add32 u.b v.b, add32 u.c v.c, add32 u.d v.d,
   add32 u.e v.e, add32 u.f v.f, add32 u.g v.g, add32 u.h v.h⟩

def words : List ℕ → List ℕ
  | a :: b :: c :: d :: rest => (((a * 256 + b) * 256 + c) * 256 + d) :: words rest
  | _ => []

def compress : ℕ → List ℕ → Words → Words
  | 0, _, w => w
  | n + 1, bytes, w => compress n (bytes.drop 64) (addWords w (rounds roundConstants (words (bytes.take 64)) w))

/-- The number in `n` bytes, big end first. -/
def bigEndian : ℕ → ℕ → List ℕ
  | 0, _ => []
  | n + 1, x => bigEndian n (x / 256) ++ [x % 256]

def padding (bytes : List ℕ) : List ℕ :=
  bytes ++ 0x80 :: List.replicate ((119 - bytes.length % 64) % 64) 0 ++ bigEndian 8 (8 * bytes.length)

def digest (bytes : List ℕ) : List ℕ :=
  let padded := padding bytes
  let w := compress (padded.length / 64) padded initial
  [w.a, w.b, w.c, w.d, w.e, w.f, w.g, w.h].flatMap (bigEndian 4)

/-- `hmac.new(key, message, sha256).digest()`. -/
def hmac (key message : List ℕ) : List ℕ :=
  let short := if 64 < key.length then digest key else key
  let block := short ++ List.replicate (64 - short.length) 0
  digest (block.map (· ^^^ 0x5c) ++ digest (block.map (· ^^^ 0x36) ++ message))

def hexDigit (n : ℕ) : ℕ := if n < 10 then 48 + n else 87 + n

def hexdigest (bytes : List ℕ) : Py.Text := bytes.flatMap fun b => [hexDigit (b / 16), hexDigit (b % 16)]

end Sha256
