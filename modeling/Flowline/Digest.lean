/-!
Digests of texts by the name of the method: MD5, SHA-1, SHA-256 and SHA-224.
-/

/-! ## Blocks

Messages are padded to whole blocks of 64 bytes, with the length in bits at the end, and are read as words of
32 bits. -/

namespace Flowline.Digest

/-- The order of the bytes of a word. -/
inductive ByteOrder
  | little | big
deriving Repr, DecidableEq

def lowBytes (size n : Nat) : List UInt8 :=
  (List.range size).map fun i => UInt8.ofNat (n / Nat.pow 256 i)

def bytesOf (order : ByteOrder) (size n : Nat) : List UInt8 :=
  match order with
  | .little => lowBytes size n
  | .big => (lowBytes size n).reverse

def wordOf (order : ByteOrder) (bytes : List UInt8) : UInt32 :=
  let ordered := match order with
    | .little => bytes.reverse
    | .big => bytes
  ordered.foldl (fun w b => (w <<< 8) ||| b.toUInt32) 0

/-- A message followed by a mark, zeros up to a whole block and its length in bits. -/
def padded (order : ByteOrder) (message : List UInt8) : List UInt8 :=
  let zeros := (119 - message.length % 64) % 64
  message ++ 0x80 :: List.replicate zeros 0 ++ bytesOf order 8 (8 * message.length)

def chunks (size : Nat) (xs : List α) : List (List α) :=
  if _h : xs = [] ∨ size = 0 then []
  else xs.take size :: chunks size (xs.drop size)
termination_by xs.length
decreasing_by
  simp only [not_or] at _h
  have := List.length_pos_iff.2 _h.1
  simp only [List.length_drop]
  omega

/-- The blocks of a message as arrays of sixteen words. -/
def blocks (order : ByteOrder) (message : List UInt8) : List (Array UInt32) :=
  (chunks 64 (padded order message)).map fun block => ((chunks 4 block).map (wordOf order)).toArray

def rotateLeft (w : UInt32) (n : UInt32) : UInt32 := (w <<< n) ||| (w >>> (32 - n))

def rotateRight (w : UInt32) (n : UInt32) : UInt32 := (w >>> n) ||| (w <<< (32 - n))

/-- Words as digits in base sixteen, each word's bytes in an order. -/
def hexText (order : ByteOrder) (words : List UInt32) : String :=
  let digits (b : UInt8) : List Char :=
    [Nat.digitChar (b.toNat / 16), Nat.digitChar (b.toNat % 16)]
  String.ofList (words.flatMap fun w => (bytesOf order 4 w.toNat).flatMap digits)

end Flowline.Digest

/-! ## MD5 -/

namespace Flowline.Digest.Md5

def constants : Array UInt32 := #[
  0xd76aa478, 0xe8c7b756, 0x242070db, 0xc1bdceee, 0xf57c0faf, 0x4787c62a, 0xa8304613, 0xfd469501,
  0x698098d8, 0x8b44f7af, 0xffff5bb1, 0x895cd7be, 0x6b901122, 0xfd987193, 0xa679438e, 0x49b40821,
  0xf61e2562, 0xc040b340, 0x265e5a51, 0xe9b6c7aa, 0xd62f105d, 0x02441453, 0xd8a1e681, 0xe7d3fbc8,
  0x21e1cde6, 0xc33707d6, 0xf4d50d87, 0x455a14ed, 0xa9e3e905, 0xfcefa3f8, 0x676f02d9, 0x8d2a4c8a,
  0xfffa3942, 0x8771f681, 0x6d9d6122, 0xfde5380c, 0xa4beea44, 0x4bdecfa9, 0xf6bb4b60, 0xbebfbc70,
  0x289b7ec6, 0xeaa127fa, 0xd4ef3085, 0x04881d05, 0xd9d4d039, 0xe6db99e5, 0x1fa27cf8, 0xc4ac5665,
  0xf4292244, 0x432aff97, 0xab9423a7, 0xfc93a039, 0x655b59c3, 0x8f0ccc92, 0xffeff47d, 0x85845dd1,
  0x6fa87e4f, 0xfe2ce6e0, 0xa3014314, 0x4e0811a1, 0xf7537e82, 0xbd3af235, 0x2ad7d2bb, 0xeb86d391
]

/-- How far each step of a round of sixteen rotates. -/
def shifts : Array (Array UInt32) := #[
  #[7, 12, 17, 22], #[5, 9, 14, 20], #[4, 11, 16, 23], #[6, 10, 15, 21]]

/-- The four words that a block changes. -/
structure State where
  a : UInt32
  b : UInt32
  c : UInt32
  d : UInt32

def initial : State := ⟨0x67452301, 0xefcdab89, 0x98badcfe, 0x10325476⟩

def step (block : Array UInt32) (s : State) (i : Nat) : State :=
  let (f, g) :=
    if i < 16 then ((s.b &&& s.c) ||| (~~~s.b &&& s.d), i)
    else if i < 32 then ((s.d &&& s.b) ||| (~~~s.d &&& s.c), (5 * i + 1) % 16)
    else if i < 48 then (s.b ^^^ s.c ^^^ s.d, (3 * i + 5) % 16)
    else (s.c ^^^ (s.b ||| ~~~s.d), (7 * i) % 16)
  let sum := s.a + f + constants.getD i 0 + block.getD g 0
  let shift := (shifts.getD (i / 16) #[]).getD (i % 4) 0
  ⟨s.d, s.b + rotateLeft sum shift, s.b, s.c⟩

def absorb (s : State) (block : Array UInt32) : State :=
  let t := (List.range 64).foldl (step block) s
  ⟨s.a + t.a, s.b + t.b, s.c + t.c, s.d + t.d⟩

def hex (message : List UInt8) : String :=
  let s := (blocks .little message).foldl absorb initial
  hexText .little [s.a, s.b, s.c, s.d]

end Flowline.Digest.Md5

/-! ## SHA-1 -/

namespace Flowline.Digest.Sha1

/-- The five words that a block changes. -/
structure State where
  a : UInt32
  b : UInt32
  c : UInt32
  d : UInt32
  e : UInt32

def initial : State := ⟨0x67452301, 0xefcdab89, 0x98badcfe, 0x10325476, 0xc3d2e1f0⟩

/-- The eighty words made of the sixteen of a block. -/
def schedule (block : Array UInt32) : Array UInt32 :=
  (List.range 64).foldl (fun ws i =>
    let word (back : Nat) := ws.getD (i + 16 - back) 0
    ws.push (rotateLeft (word 3 ^^^ word 8 ^^^ word 14 ^^^ word 16) 1)) block

def step (words : Array UInt32) (s : State) (i : Nat) : State :=
  let (f, k) : UInt32 × UInt32 :=
    if i < 20 then ((s.b &&& s.c) ||| (~~~s.b &&& s.d), 0x5a827999)
    else if i < 40 then (s.b ^^^ s.c ^^^ s.d, 0x6ed9eba1)
    else if i < 60 then ((s.b &&& s.c) ||| (s.b &&& s.d) ||| (s.c &&& s.d), 0x8f1bbcdc)
    else (s.b ^^^ s.c ^^^ s.d, 0xca62c1d6)
  ⟨rotateLeft s.a 5 + f + s.e + k + words.getD i 0, s.a, rotateLeft s.b 30, s.c, s.d⟩

def absorb (s : State) (block : Array UInt32) : State :=
  let t := (List.range 80).foldl (step (schedule block)) s
  ⟨s.a + t.a, s.b + t.b, s.c + t.c, s.d + t.d, s.e + t.e⟩

def hex (message : List UInt8) : String :=
  let s := (blocks .big message).foldl absorb initial
  hexText .big [s.a, s.b, s.c, s.d, s.e]

end Flowline.Digest.Sha1

/-! ## SHA-256, and SHA-224, which starts elsewhere and drops the last word -/

namespace Flowline.Digest.Sha256

def constants : Array UInt32 := #[
  0x428a2f98, 0x71374491, 0xb5c0fbcf, 0xe9b5dba5, 0x3956c25b, 0x59f111f1, 0x923f82a4, 0xab1c5ed5,
  0xd807aa98, 0x12835b01, 0x243185be, 0x550c7dc3, 0x72be5d74, 0x80deb1fe, 0x9bdc06a7, 0xc19bf174,
  0xe49b69c1, 0xefbe4786, 0x0fc19dc6, 0x240ca1cc, 0x2de92c6f, 0x4a7484aa, 0x5cb0a9dc, 0x76f988da,
  0x983e5152, 0xa831c66d, 0xb00327c8, 0xbf597fc7, 0xc6e00bf3, 0xd5a79147, 0x06ca6351, 0x14292967,
  0x27b70a85, 0x2e1b2138, 0x4d2c6dfc, 0x53380d13, 0x650a7354, 0x766a0abb, 0x81c2c92e, 0x92722c85,
  0xa2bfe8a1, 0xa81a664b, 0xc24b8b70, 0xc76c51a3, 0xd192e819, 0xd6990624, 0xf40e3585, 0x106aa070,
  0x19a4c116, 0x1e376c08, 0x2748774c, 0x34b0bcb5, 0x391c0cb3, 0x4ed8aa4a, 0x5b9cca4f, 0x682e6ff3,
  0x748f82ee, 0x78a5636f, 0x84c87814, 0x8cc70208, 0x90befffa, 0xa4506ceb, 0xbef9a3f7, 0xc67178f2
]

/-- The eight words that a block changes. -/
structure State where
  a : UInt32
  b : UInt32
  c : UInt32
  d : UInt32
  e : UInt32
  f : UInt32
  g : UInt32
  h : UInt32

def initial : State :=
  ⟨0x6a09e667, 0xbb67ae85, 0x3c6ef372, 0xa54ff53a,
    0x510e527f, 0x9b05688c, 0x1f83d9ab, 0x5be0cd19⟩

def initialShort : State :=
  ⟨0xc1059ed8, 0x367cd507, 0x3070dd17, 0xf70e5939, 0xffc00b31, 0x68581511, 0x64f98fa7, 0xbefa4fa4⟩

def schedule (block : Array UInt32) : Array UInt32 :=
  (List.range 48).foldl (fun ws i =>
    let word (back : Nat) := ws.getD (i + 16 - back) 0
    let s0 := rotateRight (word 15) 7 ^^^ rotateRight (word 15) 18 ^^^ (word 15 >>> 3)
    let s1 := rotateRight (word 2) 17 ^^^ rotateRight (word 2) 19 ^^^ (word 2 >>> 10)
    ws.push (word 16 + s0 + word 7 + s1)) block

def step (words : Array UInt32) (s : State) (i : Nat) : State :=
  let s1 := rotateRight s.e 6 ^^^ rotateRight s.e 11 ^^^ rotateRight s.e 25
  let choice := (s.e &&& s.f) ^^^ (~~~s.e &&& s.g)
  let t1 := s.h + s1 + choice + constants.getD i 0 + words.getD i 0
  let s0 := rotateRight s.a 2 ^^^ rotateRight s.a 13 ^^^ rotateRight s.a 22
  let majority := (s.a &&& s.b) ^^^ (s.a &&& s.c) ^^^ (s.b &&& s.c)
  ⟨t1 + s0 + majority, s.a, s.b, s.c, s.d + t1, s.e, s.f, s.g⟩

def absorb (s : State) (block : Array UInt32) : State :=
  let t := (List.range 64).foldl (step (schedule block)) s
  ⟨s.a + t.a, s.b + t.b, s.c + t.c, s.d + t.d, s.e + t.e, s.f + t.f, s.g + t.g, s.h + t.h⟩

def State.words (s : State) : List UInt32 := [s.a, s.b, s.c, s.d, s.e, s.f, s.g, s.h]

def hex (message : List UInt8) : String :=
  hexText .big ((blocks .big message).foldl absorb initial).words

/-- The short digest of a message in base sixteen. -/
def hexShort (message : List UInt8) : String :=
  hexText .big (((blocks .big message).foldl absorb initialShort).words.take 7)

end Flowline.Digest.Sha256

/-! ## Names of methods -/

namespace Flowline.Digest

/-- The digest of a text in base sixteen, if the method has a known name; case does not matter. -/
def hex? (method text : String) : Option String :=
  let bytes := text.toUTF8.toList
  match method.toLower with
  | "md5" => some (Md5.hex bytes)
  | "sha1" | "sha-1" => some (Sha1.hex bytes)
  | "sha224" | "sha-224" | "sha2-224" => some (Sha256.hexShort bytes)
  | "sha256" | "sha-256" | "sha2-256" => some (Sha256.hex bytes)
  | _ => none

end Flowline.Digest
