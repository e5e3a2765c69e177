import WasmAgent.Core.Reading

/-!
# SHA-256

The digest of a list of bytes, over words as natural numbers below `2 ^ 32`.
-/

namespace WasmAgent.Core.Sha256

open List

def wordBound : ℕ := 0x100000000

def rotateRight (count word : ℕ) : ℕ := (word >>> count) ||| ((word <<< (32 - count)) % wordBound)

def constants : List ℕ :=
  [0x428a2f98, 0x71374491, 0xb5c0fbcf, 0xe9b5dba5, 0x3956c25b, 0x59f111f1, 0x923f82a4, 0xab1c5ed5,
    0xd807aa98, 0x12835b01, 0x243185be, 0x550c7dc3, 0x72be5d74, 0x80deb1fe, 0x9bdc06a7, 0xc19bf174,
    0xe49b69c1, 0xefbe4786, 0x0fc19dc6, 0x240ca1cc, 0x2de92c6f, 0x4a7484aa, 0x5cb0a9dc, 0x76f988da,
    0x983e5152, 0xa831c66d, 0xb00327c8, 0xbf597fc7, 0xc6e00bf3, 0xd5a79147, 0x06ca6351, 0x14292967,
    0x27b70a85, 0x2e1b2138, 0x4d2c6dfc, 0x53380d13, 0x650a7354, 0x766a0abb, 0x81c2c92e, 0x92722c85,
    0xa2bfe8a1, 0xa81a664b, 0xc24b8b70, 0xc76c51a3, 0xd192e819, 0xd6990624, 0xf40e3585, 0x106aa070,
    0x19a4c116, 0x1e376c08, 0x2748774c, 0x34b0bcb5, 0x391c0cb3, 0x4ed8aa4a, 0x5b9cca4f, 0x682e6ff3,
    0x748f82ee, 0x78a5636f, 0x84c87814, 0x8cc70208, 0x90befffa, 0xa4506ceb, 0xbef9a3f7, 0xc67178f2]

/-- The eight words that a block works on. -/
structure State where
  a : ℕ
  b : ℕ
  c : ℕ
  d : ℕ
  e : ℕ
  f : ℕ
  g : ℕ
  h : ℕ

def start : State :=
  ⟨0x6a09e667, 0xbb67ae85, 0x3c6ef372, 0xa54ff53a, 0x510e527f, 0x9b05688c, 0x1f83d9ab, 0x5be0cd19⟩

def schedule : ℕ → List ℕ → List ℕ
  | 0, words => words
  | rounds + 1, words =>
      let fifteen := words.getD 14 0
      let two := words.getD 1 0
      let small := rotateRight 7 fifteen ^^^ rotateRight 18 fifteen ^^^ (fifteen >>> 3)
      let large := rotateRight 17 two ^^^ rotateRight 19 two ^^^ (two >>> 10)
      schedule rounds ((words.getD 15 0 + small + words.getD 6 0 + large) % wordBound :: words)

def round (state : State) (constant word : ℕ) : State :=
  let large := rotateRight 6 state.e ^^^ rotateRight 11 state.e ^^^ rotateRight 25 state.e
  let choice := (state.e &&& state.f) ^^^ ((wordBound - 1 - state.e) &&& state.g)
  let first := state.h + large + choice + constant + word
  let small := rotateRight 2 state.a ^^^ rotateRight 13 state.a ^^^ rotateRight 22 state.a
  let majority := (state.a &&& state.b) ^^^ (state.a &&& state.c) ^^^ (state.b &&& state.c)
  ⟨(first + small + majority) % wordBound, state.a, state.b, state.c,
    (state.d + first) % wordBound, state.e, state.f, state.g⟩

def rounds : List ℕ → List ℕ → State → State
  | constant :: constants, word :: words, state => rounds constants words (round state constant word)
  | _, _, state => state

/-- Bytes as big-endian words. -/
def toWords : List UInt8 → List ℕ
  | first :: second :: third :: fourth :: rest =>
      (((first.toNat * 256 + second.toNat) * 256 + third.toNat) * 256 + fourth.toNat) ::
        toWords rest
  | _ => []

def compress (state : State) (block : List UInt8) : State :=
  let mixed := rounds constants (schedule 48 (toWords block).reverse).reverse state
  ⟨(state.a + mixed.a) % wordBound, (state.b + mixed.b) % wordBound,
    (state.c + mixed.c) % wordBound, (state.d + mixed.d) % wordBound,
    (state.e + mixed.e) % wordBound, (state.f + mixed.f) % wordBound,
    (state.g + mixed.g) % wordBound, (state.h + mixed.h) % wordBound⟩

/-- The text, a one bit, and zeros up to its length in bits. -/
def pad (bytes : List UInt8) : List UInt8 :=
  bytes ++ 0x80 :: List.replicate ((119 - bytes.length % 64) % 64) 0 ++
    bigEndian 8 (bytes.length * 8)

def blocks : ℕ → List UInt8 → State → State
  | 0, _, state => state
  | count + 1, bytes, state => blocks count (bytes.drop 64) (compress state (bytes.take 64))

/-- `Sha256::digest`. -/
def digest (bytes : List UInt8) : List UInt8 :=
  let padded := pad bytes
  let final := blocks (padded.length / 64) padded start
  [final.a, final.b, final.c, final.d, final.e, final.f, final.g, final.h].flatMap (bigEndian 4)

theorem digest_length (bytes : List UInt8) : (digest bytes).length = 32 := by
  simp [digest, flatMap_nil, bigEndian_length]

end WasmAgent.Core.Sha256
