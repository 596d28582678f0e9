import Mathlib.Algebra.Ring.Nat
import Mathlib.Data.List.Range

/-!
# SHA-256

`sha256.New` with its sum in lower case hexadecimal digits. Words are natural numbers below
`2 ^ 32`.
-/
namespace Wire.Sha256

/-- Words are below this. -/
def modulus : Nat := 2 ^ 32

def rotr (x n : Nat) : Nat := (x >>> n) ||| ((x <<< (32 - n)) % modulus)

/-- The round constants. -/
def constants : List Nat := [
  0x428a2f98, 0x71374491, 0xb5c0fbcf, 0xe9b5dba5, 0x3956c25b, 0x59f111f1, 0x923f82a4, 0xab1c5ed5,
  0xd807aa98, 0x12835b01, 0x243185be, 0x550c7dc3, 0x72be5d74, 0x80deb1fe, 0x9bdc06a7, 0xc19bf174,
  0xe49b69c1, 0xefbe4786, 0x0fc19dc6, 0x240ca1cc, 0x2de92c6f, 0x4a7484aa, 0x5cb0a9dc, 0x76f988da,
  0x983e5152, 0xa831c66d, 0xb00327c8, 0xbf597fc7, 0xc6e00bf3, 0xd5a79147, 0x06ca6351, 0x14292967,
  0x27b70a85, 0x2e1b2138, 0x4d2c6dfc, 0x53380d13, 0x650a7354, 0x766a0abb, 0x81c2c92e, 0x92722c85,
  0xa2bfe8a1, 0xa81a664b, 0xc24b8b70, 0xc76c51a3, 0xd192e819, 0xd6990624, 0xf40e3585, 0x106aa070,
  0x19a4c116, 0x1e376c08, 0x2748774c, 0x34b0bcb5, 0x391c0cb3, 0x4ed8aa4a, 0x5b9cca4f, 0x682e6ff3,
  0x748f82ee, 0x78a5636f, 0x84c87814, 0x8cc70208, 0x90befffa, 0xa4506ceb, 0xbef9a3f7, 0xc67178f2]

structure State where
  a : Nat
  b : Nat
  c : Nat
  d : Nat
  e : Nat
  f : Nat
  g : Nat
  h : Nat

def State.start : State :=
  ⟨0x6a09e667, 0xbb67ae85, 0x3c6ef372, 0xa54ff53a, 0x510e527f, 0x9b05688c, 0x1f83d9ab, 0x5be0cd19⟩

def State.add (s t : State) : State :=
  ⟨(s.a + t.a) % modulus, (s.b + t.b) % modulus, (s.c + t.c) % modulus, (s.d + t.d) % modulus,
    (s.e + t.e) % modulus, (s.f + t.f) % modulus, (s.g + t.g) % modulus, (s.h + t.h) % modulus⟩

/-- One round, on the next sixteen words of the schedule. -/
def round (s : State × List Nat) (constant : Nat) : State × List Nat :=
  let (⟨a, b, c, d, e, f, g, h⟩, w) := s
  let word i := w.getD i 0
  let t₁ := h + (rotr e 6 ^^^ rotr e 11 ^^^ rotr e 25) + ((e &&& f) ^^^ ((modulus - 1 - e) &&& g)) +
    constant + word 0
  let t₂ := (rotr a 2 ^^^ rotr a 13 ^^^ rotr a 22) + ((a &&& b) ^^^ (a &&& c) ^^^ (b &&& c))
  let next := word 0 + (rotr (word 1) 7 ^^^ rotr (word 1) 18 ^^^ word 1 >>> 3) + word 9 +
    (rotr (word 14) 17 ^^^ rotr (word 14) 19 ^^^ word 14 >>> 10)
  (⟨(t₁ + t₂) % modulus, a, b, c, (d + t₁) % modulus, e, f, g⟩, w.tail ++ [next % modulus])

def compress (s : State) (block : List Nat) : State :=
  s.add (constants.foldl round (s, block)).1

def bigEndian (bytes : List UInt8) : Nat := bytes.foldl (fun n b => n * 256 + b.toNat) 0

/-- The first `count` groups of `size`. -/
def groups {α : Type} (size count : Nat) (xs : List α) : List (List α) :=
  (List.range count).map fun i => (xs.drop (i * size)).take size

/-- A one bit, zeros, and the length in bits in the last eight bytes of a block. -/
def pad (data : List UInt8) : List UInt8 :=
  data ++ 0x80 :: List.replicate ((119 - data.length % 64) % 64) 0 ++
    (List.range 8).reverse.map fun i => .ofNat (data.length * 8 / 256 ^ i % 256)

def blocks (data : List UInt8) : List (List Nat) :=
  let padded := pad data
  (groups 64 (padded.length / 64) padded).map fun block => (groups 4 16 block).map bigEndian

def hexDigit (n : Nat) : Char := "0123456789abcdef".toList.getD n '0'

def hexWord (w : Nat) : List Char := (List.range 8).reverse.map fun i => hexDigit (w / 16 ^ i % 16)

/-- `hex.EncodeToString(h.Sum(nil))` once `data` is written. -/
def hexSum (data : List UInt8) : String :=
  let s := (blocks data).foldl compress .start
  String.ofList ([s.a, s.b, s.c, s.d, s.e, s.f, s.g, s.h].flatMap hexWord)

/-- A digest is long enough to be cut into a key. -/
@[simp] theorem length_hexSum (data : List UInt8) : (hexSum data).length = 64 := by
  simp [hexSum, hexWord]

theorem hexSum_ne_empty (data : List UInt8) : hexSum data ≠ "" := by
  intro h
  have hlength := length_hexSum data
  rw [h] at hlength
  cases hlength

example : hexSum [97, 98, 99] =
    "ba7816bf8f01cfea414140de5dae2223b00361a396177a9cb410ff61f20015ad" := by decide +kernel

end Wire.Sha256
