import CoinWire.Bytes

/-!
SHA-256, and its double application that names transactions.

A message is padded to whole blocks of 64 bytes, and each block is mixed into a state of eight words. The
digest is that state, most significant byte first, so it has 32 bytes whatever the message.
-/

namespace CoinWire.Hash

structure State where
  a : UInt32
  b : UInt32
  c : UInt32
  d : UInt32
  e : UInt32
  f : UInt32
  g : UInt32
  h : UInt32
  deriving DecidableEq, Repr

def initial : State :=
  ⟨0x6a09e667, 0xbb67ae85, 0x3c6ef372, 0xa54ff53a, 0x510e527f, 0x9b05688c, 0x1f83d9ab, 0x5be0cd19⟩

def constants : List UInt32 :=
  [0x428a2f98, 0x71374491, 0xb5c0fbcf, 0xe9b5dba5, 0x3956c25b, 0x59f111f1, 0x923f82a4, 0xab1c5ed5,
    0xd807aa98, 0x12835b01, 0x243185be, 0x550c7dc3, 0x72be5d74, 0x80deb1fe, 0x9bdc06a7, 0xc19bf174,
    0xe49b69c1, 0xefbe4786, 0x0fc19dc6, 0x240ca1cc, 0x2de92c6f, 0x4a7484aa, 0x5cb0a9dc, 0x76f988da,
    0x983e5152, 0xa831c66d, 0xb00327c8, 0xbf597fc7, 0xc6e00bf3, 0xd5a79147, 0x06ca6351, 0x14292967,
    0x27b70a85, 0x2e1b2138, 0x4d2c6dfc, 0x53380d13, 0x650a7354, 0x766a0abb, 0x81c2c92e, 0x92722c85,
    0xa2bfe8a1, 0xa81a664b, 0xc24b8b70, 0xc76c51a3, 0xd192e819, 0xd6990624, 0xf40e3585, 0x106aa070,
    0x19a4c116, 0x1e376c08, 0x2748774c, 0x34b0bcb5, 0x391c0cb3, 0x4ed8aa4a, 0x5b9cca4f, 0x682e6ff3,
    0x748f82ee, 0x78a5636f, 0x84c87814, 0x8cc70208, 0x90befffa, 0xa4506ceb, 0xbef9a3f7, 0xc67178f2]

def rotate (x n : UInt32) : UInt32 := (x >>> n) ||| (x <<< (32 - n))

def State.add (s t : State) : State :=
  ⟨s.a + t.a, s.b + t.b, s.c + t.c, s.d + t.d, s.e + t.e, s.f + t.f, s.g + t.g, s.h + t.h⟩

def State.words (s : State) : List UInt32 := [s.a, s.b, s.c, s.d, s.e, s.f, s.g, s.h]

def State.round (s : State) (kw : UInt32 × UInt32) : State :=
  let choice := (s.e &&& s.f) ^^^ (~~~ s.e &&& s.g)
  let majority := (s.a &&& s.b) ^^^ (s.a &&& s.c) ^^^ (s.b &&& s.c)
  let high := rotate s.a 2 ^^^ rotate s.a 13 ^^^ rotate s.a 22
  let low := rotate s.e 6 ^^^ rotate s.e 11 ^^^ rotate s.e 25
  let t := s.h + low + choice + kw.1 + kw.2
  ⟨t + (high + majority), s.a, s.b, s.c, s.d + t, s.e, s.f, s.g⟩

def nextWord (ws : List UInt32) : UInt32 :=
  let x := ws.getD 14 0
  let y := ws.getD 1 0
  let low := rotate x 7 ^^^ rotate x 18 ^^^ (x >>> 3)
  let high := rotate y 17 ^^^ rotate y 19 ^^^ (y >>> 10)
  high + ws.getD 6 0 + low + ws.getD 15 0

def extend : Nat → List UInt32 → List UInt32
  | 0, ws => ws
  | n + 1, ws => extend n (nextWord ws :: ws)

def wordsOf : Bytes → List UInt32
  | a :: b :: c :: d :: rest =>
    ((a.toUInt32 <<< 24) ||| (b.toUInt32 <<< 16) ||| (c.toUInt32 <<< 8) ||| d.toUInt32) ::
      wordsOf rest
  | _ => []

def bytesOf (w : UInt32) : Bytes :=
  [(w >>> 24).toUInt8, (w >>> 16).toUInt8, (w >>> 8).toUInt8, w.toUInt8]

def compress (s : State) (block : Bytes) : State :=
  let schedule := (extend 48 (wordsOf block).reverse).reverse
  s.add ((constants.zip schedule).foldl State.round s)

/-- Mixes the stated number of blocks of 64 bytes into a state. -/
def absorb : Nat → State → Bytes → State
  | 0, s, _ => s
  | n + 1, s, message => absorb n (compress s (message.take 64)) (message.drop 64)

/-- The message, a single one bit, zeros, and the length in bits as a number of eight bytes. -/
def pad (message : Bytes) : Bytes :=
  message ++ 0x80 :: (List.replicate ((119 - message.length % 64) % 64) 0 ++
    (toLittle 8 (8 * message.length)).reverse)

def sha256 (message : Bytes) : Bytes :=
  let padded := pad message
  (absorb (padded.length / 64) initial padded).words.flatMap bytesOf

def hash256 (message : Bytes) : Bytes := sha256 (sha256 message)

theorem length_pad (message : Bytes) : (pad message).length % 64 = 0 := by
  simp only [pad, List.length_append, List.length_cons, List.length_replicate,
    List.length_reverse, length_toLittle]
  omega

theorem length_sha256 (message : Bytes) : (sha256 message).length = 32 := by
  simp [sha256, State.words, bytesOf]

theorem length_hash256 (message : Bytes) : (hash256 message).length = 32 :=
  length_sha256 _

end CoinWire.Hash
