import PluginGuard.Text.Numeral

/-!
# Digests

A checksum against damage and a digest that names content.

## CRC-32

The reflected polynomial checksum of archives, eight bits at a time by a table
of remainders.
-/
namespace PluginGuard.Digest.Crc32

def shiftBit (c : UInt32) : UInt32 :=
  if c &&& 1 == 1 then (0xEDB88320 : UInt32) ^^^ (c >>> 1) else c >>> 1

def remainder (n : Nat) : UInt32 :=
  (List.range 8).foldl (fun c _ => shiftBit c) (UInt32.ofNat n)

def table : Array UInt32 := ((List.range 256).map remainder).toArray

def update (c : UInt32) (b : UInt8) : UInt32 :=
  table.getD ((c ^^^ b.toUInt32) &&& 0xFF).toNat 0 ^^^ (c >>> 8)

def checksum (bytes : List UInt8) : UInt32 :=
  bytes.foldl update 0xFFFFFFFF ^^^ 0xFFFFFFFF

end PluginGuard.Digest.Crc32

/-!
## SHA-256

The message is padded to whole blocks of sixteen words; each block is extended to
sixty-four words by the schedule and mixed into the state of eight words.
-/
namespace PluginGuard.Digest.Sha256

def roundConstants : Array UInt32 := #[
  0x428a2f98, 0x71374491, 0xb5c0fbcf, 0xe9b5dba5, 0x3956c25b, 0x59f111f1, 0x923f82a4, 0xab1c5ed5,
  0xd807aa98, 0x12835b01, 0x243185be, 0x550c7dc3, 0x72be5d74, 0x80deb1fe, 0x9bdc06a7, 0xc19bf174,
  0xe49b69c1, 0xefbe4786, 0x0fc19dc6, 0x240ca1cc, 0x2de92c6f, 0x4a7484aa, 0x5cb0a9dc, 0x76f988da,
  0x983e5152, 0xa831c66d, 0xb00327c8, 0xbf597fc7, 0xc6e00bf3, 0xd5a79147, 0x06ca6351, 0x14292967,
  0x27b70a85, 0x2e1b2138, 0x4d2c6dfc, 0x53380d13, 0x650a7354, 0x766a0abb, 0x81c2c92e, 0x92722c85,
  0xa2bfe8a1, 0xa81a664b, 0xc24b8b70, 0xc76c51a3, 0xd192e819, 0xd6990624, 0xf40e3585, 0x106aa070,
  0x19a4c116, 0x1e376c08, 0x2748774c, 0x34b0bcb5, 0x391c0cb3, 0x4ed8aa4a, 0x5b9cca4f, 0x682e6ff3,
  0x748f82ee, 0x78a5636f, 0x84c87814, 0x8cc70208, 0x90befffa, 0xa4506ceb, 0xbef9a3f7, 0xc67178f2]

structure State where
  a : UInt32
  b : UInt32
  c : UInt32
  d : UInt32
  e : UInt32
  f : UInt32
  g : UInt32
  h : UInt32

def initial : State :=
  ⟨0x6a09e667, 0xbb67ae85, 0x3c6ef372, 0xa54ff53a, 0x510e527f, 0x9b05688c, 0x1f83d9ab, 0x5be0cd19⟩

def rotate (x : UInt32) (n : UInt32) : UInt32 := (x >>> n) ||| (x <<< (32 - n))

def extend (w : Array UInt32) (i : Nat) : Array UInt32 :=
  let x := w.getD (i + 1) 0
  let y := w.getD (i + 14) 0
  let s0 := rotate x 7 ^^^ rotate x 18 ^^^ (x >>> 3)
  let s1 := rotate y 17 ^^^ rotate y 19 ^^^ (y >>> 10)
  w.push (w.getD i 0 + s0 + w.getD (i + 9) 0 + s1)

def schedule (block : Array UInt32) : Array UInt32 := (List.range 48).foldl extend block

def mix (w : Array UInt32) (s : State) (i : Nat) : State :=
  let s1 := rotate s.e 6 ^^^ rotate s.e 11 ^^^ rotate s.e 25
  let choice := (s.e &&& s.f) ^^^ (~~~s.e &&& s.g)
  let t1 := s.h + s1 + choice + roundConstants.getD i 0 + w.getD i 0
  let s0 := rotate s.a 2 ^^^ rotate s.a 13 ^^^ rotate s.a 22
  let majority := (s.a &&& s.b) ^^^ (s.a &&& s.c) ^^^ (s.b &&& s.c)
  ⟨t1 + (s0 + majority), s.a, s.b, s.c, s.d + t1, s.e, s.f, s.g⟩

def compress (s : State) (block : Array UInt32) : State :=
  let t := (List.range 64).foldl (mix (schedule block)) s
  ⟨s.a + t.a, s.b + t.b, s.c + t.c, s.d + t.d, s.e + t.e, s.f + t.f, s.g + t.g, s.h + t.h⟩

def bytesOf (w : UInt32) : List UInt8 :=
  [(w >>> 24).toUInt8, (w >>> 16).toUInt8, (w >>> 8).toUInt8, w.toUInt8]

/-- One bit, then zeros, then the length in bits in the last eight bytes. -/
def pad (bytes : List UInt8) : List UInt8 :=
  let n := bytes.length
  let bits := n * 8
  bytes ++ 0x80 :: List.replicate ((119 - n % 64) % 64) 0 ++
    bytesOf (UInt32.ofNat (bits / 4294967296)) ++ bytesOf (UInt32.ofNat bits)

def wordsInto (acc : List UInt32) : List UInt8 → List UInt32
  | a :: b :: c :: d :: rest =>
    wordsInto (((a.toUInt32 <<< 24) ||| (b.toUInt32 <<< 16) ||| (c.toUInt32 <<< 8) |||
      d.toUInt32) :: acc) rest
  | _ => acc.reverse

/-- Words gather in a block; a full block is mixed in. -/
def absorb (st : State × Array UInt32) (w : UInt32) : State × Array UInt32 :=
  let block := st.2.push w
  if block.size = 16 then (compress st.1 block, #[]) else (st.1, block)

def digest (bytes : List UInt8) : List UInt8 :=
  let s := ((wordsInto [] (pad bytes)).foldl absorb (initial, #[])).1
  [s.a, s.b, s.c, s.d, s.e, s.f, s.g, s.h].flatMap bytesOf

def hex (bytes : List UInt8) : String := Text.Hex.encode (digest bytes)

end PluginGuard.Digest.Sha256
