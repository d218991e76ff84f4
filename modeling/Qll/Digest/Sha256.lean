import Qll.Bytes.BigEndian
import Qll.Files.Disk
import Qll.Text.Utf8

/-!
# SHA-256

The digest of a byte sequence: the sequence is padded to blocks of 64 bytes, and each block is
mixed into eight words in 64 rounds. Files are digested together.
-/

namespace Qll.Digest

/-- The first 32 bits of the fractional parts of the cube roots of the first 64 primes. -/
def roundConstants : List UInt32 :=
  [0x428a2f98, 0x71374491, 0xb5c0fbcf, 0xe9b5dba5, 0x3956c25b, 0x59f111f1, 0x923f82a4, 0xab1c5ed5,
    0xd807aa98, 0x12835b01, 0x243185be, 0x550c7dc3, 0x72be5d74, 0x80deb1fe, 0x9bdc06a7, 0xc19bf174,
    0xe49b69c1, 0xefbe4786, 0x0fc19dc6, 0x240ca1cc, 0x2de92c6f, 0x4a7484aa, 0x5cb0a9dc, 0x76f988da,
    0x983e5152, 0xa831c66d, 0xb00327c8, 0xbf597fc7, 0xc6e00bf3, 0xd5a79147, 0x06ca6351, 0x14292967,
    0x27b70a85, 0x2e1b2138, 0x4d2c6dfc, 0x53380d13, 0x650a7354, 0x766a0abb, 0x81c2c92e, 0x92722c85,
    0xa2bfe8a1, 0xa81a664b, 0xc24b8b70, 0xc76c51a3, 0xd192e819, 0xd6990624, 0xf40e3585, 0x106aa070,
    0x19a4c116, 0x1e376c08, 0x2748774c, 0x34b0bcb5, 0x391c0cb3, 0x4ed8aa4a, 0x5b9cca4f, 0x682e6ff3,
    0x748f82ee, 0x78a5636f, 0x84c87814, 0x8cc70208, 0x90befffa, 0xa4506ceb, 0xbef9a3f7, 0xc67178f2]

/-- The words under way. -/
structure Words where
  a : UInt32
  b : UInt32
  c : UInt32
  d : UInt32
  e : UInt32
  f : UInt32
  g : UInt32
  h : UInt32
  deriving DecidableEq, Inhabited

namespace Words

/-- The first 32 bits of the fractional parts of the square roots of the first eight primes. -/
def start : Words :=
  ⟨0x6a09e667, 0xbb67ae85, 0x3c6ef372, 0xa54ff53a, 0x510e527f, 0x9b05688c, 0x1f83d9ab, 0x5be0cd19⟩

/-- The words one by one. -/
def toList (w : Words) : List UInt32 := [w.a, w.b, w.c, w.d, w.e, w.f, w.g, w.h]

/-- Adds word by word. -/
def add (v w : Words) : Words :=
  ⟨v.a + w.a, v.b + w.b, v.c + w.c, v.d + w.d, v.e + w.e, v.f + w.f, v.g + w.g, v.h + w.h⟩

end Words

/-- Moves the bits of a word to the right by `n`; what falls out comes in again on the left. -/
def rotateRight (x : UInt32) (n : UInt32) : UInt32 := (x >>> n) ||| (x <<< (32 - n))

/-- One round: `k` is the constant of the round and `w` its word of the schedule. -/
def Words.round (s : Words) (k w : UInt32) : Words :=
  let sum1 := rotateRight s.e 6 ^^^ rotateRight s.e 11 ^^^ rotateRight s.e 25
  let choice := (s.e &&& s.f) ^^^ (~~~s.e &&& s.g)
  let first := s.h + sum1 + choice + k + w
  let sum0 := rotateRight s.a 2 ^^^ rotateRight s.a 13 ^^^ rotateRight s.a 22
  let majority := (s.a &&& s.b) ^^^ (s.a &&& s.c) ^^^ (s.b &&& s.c)
  ⟨first + (sum0 + majority), s.a, s.b, s.c, s.d + first, s.e, s.f, s.g⟩

/-- Appends `n` words to the schedule, each computed from four of the sixteen before it. -/
def extend : Nat → Array UInt32 → Array UInt32
  | 0, schedule => schedule
  | n + 1, schedule =>
    let back (k : Nat) : UInt32 := schedule.getD (schedule.size - k) 0
    let x := back 15
    let y := back 2
    let low := rotateRight x 7 ^^^ rotateRight x 18 ^^^ (x >>> 3)
    let high := rotateRight y 17 ^^^ rotateRight y 19 ^^^ (y >>> 10)
    extend n (schedule.push (back 16 + low + back 7 + high))

/-- The words of a block, highest byte first. -/
def wordsOf : List UInt8 → List UInt32
  | a :: b :: c :: d :: rest =>
    UInt32.ofNat (((a.toNat * 256 + b.toNat) * 256 + c.toNat) * 256 + d.toNat) :: wordsOf rest
  | _ => []

/-- Mixes a block into the words. -/
def Words.absorb (s : Words) (block : List UInt8) : Words :=
  let schedule := extend 48 (wordsOf block).toArray
  s.add ((roundConstants.zip schedule.toList).foldl (fun s (k, w) => s.round k w) s)

/-- Appends a one bit, zeros, and the length in bits as eight bytes, up to a multiple of 64
bytes. -/
def pad (bytes : List UInt8) : List UInt8 :=
  let n := bytes.length
  bytes ++ 0x80 :: List.replicate ((119 - n % 64) % 64) 0 ++ Bytes.bigEndian 8 (8 * n)

/-- Mixes the next `n` blocks into the words. -/
def absorbAll : Nat → List UInt8 → Words → Words
  | 0, _, s => s
  | n + 1, bytes, s => absorbAll n (bytes.drop 64) (s.absorb (bytes.take 64))

/-- The 32 bytes of the digest. -/
def sha256 (bytes : List UInt8) : List UInt8 :=
  let padded := pad bytes
  (absorbAll (padded.length / 64) padded .start).toList.flatMap fun w =>
    Bytes.bigEndian 4 w.toNat

/-! ## Digests of files

Several files have one digest. What is digested is, file by file, the path, a zero byte, the length
of the content in decimal digits, a zero byte, and the content, so that neither names nor contents
can run into each other.
-/

open Files (Disk FileError)

/-- What one file contributes. -/
def entry (path : List UInt8) (content : List UInt8) : List UInt8 :=
  path ++ 0 :: (Text.toBytes (Nat.repr content.length) ++ 0 :: content)

/-- What several files contribute, in their order. -/
def transcript (files : List (List UInt8 × List UInt8)) : List UInt8 :=
  files.flatMap fun (path, content) => entry path content

/-- A file that could not be digested. -/
structure DigestError where
  path : String
  error : FileError
  deriving DecidableEq, Inhabited

/-- The wording of a failure. -/
def DigestError.message (e : DigestError) : String := "hash " ++ e.path ++ ": " ++ e.error.message

variable {m : Type → Type} [Monad m] [Disk m]

/-- The paths and contents of files; the first one that cannot be read ends the work. -/
def contents : List String → m (Except DigestError (List (List UInt8 × List UInt8)))
  | [] => return .ok []
  | path :: rest => do
    match ← Disk.read path with
    | .error error => return .error { path, error }
    | .ok content =>
      match ← contents rest with
      | .error e => return .error e
      | .ok files => return .ok ((Text.toBytes path, content) :: files)

/-- The digest of some files. -/
def ofFiles (paths : List String) : m (Except DigestError (List UInt8)) :=
  return (← contents paths).map fun files => sha256 (transcript files)

end Qll.Digest
