import PgKronika.Digest

/-! SHA-256, the digest behind every identity and token. -/
namespace PgKronika
namespace Sha256

open ByteCodec

abbrev Word := BitVec 32

def roundConstants : List Word :=
  [0x428a2f98,0x71374491,0xb5c0fbcf,0xe9b5dba5,0x3956c25b,0x59f111f1,
   0x923f82a4,0xab1c5ed5,0xd807aa98,0x12835b01,0x243185be,0x550c7dc3,
   0x72be5d74,0x80deb1fe,0x9bdc06a7,0xc19bf174,0xe49b69c1,0xefbe4786,
   0x0fc19dc6,0x240ca1cc,0x2de92c6f,0x4a7484aa,0x5cb0a9dc,0x76f988da,
   0x983e5152,0xa831c66d,0xb00327c8,0xbf597fc7,0xc6e00bf3,0xd5a79147,
   0x06ca6351,0x14292967,0x27b70a85,0x2e1b2138,0x4d2c6dfc,0x53380d13,
   0x650a7354,0x766a0abb,0x81c2c92e,0x92722c85,0xa2bfe8a1,0xa81a664b,
   0xc24b8b70,0xc76c51a3,0xd192e819,0xd6990624,0xf40e3585,0x106aa070,
   0x19a4c116,0x1e376c08,0x2748774c,0x34b0bcb5,0x391c0cb3,0x4ed8aa4a,
   0x5b9cca4f,0x682e6ff3,0x748f82ee,0x78a5636f,0x84c87814,0x8cc70208,
   0x90befffa,0xa4506ceb,0xbef9a3f7,0xc67178f2]

/-- The working variables. -/
structure Registers where
  a : Word
  b : Word
  c : Word
  d : Word
  e : Word
  f : Word
  g : Word
  h : Word
  deriving DecidableEq

def initial : Registers :=
  ⟨0x6a09e667,0xbb67ae85,0x3c6ef372,0xa54ff53a,0x510e527f,0x9b05688c,0x1f83d9ab,0x5be0cd19⟩

def Registers.words (s : Registers) : List Word := [s.a,s.b,s.c,s.d,s.e,s.f,s.g,s.h]

def Registers.add (s t : Registers) : Registers :=
  ⟨s.a+t.a,s.b+t.b,s.c+t.c,s.d+t.d,s.e+t.e,s.f+t.f,s.g+t.g,s.h+t.h⟩

/-- The message schedule, latest word first. -/
def extend : ℕ → List Word → List Word
  | 0,w => w
  | n+1,w =>
    let x := w.getD 1 0
    let y := w.getD 14 0
    let s0 := y.rotateRight 7 ^^^ y.rotateRight 18 ^^^ y >>> 3
    let s1 := x.rotateRight 17 ^^^ x.rotateRight 19 ^^^ x >>> 10
    extend n ((w.getD 15 0+s0+w.getD 6 0+s1)::w)

def round (s : Registers) (constant word : Word) : Registers :=
  let s1 := s.e.rotateRight 6 ^^^ s.e.rotateRight 11 ^^^ s.e.rotateRight 25
  let choice := (s.e &&& s.f) ^^^ (~~~s.e &&& s.g)
  let t1 := s.h+s1+choice+constant+word
  let s0 := s.a.rotateRight 2 ^^^ s.a.rotateRight 13 ^^^ s.a.rotateRight 22
  let majority := (s.a &&& s.b) ^^^ (s.a &&& s.c) ^^^ (s.b &&& s.c)
  ⟨t1+s0+majority,s.a,s.b,s.c,s.d+t1,s.e,s.f,s.g⟩

def compress (s : Registers) (block : List Word) : Registers :=
  s.add ((roundConstants.zip (extend 48 block.reverse).reverse).foldl
    (fun s kw => round s kw.1 kw.2) s)

def wordOf (b : Bytes) : Word := BitVec.ofNat 32 (leNat b.reverse)

def chunks (size : ℕ) : ℕ → Bytes → List Bytes
  | 0,_ => []
  | n+1,b => b.take size :: chunks size n (b.drop size)

/-- A one bit, zeros up to the last eight bytes of a block, and the length in bits. -/
def pad (b : Bytes) : Bytes :=
  b ++ 0x80 :: List.replicate ((119-b.length%64)%64) 0 ++ (leBytes 8 (8*b.length)).reverse

/-- The padded message is whole blocks. -/
theorem pad_length (b : Bytes) : (pad b).length % 64 = 0 := by
  rw [pad,List.length_append,List.length_append,List.length_cons,List.length_replicate,
    List.length_reverse,leBytes_length]
  omega

def sha256 (b : Bytes) : Digest :=
  let padded := pad b
  let blocks := (chunks 64 (padded.length/64) padded).map fun block =>
    (chunks 4 16 block).map wordOf
  let bytes := (blocks.foldl compress initial).words.flatMap fun word =>
    (leBytes 4 word.toNat).reverse
  ⟨Vector.ofFn fun i => bytes.getD i 0⟩

/-- The published digest of "abc". -/
example : (sha256 [0x61,0x62,0x63]).asBytes =
    [0xba,0x78,0x16,0xbf,0x8f,0x01,0xcf,0xea,0x41,0x41,0x40,0xde,0x5d,0xae,0x22,0x23,
     0xb0,0x03,0x61,0xa3,0x96,0x17,0x7a,0x9c,0xb4,0x10,0xff,0x61,0xf2,0x00,0x15,0xad] := by
  decide +kernel

end Sha256
end PgKronika
