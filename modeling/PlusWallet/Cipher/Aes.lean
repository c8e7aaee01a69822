import PlusWallet.Library.Reversible
import PlusWallet.Library.XorBytes

/-
  The AES block cipher as `BRBIP38Key.c` and `BRKeyECIES.c`
  compute it.

  A block and a key are lists of bytes, the columns one behind
  the other.  AES-256 expands its key in place while it
  encrypts, and takes the expansion back while it decrypts.

  Main declarations:
    * `sbox`, `sboxi`, `xt`
    * `subBytes`, `shiftRows`, `mixColumns` and their inverses
    * `keyChanges`, `expandKey`, `unexpandKey`
    * `_BRAES256ECBEncrypt`, `_BRAES256ECBDecrypt`
-/

namespace PlusWallet

namespace Aes

open Reversible XorBytes

------------------------------------------------------------
-- Bytes
------------------------------------------------------------

def sboxTable : List UInt8 :=
  [0x63, 0x7c, 0x77, 0x7b, 0xf2, 0x6b, 0x6f, 0xc5,
  0x30, 0x01, 0x67, 0x2b, 0xfe, 0xd7, 0xab, 0x76,
  0xca, 0x82, 0xc9, 0x7d, 0xfa, 0x59, 0x47, 0xf0,
  0xad, 0xd4, 0xa2, 0xaf, 0x9c, 0xa4, 0x72, 0xc0,
  0xb7, 0xfd, 0x93, 0x26, 0x36, 0x3f, 0xf7, 0xcc,
  0x34, 0xa5, 0xe5, 0xf1, 0x71, 0xd8, 0x31, 0x15,
  0x04, 0xc7, 0x23, 0xc3, 0x18, 0x96, 0x05, 0x9a,
  0x07, 0x12, 0x80, 0xe2, 0xeb, 0x27, 0xb2, 0x75,
  0x09, 0x83, 0x2c, 0x1a, 0x1b, 0x6e, 0x5a, 0xa0,
  0x52, 0x3b, 0xd6, 0xb3, 0x29, 0xe3, 0x2f, 0x84,
  0x53, 0xd1, 0x00, 0xed, 0x20, 0xfc, 0xb1, 0x5b,
  0x6a, 0xcb, 0xbe, 0x39, 0x4a, 0x4c, 0x58, 0xcf,
  0xd0, 0xef, 0xaa, 0xfb, 0x43, 0x4d, 0x33, 0x85,
  0x45, 0xf9, 0x02, 0x7f, 0x50, 0x3c, 0x9f, 0xa8,
  0x51, 0xa3, 0x40, 0x8f, 0x92, 0x9d, 0x38, 0xf5,
  0xbc, 0xb6, 0xda, 0x21, 0x10, 0xff, 0xf3, 0xd2,
  0xcd, 0x0c, 0x13, 0xec, 0x5f, 0x97, 0x44, 0x17,
  0xc4, 0xa7, 0x7e, 0x3d, 0x64, 0x5d, 0x19, 0x73,
  0x60, 0x81, 0x4f, 0xdc, 0x22, 0x2a, 0x90, 0x88,
  0x46, 0xee, 0xb8, 0x14, 0xde, 0x5e, 0x0b, 0xdb,
  0xe0, 0x32, 0x3a, 0x0a, 0x49, 0x06, 0x24, 0x5c,
  0xc2, 0xd3, 0xac, 0x62, 0x91, 0x95, 0xe4, 0x79,
  0xe7, 0xc8, 0x37, 0x6d, 0x8d, 0xd5, 0x4e, 0xa9,
  0x6c, 0x56, 0xf4, 0xea, 0x65, 0x7a, 0xae, 0x08,
  0xba, 0x78, 0x25, 0x2e, 0x1c, 0xa6, 0xb4, 0xc6,
  0xe8, 0xdd, 0x74, 0x1f, 0x4b, 0xbd, 0x8b, 0x8a,
  0x70, 0x3e, 0xb5, 0x66, 0x48, 0x03, 0xf6, 0x0e,
  0x61, 0x35, 0x57, 0xb9, 0x86, 0xc1, 0x1d, 0x9e,
  0xe1, 0xf8, 0x98, 0x11, 0x69, 0xd9, 0x8e, 0x94,
  0x9b, 0x1e, 0x87, 0xe9, 0xce, 0x55, 0x28, 0xdf,
  0x8c, 0xa1, 0x89, 0x0d, 0xbf, 0xe6, 0x42, 0x68,
  0x41, 0x99, 0x2d, 0x0f, 0xb0, 0x54, 0xbb, 0x16]

def sboxiTable : List UInt8 :=
  [0x52, 0x09, 0x6a, 0xd5, 0x30, 0x36, 0xa5, 0x38,
  0xbf, 0x40, 0xa3, 0x9e, 0x81, 0xf3, 0xd7, 0xfb,
  0x7c, 0xe3, 0x39, 0x82, 0x9b, 0x2f, 0xff, 0x87,
  0x34, 0x8e, 0x43, 0x44, 0xc4, 0xde, 0xe9, 0xcb,
  0x54, 0x7b, 0x94, 0x32, 0xa6, 0xc2, 0x23, 0x3d,
  0xee, 0x4c, 0x95, 0x0b, 0x42, 0xfa, 0xc3, 0x4e,
  0x08, 0x2e, 0xa1, 0x66, 0x28, 0xd9, 0x24, 0xb2,
  0x76, 0x5b, 0xa2, 0x49, 0x6d, 0x8b, 0xd1, 0x25,
  0x72, 0xf8, 0xf6, 0x64, 0x86, 0x68, 0x98, 0x16,
  0xd4, 0xa4, 0x5c, 0xcc, 0x5d, 0x65, 0xb6, 0x92,
  0x6c, 0x70, 0x48, 0x50, 0xfd, 0xed, 0xb9, 0xda,
  0x5e, 0x15, 0x46, 0x57, 0xa7, 0x8d, 0x9d, 0x84,
  0x90, 0xd8, 0xab, 0x00, 0x8c, 0xbc, 0xd3, 0x0a,
  0xf7, 0xe4, 0x58, 0x05, 0xb8, 0xb3, 0x45, 0x06,
  0xd0, 0x2c, 0x1e, 0x8f, 0xca, 0x3f, 0x0f, 0x02,
  0xc1, 0xaf, 0xbd, 0x03, 0x01, 0x13, 0x8a, 0x6b,
  0x3a, 0x91, 0x11, 0x41, 0x4f, 0x67, 0xdc, 0xea,
  0x97, 0xf2, 0xcf, 0xce, 0xf0, 0xb4, 0xe6, 0x73,
  0x96, 0xac, 0x74, 0x22, 0xe7, 0xad, 0x35, 0x85,
  0xe2, 0xf9, 0x37, 0xe8, 0x1c, 0x75, 0xdf, 0x6e,
  0x47, 0xf1, 0x1a, 0x71, 0x1d, 0x29, 0xc5, 0x89,
  0x6f, 0xb7, 0x62, 0x0e, 0xaa, 0x18, 0xbe, 0x1b,
  0xfc, 0x56, 0x3e, 0x4b, 0xc6, 0xd2, 0x79, 0x20,
  0x9a, 0xdb, 0xc0, 0xfe, 0x78, 0xcd, 0x5a, 0xf4,
  0x1f, 0xdd, 0xa8, 0x33, 0x88, 0x07, 0xc7, 0x31,
  0xb1, 0x12, 0x10, 0x59, 0x27, 0x80, 0xec, 0x5f,
  0x60, 0x51, 0x7f, 0xa9, 0x19, 0xb5, 0x4a, 0x0d,
  0x2d, 0xe5, 0x7a, 0x9f, 0x93, 0xc9, 0x9c, 0xef,
  0xa0, 0xe0, 0x3b, 0x4d, 0xae, 0x2a, 0xf5, 0xb0,
  0xc8, 0xeb, 0xbb, 0x3c, 0x83, 0x53, 0x99, 0x61,
  0x17, 0x2b, 0x04, 0x7e, 0xba, 0x77, 0xd6, 0x26,
  0xe1, 0x69, 0x14, 0x63, 0x55, 0x21, 0x0c, 0x7d]

def sbox (b : UInt8) : UInt8 :=
  sboxTable.getD b.toNat 0

def sboxi (b : UInt8) : UInt8 :=
  sboxiTable.getD b.toNat 0

/- The macro `xt`, to a byte. -/
def xt (x : UInt8) : UInt8 :=
  (x <<< 1) ^^^ ((x >>> 7) &&& 1) * 0x1b

/- How the key schedule goes back to the factor before. -/
def unxt (r : UInt8) : UInt8 :=
  (r >>> 1) ^^^ (r &&& 1) * 0x8d

------------------------------------------------------------
-- Blocks
------------------------------------------------------------

def addRoundKey (x k : List UInt8) : List UInt8 :=
  xorBytes x k

def subBytes (x : List UInt8) : List UInt8 :=
  x.map sbox

def unsubBytes (x : List UInt8) : List UInt8 :=
  x.map sboxi

/- The bytes of a block from the places in a list. -/
def permute (places : List Nat) (x : List UInt8) : List UInt8 :=
  places.map fun place => x.getD place 0

def shiftRows (x : List UInt8) : List UInt8 :=
  permute [0, 5, 10, 15, 4, 9, 14, 3, 8, 13, 2, 7, 12, 1, 6,
    11] x

def unshiftRows (x : List UInt8) : List UInt8 :=
  permute [0, 13, 10, 7, 4, 1, 14, 11, 8, 5, 2, 15, 12, 9, 6,
    3] x

def mixColumns : List UInt8 → List UInt8
  | a :: b :: c :: d :: rest =>
      let e := a ^^^ b ^^^ c ^^^ d
      (a ^^^ (e ^^^ xt (a ^^^ b))) ::
        (b ^^^ (e ^^^ xt (b ^^^ c))) ::
        (c ^^^ (e ^^^ xt (c ^^^ d))) ::
        (d ^^^ (e ^^^ xt (d ^^^ a))) :: mixColumns rest
  | rest => rest

def unmixColumns : List UInt8 → List UInt8
  | a :: b :: c :: d :: rest =>
      let e := a ^^^ b ^^^ c ^^^ d
      let h := xt e
      let f := e ^^^ xt (xt (h ^^^ a ^^^ c))
      let g := e ^^^ xt (xt (h ^^^ b ^^^ d))
      (a ^^^ (f ^^^ xt (a ^^^ b))) ::
        (b ^^^ (g ^^^ xt (b ^^^ c))) ::
        (c ^^^ (f ^^^ xt (c ^^^ d))) ::
        (d ^^^ (g ^^^ xt (d ^^^ a))) :: unmixColumns rest
  | rest => rest

------------------------------------------------------------
-- The Key of AES-256
------------------------------------------------------------

/- `k[j] ^= k[j - 4]` -/
def chainChange (j : Nat) : Change UInt8 :=
  ⟨j, j - 4, fun b => b⟩

/- The first four bytes of the key. -/
def firstChanges (r : UInt8) : List (Change UInt8) :=
  [⟨0, 29, fun b => sbox b ^^^ r⟩, ⟨1, 30, sbox⟩,
    ⟨2, 31, sbox⟩, ⟨3, 28, sbox⟩]

/- The first four bytes of its second half. -/
def middleChanges : List (Change UInt8) :=
  [⟨16, 12, sbox⟩, ⟨17, 13, sbox⟩, ⟨18, 14, sbox⟩,
    ⟨19, 15, sbox⟩]

/- The changes of one step of the key schedule. -/
def keyChanges (r : UInt8) : List (Change UInt8) :=
  firstChanges r ++
    (List.range' 4 12).map chainChange ++
    middleChanges ++
    (List.range' 20 12).map chainChange

/- The changes that take it back, as the source orders them. -/
def keyUnchanges (r : UInt8) : List (Change UInt8) :=
  ((List.range' 20 12).map chainChange).reverse ++
    middleChanges ++
    ((List.range' 4 12).map chainChange).reverse ++
    firstChanges r

def expandKey (r : UInt8) (k : List UInt8) : List UInt8 :=
  runChanges (fun a b => a ^^^ b) (keyChanges r) k

def unexpandKey (r : UInt8) (k : List UInt8) : List UInt8 :=
  runChanges (fun a b => a ^^^ b) (keyUnchanges r) k

------------------------------------------------------------
-- AES-256
------------------------------------------------------------

/- The variables of the two functions. -/
structure EcbState where
  x : List UInt8
  k : List UInt8
  r : UInt8
deriving DecidableEq

/- The half of the key that a round adds. -/
def roundKey (k : List UInt8) (i : Nat) : List UInt8 :=
  (k.drop (i % 2 * 16)).take 16

def encryptRound (i : Nat) (state : EcbState) : EcbState :=
  let x := addRoundKey state.x (roundKey state.k i)
  let x := subBytes x
  let x := shiftRows x
  let x := if i < 13 then mixColumns x else x
  if i % 2 ≠ 0 then
    ⟨x, expandKey state.r state.k, xt state.r⟩
  else ⟨x, state.k, state.r⟩

/- The state after so many rounds. -/
def encryptRounds
    (key buf : List UInt8) : Nat → EcbState
  | 0 => ⟨buf, key, 1⟩
  | i + 1 => encryptRound i (encryptRounds key buf i)

def _BRAES256ECBEncrypt
    (key32 buf16 : List UInt8) : List UInt8 :=
  let state := encryptRounds key32 buf16 14
  -- final add round key
  addRoundKey state.x (roundKey state.k 0)

/- The key and its factor after some steps of the schedule. -/
def expandedKey (key : List UInt8) : Nat → List UInt8 × UInt8
  | 0 => (key, 1)
  | i + 1 =>
      let (k, r) := expandedKey key i
      (expandKey r k, xt r)

def decryptRound (i : Nat) (state : EcbState) : EcbState :=
  let x := addRoundKey state.x (roundKey state.k i)
  let x := if 0 < i then unmixColumns x else x
  let x := unshiftRows x
  let x := unsubBytes x
  if i % 2 = 0 then
    let r := unxt state.r
    ⟨x, unexpandKey r state.k, r⟩
  else ⟨x, state.k, state.r⟩

/- The state after so many rounds. -/
def decryptRounds
    (key buf : List UInt8) : Nat → EcbState
  | 0 =>
      let (k, r) := expandedKey key 7
      ⟨buf, k, r⟩
  | i + 1 => decryptRound i (decryptRounds key buf i)

def _BRAES256ECBDecrypt
    (key32 buf16 : List UInt8) : List UInt8 :=
  let state := decryptRounds key32 buf16 14
  -- final add round key
  addRoundKey state.x (roundKey state.k 0)

end Aes

end PlusWallet
