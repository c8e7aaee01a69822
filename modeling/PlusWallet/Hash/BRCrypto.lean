import PlusWallet.Library.Bytes
import PlusWallet.Library.Parts

/-
  The block loops of the hash functions of `BRCrypto.c`, down to
  the buffer that they leave.

  A compression function is any function of the buffer and of
  the bytes of a block.  `none` stands for a read behind the end
  of the message.

  Main declarations:
    * `blockLoop`
    * `Layout`, `finish`, `hashLoop`
    * `BRSHA224`, `BRSHA256`, `BRSHA384`, `BRSHA512`,
      `BRRMD160`, `BRMD5`
    * `spongeFinish`, `BRSHA3_256`, `BRKeccak256`
-/

namespace PlusWallet

namespace Hash

open Bytes Parts

variable {Buffer : Type}
variable (compress : Buffer → List UInt8 → Buffer)

------------------------------------------------------------
-- Whole Blocks
------------------------------------------------------------

/- `x`, filled with bytes of the message by `memcpy`. -/
def copied
    (data x : List UInt8)
    (i len : Nat) : List UInt8 :=
  part data i len ++ x.drop len

/-
  The loop over the message: the buffer, the last block as far
  as it was copied, and where it begins.  The rounds that are
  left bound the recursion.
-/
def blockLoop
    (blockSize : Nat)
    (inclusive : Bool)
    (data : List UInt8) :
    Nat → Buffer → List UInt8 → Nat →
      Option (Buffer × List UInt8 × Nat)
  | 0, _, _, _ => none
  | rounds + 1, buf, x, i =>
      if i < data.length ∨ (inclusive ∧ i = data.length) then
        let next := (i + blockSize) % 2 ^ 64
        let len :=
          if next < data.length then blockSize
          else data.length - i
        if i + len ≤ data.length then
          let x := copied data x i len
          if next > data.length then some (buf, x, i)
          else
            blockLoop blockSize inclusive data rounds
              (compress buf x) x next
        else none
      else some (buf, x, i)

/- The rounds that the loop can take. -/
def roundsOf (blockSize : Nat) (data : List UInt8) : Nat :=
  data.length / blockSize + 1

------------------------------------------------------------
-- Messages with a Length
------------------------------------------------------------

/- What the functions with a length at the end differ in. -/
structure Layout where
  blockSize : Nat
  lengthAt : Nat
  inclusive : Bool
  lengthField : Nat → List UInt8

/- The last block, or the last two. -/
def finish
    (layout : Layout)
    (dataLen : Nat)
    (buf : Buffer)
    (x : List UInt8)
    (i : Nat) : Buffer :=
  let rest := dataLen - i
  let x :=
    x.take rest ++ List.replicate (layout.blockSize - rest) 0
  let x := x.set rest 0x80
  let field := layout.lengthField dataLen
  if rest ≥ layout.lengthAt then
    compress (compress buf x)
      ((List.replicate layout.blockSize 0).take
          layout.lengthAt ++
        field)
  else compress buf (x.take layout.lengthAt ++ field)

def hashLoop
    (layout : Layout)
    (buf : Buffer)
    (x data : List UInt8) : Option Buffer :=
  (blockLoop compress layout.blockSize layout.inclusive data
    (roundsOf layout.blockSize data) buf x 0).map
      fun state =>
        finish compress layout data.length state.1 state.2.1
          state.2.2

/- Words 14 and 15 with the high word first. -/
def bigEndianWords (dataLen : Nat) : List UInt8 :=
  bigEndian 4 (dataLen / 2 ^ 29 % 2 ^ 32) ++
    bigEndian 4 (dataLen * 2 ^ 3 % 2 ^ 32)

/- Words 14 and 15 with the low word first. -/
def littleEndianWords (dataLen : Nat) : List UInt8 :=
  littleEndian 4 (dataLen * 2 ^ 3 % 2 ^ 32) ++
    littleEndian 4 (dataLen / 2 ^ 29 % 2 ^ 32)

/- Word 14 is zero. -/
def bigEndianDoubleWords (dataLen : Nat) : List UInt8 :=
  bigEndian 8 0 ++ bigEndian 8 (dataLen * 8 % 2 ^ 64)

def sha256Layout : Layout where
  blockSize := 64
  lengthAt := 56
  inclusive := false
  lengthField := bigEndianWords

def sha512Layout : Layout where
  blockSize := 128
  lengthAt := 112
  inclusive := false
  lengthField := bigEndianDoubleWords

def md5Layout : Layout where
  blockSize := 64
  lengthAt := 56
  inclusive := true
  lengthField := littleEndianWords

/- Before the loop `x` holds whatever the stack did. -/
def BRSHA224
    (buf : Buffer)
    (x : List.Vector UInt8 64)
    (data : List UInt8) : Option Buffer :=
  hashLoop compress sha256Layout buf x.toList data

def BRSHA256
    (buf : Buffer)
    (x : List.Vector UInt8 64)
    (data : List UInt8) : Option Buffer :=
  hashLoop compress sha256Layout buf x.toList data

def BRSHA384
    (buf : Buffer)
    (x : List.Vector UInt8 128)
    (data : List UInt8) : Option Buffer :=
  hashLoop compress sha512Layout buf x.toList data

def BRSHA512
    (buf : Buffer)
    (x : List.Vector UInt8 128)
    (data : List UInt8) : Option Buffer :=
  hashLoop compress sha512Layout buf x.toList data

def BRRMD160
    (buf : Buffer)
    (x : List.Vector UInt8 64)
    (data : List UInt8) : Option Buffer :=
  hashLoop compress md5Layout buf x.toList data

def BRMD5
    (buf : Buffer)
    (x : List.Vector UInt8 64)
    (data : List UInt8) : Option Buffer :=
  hashLoop compress md5Layout buf x.toList data

------------------------------------------------------------
-- Sponges
------------------------------------------------------------

/- The last block of a sponge: a mark behind the message, and
   the last bit. -/
def spongeFinish
    (blockSize : Nat)
    (mark : UInt8)
    (dataLen : Nat)
    (buf : Buffer)
    (x : List UInt8)
    (i : Nat) : Buffer :=
  let rest := dataLen - i
  let x := x.take rest ++ List.replicate (blockSize - rest) 0
  let x := x.set rest (x.getD rest 0 ||| mark)
  let x :=
    x.set (blockSize - 1) (x.getD (blockSize - 1) 0 ||| 0x80)
  compress buf x

def spongeLoop
    (mark : UInt8)
    (buf : Buffer)
    (x data : List UInt8) : Option Buffer :=
  (blockLoop compress 136 true data (roundsOf 136 data) buf x
    0).map fun state =>
      spongeFinish compress 136 mark data.length state.1
        state.2.1 state.2.2

def BRSHA3_256
    (buf : Buffer)
    (x : List.Vector UInt8 136)
    (data : List UInt8) : Option Buffer :=
  spongeLoop compress 0x06 buf x.toList data

def BRKeccak256
    (buf : Buffer)
    (x : List.Vector UInt8 136)
    (data : List UInt8) : Option Buffer :=
  spongeLoop compress 0x01 buf x.toList data

end Hash

end PlusWallet
