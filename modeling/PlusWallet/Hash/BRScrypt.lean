import PlusWallet.Hash.BRHMAC
import PlusWallet.Library.Parts

/-
  `BRScrypt` of `BRCrypto.c`, on a little-endian machine, where
  its words are the bytes of the memory in their order.

  `none` stands for a copy that does not fit its room.

  Main declarations:
    * `_blockmix_salsa8`
    * `BRScrypt`
-/

namespace PlusWallet

namespace Hash

open Bytes XorBytes Memory Parts

/- The stream cipher's function on one block. -/
structure SalsaCore where
  salsa20_8 : List UInt8 → List UInt8
  length_salsa20_8 :
    ∀ block, block.length = 64 →
      (salsa20_8 block).length = 64

variable (core : SalsaCore)

/- The loop over two blocks at a time. -/
def blockmixLoop
    (src : List UInt8)
    (r : Nat) :
    Nat → Nat → List UInt8 → List UInt8 →
      Option (List UInt8)
  | 0, _, _, dest => some dest
  | turns + 1, i, b, dest => do
      let b := core.salsa20_8
        (xorBytes b (part src (i * 64) 64))
      let dest ← put dest (i * 32) b
      let b := core.salsa20_8
        (xorBytes b (part src (i * 64 + 64) 64))
      let dest ← put dest (i * 32 + r * 64) b
      blockmixLoop src r turns (i + 2) b dest

def _blockmix_salsa8
    (dest src : List UInt8)
    (r : Nat) : Option (List UInt8) :=
  blockmixLoop core src r r 0 (part src ((2 * r - 1) * 64) 64)
    dest

/- The table and the two states. -/
structure ScryptRooms where
  v : List UInt8
  x : List UInt8
  y : List UInt8

/- The loop that fills the table, two entries at a time. -/
def fillLoop (r : Nat) :
    Nat → Nat → ScryptRooms → Option ScryptRooms
  | 0, _, rooms => some rooms
  | turns + 1, j, rooms => do
      let v ← put rooms.v (j * (16 * r) % 2 ^ 32 * 8) rooms.x
      let y ← _blockmix_salsa8 core rooms.y rooms.x r
      let v ← put v ((j + 1) * (16 * r) % 2 ^ 32 * 8) y
      let x ← _blockmix_salsa8 core rooms.x y r
      fillLoop r turns (j + 2) { v := v, x := x, y := y }

/- The state with the entry of the table that it names. -/
def addEntry
    (r n : Nat)
    (v state : List UInt8) : List UInt8 :=
  let m :=
    ofLittleEndian (part state ((2 * r - 1) * 64) 8) &&& (n - 1)
  xorBytes state (part v (m * (16 * r) * 8) (16 * r * 8))

/- The loop that reads the table, twice at a time. -/
def mixLoop (r n : Nat) :
    Nat → ScryptRooms → Option ScryptRooms
  | 0, rooms => some rooms
  | turns + 1, rooms => do
      let x := addEntry r n rooms.v rooms.x
      let y ← _blockmix_salsa8 core rooms.y x r
      let y := addEntry r n rooms.v y
      let x ← _blockmix_salsa8 core x y r
      mixLoop r n turns { v := rooms.v, x := x, y := y }

/- The loop over the parts of `b`. -/
def partLoop (r n : Nat) :
    Nat → Nat → List UInt8 → ScryptRooms →
      Option (List UInt8)
  | 0, _, b, _ => some b
  | turns + 1, i, b, rooms => do
      let x := part b (i * (32 * r) % 2 ^ 32 * 4) (32 * r * 4)
      let rooms ←
        fillLoop core r ((n + 1) / 2) 0 { rooms with x := x }
      let rooms ← mixLoop core r n ((n + 1) / 2) rooms
      let b ← put b (i * (32 * r) % 2 ^ 32 * 4) rooms.x
      partLoop r n turns (i + 1) b rooms

/- The counter of a derived key takes fewer turns than this. -/
def enoughTurns : Nat := 2 ^ 32

def BRScrypt
    (hash : HashFunction)
    (fresh : Fresh UInt8)
    (dk pw salt : List UInt8)
    (n r p : Nat) : Option (List UInt8) := do
  let rooms : ScryptRooms :=
    { v := fresh.room (128 * r * n % 2 ^ 32)
      x := fresh.room (16 * r * 8)
      y := fresh.room (16 * r * 8) }
  let b ← BRPBKDF2 hash fresh enoughTurns
    (fresh.room (32 * r * p % 2 ^ 32 * 4)) pw salt 1
  let b ← partLoop core r n p 0 b rooms
  BRPBKDF2 hash fresh enoughTurns dk pw b 1

end Hash

end PlusWallet
