import PlusWallet.Library.Blocks
import PlusWallet.Library.KeyedHash

/-
  Keys derived from a password by way of a large table.

  Main declarations:
    * `chained`, `evens`, `odds`, `blockMix`
    * `roMix`
    * `scrypt`
-/

namespace PlusWallet

namespace MemoryHard

open Blocks Bytes XorBytes KeyedHash

variable (core : List UInt8 → List UInt8)

------------------------------------------------------------
-- Mixing Blocks
------------------------------------------------------------

/- Every block mixed with the one that came out before it. -/
def chained :
    List UInt8 → List (List UInt8) → List (List UInt8)
  | _, [] => []
  | last, block :: blocks =>
      let next := core (xorBytes last block)
      next :: chained next blocks

section Halves

variable {Item : Type}

/- The items at even places, and those at odd places. -/
def evens : List Item → List Item
  | [] => []
  | [item] => [item]
  | item :: _ :: items => item :: evens items

def odds : List Item → List Item
  | [] => []
  | [_] => []
  | _ :: item :: items => item :: odds items

end Halves

/- The last block comes before the first. -/
def blockMix (bytes : List UInt8) : List UInt8 :=
  let mixed :=
    chained core ((blocks 64 bytes).getLastD [])
      (blocks 64 bytes)
  (evens mixed).flatten ++ (odds mixed).flatten

------------------------------------------------------------
-- The Table
------------------------------------------------------------

/- The number in the last block. -/
def integerify (bytes : List UInt8) : Nat :=
  ofLittleEndian ((bytes.drop (bytes.length - 64)).take 8)

/- The table holds the first `n` powers of the mix, and is read
   `n` times at places that the bytes name. -/
def lookedUp
    (mix : List UInt8 → List UInt8)
    (n : Nat)
    (start bytes : List UInt8) : List UInt8 :=
  mix (xorBytes bytes (mix^[integerify bytes % n] start))

def roMix
    (mix : List UInt8 → List UInt8)
    (n : Nat)
    (start : List UInt8) : List UInt8 :=
  (lookedUp mix n start)^[n] (mix^[n] start)

------------------------------------------------------------
-- The Key
------------------------------------------------------------

def scrypt
    (code : List UInt8 → List UInt8 → List UInt8)
    (codeLen : Nat)
    (password salt : List UInt8)
    (n r p length : Nat) : List UInt8 :=
  let wide :=
    pbkdf2 (code password) codeLen 1 salt (128 * r * p)
  let mixed :=
    (blocks (128 * r) wide).map (roMix (blockMix core) n)
  pbkdf2 (code password) codeLen 1 mixed.flatten length

end MemoryHard

end PlusWallet
