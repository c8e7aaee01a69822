import PlusWallet.Address.BRBase58

/-
  `BRBIP39Encode` and `BRBIP39Decode`.

  A C string is the list of its bytes before the `NULL` byte,
  and the empty list stands for a `NULL` pointer into a phrase
  too.  Numbers below 2^32 are natural numbers.  A phrase that
  does not fit into its buffer is written in part; that part
  is left out.  The data to encode is not `NULL`, as asserted.

  Main declarations:
    * `BRBIP39.wordIndex`, `BRBIP39.encode`
    * `BRBIP39.readWords`, `BRBIP39.dataByte`
    * `BRBIP39.decode`
-/

namespace PlusWallet

open Bytes

namespace BRBIP39

/- number of words in a BIP39 wordlist -/
def BIP39_WORDLIST_COUNT : Nat := 2048

def space : UInt8 := cChar ' '

------------------------------------------------------------
-- Encoding
------------------------------------------------------------

/- The index of a word of the phrase for a buffer. -/
def wordIndex (buf : List UInt8) (i : Nat) : Nat :=
  let x := ofBigEndian ((buf.drop (i * 11 / 8)).take 4)
  (x >>> (32 - (11 + i * 11 % 8))) % BIP39_WORDLIST_COUNT

/- The words with a space between each two of them. -/
def join (words : List (List UInt8)) : List UInt8 :=
  List.intercalate [space] words

/-
  `BRBIP39Encode`, with the phrase that it writes and without
  its `NULL` byte
-/
def encode
    (sha256 : List UInt8 → UInt256)
    (phraseLen : Option Nat)
    (wordList : List (List UInt8))
    (data : List UInt8) : Nat × Option (List UInt8) :=
  -- data length must be a multiple of 32 bits
  if data.length % 4 ≠ 0 then (0, none)
  else
    -- append SHA256 checksum
    let buf := data ++ (sha256 data).toList
    let phrase :=
      join
        ((List.range (data.length * 3 / 4)).map fun i =>
          wordList.getD (wordIndex buf i) [])
    output phraseLen (phrase.length + 1) phrase

------------------------------------------------------------
-- Decoding
------------------------------------------------------------

/- Whether a phrase begins with a word of the list. -/
def beginsWith (phrase word : List UInt8) : Bool :=
  word.isPrefixOf phrase &&
    match phrase.drop word.length with
    | [] => true
    | next :: _ => next = space

/- The phrase behind its first space. -/
def behindSpace (phrase : List UInt8) : List UInt8 :=
  (phrase.dropWhile (· ≠ space)).tail

/-
  The loop over the words of a phrase: the indices of those
  that are known, and the phrase behind them
-/
def readWords
    (wordList : List (List UInt8)) :
    Nat → List UInt8 → List Nat × List UInt8
  | 0, phrase => ([], phrase)
  | room + 1, phrase =>
      if phrase = [] then ([], [])
      else
        match
          (wordList.take BIP39_WORDLIST_COUNT).findIdx?
            (beginsWith phrase)
        with
        | none => ([], phrase)
        | some i =>
            let (idx, rest) :=
              readWords wordList room (behindSpace phrase)
            (i :: idx, rest)

/- A byte of the data with its checksum behind it. -/
def dataByte (idx : List Nat) (i : Nat) : UInt8 :=
  let x := idx.getD (i * 8 / 11) 0
  let y := idx.getD (i * 8 / 11 + 1) 0
  UInt8.ofNat
    ((x * BIP39_WORDLIST_COUNT + y) >>>
      ((i * 8 / 11 + 2) * 11 - (i + 1) * 8))

/- The bytes of the words, the last one with the checksum. -/
def dataBytes (idx : List Nat) : List UInt8 :=
  (List.range ((idx.length * 11 + 7) / 8)).map (dataByte idx)

/- The first bits of a byte, at most 8. -/
def firstBits (count : Nat) (byte : UInt8) : Nat :=
  byte.toNat >>> (8 - count)

/-
  `BRBIP39Decode`, with the data that it writes
-/
def decode
    (sha256 : List UInt8 → UInt256)
    (dataLen : Option Nat)
    (wordList : List (List UInt8))
    (phrase : List UInt8) : Nat × Option (List UInt8) :=
  let (idx, rest) := readWords wordList 24 phrase
  let count := idx.length
  let buf := dataBytes idx
  let data := buf.take (count * 4 / 3)
  -- check that phrase has correct number of words
  if count % 3 = 0 ∧ rest = [] ∧
      -- verify checksum
      firstBits (count / 3) (buf.getLastD 0) =
        firstBits (count / 3) ((sha256 data).toList.headD 0)
  then output dataLen (count * 4 / 3) data
  else output dataLen 0 []

end BRBIP39

end PlusWallet
