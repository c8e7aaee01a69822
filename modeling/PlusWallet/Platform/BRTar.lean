import PlusWallet.Ethereum.BRUtilMath

/-
  Extraction of tar archives by `BRTar.swift`, over any file
  system: `FileManager` and the file handles for writing are
  parameters, and each of their operations may throw.

  Main declarations:
    * `BRTarType`, `Header`, `readHeader`
    * `FileManager`, `makeFile`, `makeDirectory`
    * `extract`
    * `locations`
    * `next_lt`
-/

namespace PlusWallet

namespace BRTar

open BRUtilMath

------------------------------------------------------------
-- Reading
------------------------------------------------------------

/- `tarBlockSize` -/
abbrev tarBlockSize : Nat := 512

/- `tarTypePosition` -/
abbrev tarTypePosition : Nat := 156

/- `tarNamePosition` -/
abbrev tarNamePosition : Nat := 0

/- `tarNameSize` -/
abbrev tarNameSize : Nat := 100

/- `tarSizePosition` -/
abbrev tarSizePosition : Nat := 124

/- `tarSizeSize` -/
abbrev tarSizeSize : Nat := 12

/- `tarMaxBlockLoadInMemory * tarBlockSize` -/
abbrev maxSize : Nat := 100 * 512

/- `BRTarType` -/
inductive BRTarType where
  | file
  | directory
  | nullBlock
  | headerBlock
  | unsupported
  | invalid
deriving DecidableEq

/- `BRTarType.init(fromData:)` -/
def BRTarType.init (fromData : List UInt8) : BRTarType :=
  match fromData with
  | [] => .invalid
  | byte :: _ =>
      if byte = 48 then .file
      else if byte = 53 then .directory
      else if byte = 0 then .nullBlock
      else if byte = 120 then .headerBlock
      else if byte ∈ [49, 50, 51, 52, 53, 54, 55, 103] then
        .unsupported
      else .invalid

/- `seek` and `readData(ofLength:)` of a file handle -/
def readData
    (tar : List UInt8)
    (location length : Nat) : List UInt8 :=
  (tar.drop location).take length

/- The encoding `ascii` of strings -/
def isAscii (bytes : List UInt8) : Bool :=
  bytes.all (· < 128)

/- What a C function sees of a string. -/
def cBytes (bytes : List UInt8) : List UInt8 :=
  bytes.takeWhile (· ≠ 0)

/- `strtoll` of the standard library for base 8 -/
def strtollOctal (string : List UInt8) : Int :=
  let string := string.dropWhile isspace
  let (negative, string) :=
    match string with
    | sign :: rest =>
        if sign = cChar '-' then (true, rest)
        else if sign = cChar '+' then (false, rest)
        else (false, string)
    | [] => (false, [])
  let number := Positional.value 8 (leadingDigits 8 string)
  if negative then max (-2 ^ 63) (-(number : Int))
  else min (2 ^ 63 - 1) number

/- `readTypeAtLocation` -/
def readTypeAtLocation
    (tar : List UInt8)
    (location : Nat) : BRTarType :=
  .init (readData tar (location + tarTypePosition) 1)

/- `readNameAtLocation`, `none` where it throws -/
def readNameAtLocation
    (tar : List UInt8)
    (location : Nat) : Option (List UInt8) :=
  let dat :=
    readData tar (location + tarNamePosition) tarNameSize
  if isAscii dat then some dat else none

/-
  `readSizeAtLocation`, `none` where it traps: for a string that
  is no ASCII, and for a negative number.
-/
def readSizeAtLocation
    (tar : List UInt8)
    (location : Nat) : Option Nat :=
  let sizeDat :=
    readData tar (location + tarSizePosition) tarSizeSize
  if isAscii sizeDat then
    let dec := strtollOctal (cBytes sizeDat)
    if dec < 0 then none else some dec.toNat
  else none

------------------------------------------------------------
-- Headers
------------------------------------------------------------

/-
  What the loop reads of a header before it does anything else;
  `skip` has the blocks behind the header.
-/
inductive Header where
  | file (name : List UInt8) (size : Nat)
  | directory (name : List UInt8)
  | skip (blocks : Nat)
  | throws
  | traps
deriving DecidableEq

def readHeader
    (tar : List UInt8)
    (loc : Nat) : Header :=
  match readTypeAtLocation tar loc with
  | .file =>
      match readNameAtLocation tar loc with
      | none => .throws
      | some name =>
          match readSizeAtLocation tar loc with
          | none => .traps
          | some size => .file name size
  | .directory =>
      match readNameAtLocation tar loc with
      | none => .throws
      | some name => .directory name
  | .nullBlock => .skip 0
  | .headerBlock => .skip 1
  | .unsupported =>
      match readSizeAtLocation tar loc with
      | none => .traps
      | some size => .skip (size / tarBlockSize)
  | .invalid => .throws

/- The blocks that the loop moves on by, beside the header's. -/
def Header.dataBlocks : Header → Nat
  | .file _ size =>
      if size = 0 then 0 else (size - 1) / tarBlockSize + 1
  | .skip blocks => blocks
  | _ => 0

/- Where the next header is looked for. -/
def Header.next (header : Header) (loc : Nat) : Nat :=
  loc + (1 + header.dataBlocks) * tarBlockSize

theorem Header.lt_next (header : Header) (loc : Nat) :
    loc < header.next loc := by
  have hPos : 0 < (1 + header.dataBlocks) * tarBlockSize :=
    Nat.mul_pos (by omega) (by decide)
  unfold Header.next
  omega

------------------------------------------------------------
-- File Systems
------------------------------------------------------------

/- The components of a path, empty ones left out. -/
abbrev Path : Type := List (List UInt8)

def components (string : List UInt8) : Path :=
  (string.splitOn (cChar '/')).filter (· ≠ [])

/-
  `appendingPathComponent`; a path reaches the file system as a
  C string.
-/
def appendingPathComponent
    (path name : List UInt8) : Path :=
  components path ++ components (cBytes name)

/-
  The operations on the file system; `none` is a thrown error.
  `forWriting` tells whether a handle can be opened.
-/
structure FileManager (FS : Type) where
  fileExists : FS → Path → Bool
  removeItem : FS → Path → Option FS
  writeEmpty : FS → Path → Option FS
  createFile : FS → Path → FS
  forWriting : FS → Path → Bool
  write : FS → Path → List UInt8 → FS
  createDirectory : FS → Path → Option FS

section Operations

variable {FS : Type} (fm : FileManager FS)

/- An item at the path is removed first. -/
def clear (fs : FS) (path : Path) : Option FS :=
  if fm.fileExists fs path then fm.removeItem fs path
  else some fs

/- A file that is written piece by piece. -/
def makeFile
    (fs : FS)
    (newFilePath : Path)
    (pieces : List (List UInt8)) : Option FS := do
  let fs ← clear fm fs newFilePath
  if pieces = [] then fm.writeEmpty fs newFilePath
  else
    let fs := fm.createFile fs newFilePath
    if fm.forWriting fs newFilePath then
      some
        (pieces.foldl
          (fun fs piece => fm.write fs newFilePath piece) fs)
    else none

def makeDirectory (fs : FS) (dirPath : Path) : Option FS := do
  let fs ← clear fm fs dirPath
  fm.createDirectory fs dirPath

end Operations

/- The loop that hands the content of a file on -/
def readPieces
    (tar : List UInt8)
    (location size : Nat) : List (List UInt8) :=
  if maxSize < size then
    readData tar location maxSize ::
      readPieces tar (location + maxSize) (size - maxSize)
  else [readData tar location size]
termination_by size

/- The pieces of a file, none for an empty one. -/
def contentAtLocation
    (tar : List UInt8)
    (loc size : Nat) : List (List UInt8) :=
  if size = 0 then []
  else readPieces tar (loc + tarBlockSize) size

------------------------------------------------------------
-- Extraction
------------------------------------------------------------

/- How a run of the loop ends. -/
inductive Outcome (FS : Type) where
  | success (fs : FS)
  | threw
  | trapped
deriving DecidableEq

/-
  A run of the loop: its end, where it read headers, and the
  paths that it removed, created or wrote.
-/
structure Run (FS : Type) where
  outcome : Outcome FS
  visited : List Nat
  touched : List Path
deriving DecidableEq

def Run.after
    {FS : Type}
    (loc : Nat)
    (paths : List Path)
    (run : Run FS) : Run FS where
  outcome := run.outcome
  visited := loc :: run.visited
  touched := paths ++ run.touched

/- The path that the loop removes and creates, if any. -/
def Header.paths (header : Header) (path : List UInt8) :
    List Path :=
  match header with
  | .file name _ => [appendingPathComponent path name]
  | .directory name => [appendingPathComponent path name]
  | _ => []

/- The `switch` of the loop, where `success` goes on. -/
def perform
    {FS : Type}
    (fm : FileManager FS)
    (path tar : List UInt8)
    (loc : Nat)
    (fs : FS) : Header → Outcome FS
  | .file name size =>
      match makeFile fm fs (appendingPathComponent path name)
          (contentAtLocation tar loc size) with
      | none => .threw
      | some fs => .success fs
  | .directory name =>
      match
          makeDirectory fm fs
            (appendingPathComponent path name) with
      | none => .threw
      | some fs => .success fs
  | .skip _ => .success fs
  | .throws => .threw
  | .traps => .trapped

/-
  The loop of `createFilesAndDirectoriesAtPath`; it traps where
  `loc` would leave 64 bits.
-/
def extract
    {FS : Type}
    (fm : FileManager FS)
    (path tar : List UInt8)
    (loc : Nat)
    (fs : FS) : Run FS :=
  if loc < tar.length then
    let header := readHeader tar loc
    let paths := header.paths path
    match perform fm path tar loc fs header with
    | .threw => ⟨.threw, [loc], paths⟩
    | .trapped => ⟨.trapped, [loc], paths⟩
    | .success fs =>
        if 2 ^ 64 ≤ header.next loc then
          ⟨.trapped, [loc], paths⟩
        else
          (extract fm path tar (header.next loc) fs).after loc
            paths
  else ⟨.success fs, [], []⟩
termination_by tar.length - loc
decreasing_by
  have hNext := (readHeader tar loc).lt_next loc
  omega

/- Where headers are read if the file system never throws. -/
def locations (tar : List UInt8) (loc : Nat) : List Nat :=
  if loc < tar.length then
    loc ::
      match readHeader tar loc with
      | .throws => []
      | .traps => []
      | header => locations tar (header.next loc)
  else []
termination_by tar.length - loc
decreasing_by
  have hNext := header.lt_next loc
  omega

------------------------------------------------------------
-- Sizes
------------------------------------------------------------

theorem length_leadingDigits
    (base : Nat)
    (string : List UInt8) :
    (leadingDigits base string).length ≤ string.length := by
  induction string with
  | nil => exact Nat.le_refl 0
  | cons c string ih =>
      rw [leadingDigits]
      split
      · split_ifs
        · exact Nat.succ_le_succ ih
        · exact Nat.zero_le _
      · exact Nat.zero_le _

theorem lt_of_mem_leadingDigits
    {base digit : Nat}
    {string : List UInt8}
    (hDigit : digit ∈ leadingDigits base string) :
    digit < base := by
  induction string with
  | nil => cases hDigit
  | cons c string ih =>
      rw [leadingDigits] at hDigit
      split at hDigit
      · split_ifs at hDigit with hLt
        · rcases List.mem_cons.mp hDigit with rfl | hRest
          · exact hLt
          · exact ih hRest
        · cases hDigit
      · cases hDigit

/- Octal digits of a string that is no longer than another. -/
theorem octal_lt
    {string whole : List UInt8}
    (hLength : string.length ≤ whole.length) :
    Positional.value 8 (leadingDigits 8 string) <
      8 ^ whole.length := by
  have hDigits :
      ∀ digit ∈ leadingDigits 8 string, digit < 8 :=
    fun _ hDigit => lt_of_mem_leadingDigits hDigit
  refine
    (Positional.value_lt (by decide) hDigits).trans_le
      (Nat.pow_le_pow_right (by decide) ?_)
  exact (length_leadingDigits 8 string).trans hLength

/- A number has no more digits than its string characters. -/
theorem strtollOctal_lt (string : List UInt8) :
    strtollOctal string < 8 ^ string.length := by
  have hSkip :
      (string.dropWhile isspace).length ≤ string.length :=
    (List.dropWhile_sublist _).length_le
  unfold strtollOctal
  generalize string.dropWhile isspace = kept at hSkip ⊢
  have hSigned :
      ∀ (negative : Bool) (rest : List UInt8),
        rest.length ≤ string.length →
          (if negative = true then
            max (-2 ^ 63)
              (-(Positional.value 8 (leadingDigits 8 rest) :
                Int))
          else
            min (2 ^ 63 - 1)
              (Positional.value 8 (leadingDigits 8 rest) :
                Int)) <
            8 ^ string.length := by
    intro negative rest hRest
    have hLt := octal_lt hRest
    have hPos : (0 : Int) < 8 ^ string.length :=
      pow_pos (by decide) _
    have hCast :
        (Positional.value 8 (leadingDigits 8 rest) : Int) <
          8 ^ string.length := by
      exact_mod_cast hLt
    cases negative with
    | false => exact lt_of_le_of_lt (min_le_right _ _) hCast
    | true => exact max_lt (by omega) (by omega)
  cases kept with
  | nil => exact hSigned false [] (Nat.zero_le _)
  | cons sign rest =>
      rw [List.length_cons] at hSkip
      by_cases hMinus : sign = cChar '-'
      · simp only [if_pos hMinus]
        exact hSigned true rest (by omega)
      · by_cases hPlus : sign = cChar '+'
        · simp only [if_neg hMinus, if_pos hPlus]
          exact hSigned false rest (by omega)
        · simp only [if_neg hMinus, if_neg hPlus]
          exact
            hSigned false _ (by rw [List.length_cons]; omega)

/- A size field has room for 36 bits. -/
theorem size_lt
    {tar : List UInt8}
    {loc size : Nat}
    (hSize : readSizeAtLocation tar loc = some size) :
    size < 2 ^ 36 := by
  unfold readSizeAtLocation at hSize
  dsimp only at hSize
  split_ifs at hSize with hAscii hNegative
  cases hSize
  have hLt :=
    strtollOctal_lt
      (cBytes
        (readData tar (loc + tarSizePosition) tarSizeSize))
  have hLength :
      (cBytes
        (readData tar (loc + tarSizePosition)
          tarSizeSize)).length ≤ 12 :=
    le_trans (List.takeWhile_sublist _).length_le
      (List.length_take_le 12 _)
  have hPow :
      (8 : Int) ^
          (cBytes
            (readData tar (loc + tarSizePosition)
              tarSizeSize)).length ≤ 8 ^ 12 :=
    pow_le_pow_right₀ (by decide) hLength
  omega

/- So no header has more blocks than that behind it. -/
theorem dataBlocks_le (tar : List UInt8) (loc : Nat) :
    (readHeader tar loc).dataBlocks ≤ 2 ^ 27 := by
  unfold readHeader
  split
  · split
    · exact Nat.zero_le _
    · split
      · exact Nat.zero_le _
      · rename_i hSize
        have hLt := size_lt hSize
        unfold Header.dataBlocks
        dsimp only
        split_ifs
        · exact Nat.zero_le _
        · change (_ - 1) / 512 + 1 ≤ _
          omega
  · split
    · exact Nat.zero_le _
    · exact Nat.zero_le _
  · exact Nat.zero_le _
  · exact Nat.one_le_two_pow
  · split
    · exact Nat.zero_le _
    · rename_i hSize
      have hLt := size_lt hSize
      change _ / 512 ≤ _
      omega
  · exact Nat.zero_le _

/- The loop never leaves 64 bits in a file. -/
theorem next_lt
    {tar : List UInt8}
    {loc : Nat}
    (hTar : tar.length < 2 ^ 63)
    (hLoc : loc < tar.length) :
    (readHeader tar loc).next loc < 2 ^ 64 := by
  have hBlocks := dataBlocks_le tar loc
  change loc + (1 + (readHeader tar loc).dataBlocks) * 512 < _
  omega

end BRTar

end PlusWallet
