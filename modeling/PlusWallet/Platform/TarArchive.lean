import PlusWallet.Library.XorBytes
import PlusWallet.Platform.TarPaths

/-
  Well-formed archives of the ustar format, and when their
  extraction creates just what they contain.

  Main declarations:
    * `Entry`, `TarArchive`, `members`
    * `createMembers`
    * `Faithful`, `Regular`
    * `readHeader_entry`
    * `extraction_iff`
-/

namespace PlusWallet

namespace BRTar

open BRUtilMath

------------------------------------------------------------
-- Entries
------------------------------------------------------------

/- The entries of an archive by their type flags. -/
inductive Kind where
  | file
  | directory
  | hardLink
  | symbolicLink
  | extended
  | global
deriving DecidableEq

def Kind.flag : Kind → UInt8
  | .file => 48
  | .directory => 53
  | .hardLink => 49
  | .symbolicLink => 50
  | .extended => 120
  | .global => 103

/- Directories and links have no data behind their header. -/
def Kind.hasData : Kind → Bool
  | .file => true
  | .extended => true
  | .global => true
  | _ => false

/- A text of the portable characters, up to a width. -/
structure Text (width : Nat) where
  bytes : List UInt8
  short : bytes.length ≤ width
  plain : ∀ c ∈ bytes, c ≠ 0 ∧ c < 128

def Text.field {width : Nat} (text : Text width) : List UInt8 :=
  text.bytes ++ List.replicate (width - text.bytes.length) 0

/- An octal number of 12 characters, ended by blanks or NULs. -/
structure Octal (number : Nat) where
  digits : List UInt8
  stop : List UInt8
  width : digits.length + stop.length = 12
  some_digits : digits ≠ []
  octal : ∀ c ∈ digits, cChar '0' ≤ c ∧ c ≤ cChar '7'
  stops : ∀ c ∈ stop, c = 0 ∨ c = cChar ' '
  value :
    Positional.value 8
        (digits.map fun c => (c - cChar '0').toNat) =
      number

/-
  An entry with all fields of its header: name, owner, size,
  times, flag, linked name and device, prefix.
-/
structure Entry where
  kind : Kind
  name : Text 100
  owner : List.Vector UInt8 24
  times : List.Vector UInt8 20
  linked : List.Vector UInt8 188
  namePrefix : Text 155
  padding : List.Vector UInt8 12
  data : List UInt8
  size : Octal data.length
  data_eq : kind.hasData = false → data = []

namespace Entry

variable (entry : Entry)

/- The blocks of the data. -/
def blocks : Nat := (entry.data.length + 511) / 512

/- The part of the header behind the flag. -/
def behind : List UInt8 :=
  entry.linked.toList ++ entry.namePrefix.field ++
    entry.padding.toList

def header : List UInt8 :=
  entry.name.field ++ entry.owner.toList ++
    (entry.size.digits ++ entry.size.stop) ++
    entry.times.toList ++ [entry.kind.flag] ++ entry.behind

/- The blocks of an entry, the last one filled with zeros. -/
def render : List UInt8 :=
  entry.header ++ entry.data ++
    List.replicate (entry.blocks * 512 - entry.data.length) 0

/- The name with its prefix. -/
def fullName : List UInt8 :=
  if entry.namePrefix.bytes = [] then entry.name.bytes
  else
    entry.namePrefix.bytes ++ cChar '/' :: entry.name.bytes

end Entry

------------------------------------------------------------
-- Archives
------------------------------------------------------------

def renderEntries (entries : List Entry) : List UInt8 :=
  entries.flatMap Entry.render

def zeroBlocks (count : Nat) : List UInt8 :=
  List.replicate (count * 512) 0

/- Entries and at least two blocks of zeros. -/
structure TarArchive where
  entries : List Entry
  zeros : Nat
  two_zeros : 2 ≤ zeros
  fits :
    (renderEntries entries ++ zeroBlocks zeros).length < 2 ^ 63

def TarArchive.bytes (archive : TarArchive) : List UInt8 :=
  renderEntries archive.entries ++ zeroBlocks archive.zeros

/- Where the headers of entries are. -/
def places : Nat → List Entry → List Nat
  | _, [] => []
  | loc, entry :: entries =>
      loc :: places (loc + entry.render.length) entries

def zeroPlaces (loc count : Nat) : List Nat :=
  (List.range count).map fun i => loc + i * 512

/- The blocks of an archive that are headers or zeros. -/
def TarArchive.headers (archive : TarArchive) : List Nat :=
  places 0 archive.entries ++
    zeroPlaces (renderEntries archive.entries).length
      archive.zeros

------------------------------------------------------------
-- Members
------------------------------------------------------------

/- What an archive contains. -/
inductive Member where
  | file (path : Path) (content : List UInt8)
  | directory (path : Path)
deriving DecidableEq

def Member.path : Member → Path
  | .file path _ => path
  | .directory path => path

/-
  The files and directories of entries.  `paxPath` is the path
  that a `pax` header gives, if any: an extended header to the
  next entry, a global one to all that follow.
-/
def members
    (paxPath : List UInt8 → Option (List UInt8))
    (path : List UInt8) :
    Option (List UInt8) → Option (List UInt8) →
      List Entry → List Member
  | _, _, [] => []
  | every, next, entry :: entries =>
      let name := (next <|> every).getD entry.fullName
      match entry.kind with
      | .file =>
          .file (appendingPathComponent path name) entry.data ::
            members paxPath path every none entries
      | .directory =>
          .directory (appendingPathComponent path name) ::
            members paxPath path every none entries
      | .hardLink => members paxPath path every none entries
      | .symbolicLink => members paxPath path every none entries
      | .extended =>
          members paxPath path every
            (paxPath entry.data <|> next) entries
      | .global =>
          members paxPath path (paxPath entry.data <|> every)
            next entries

/- The same, with the names of the headers' name fields. -/
def fieldMember (path : List UInt8) (entry : Entry) :
    Option Member :=
  match entry.kind with
  | .file =>
      some
        (.file (appendingPathComponent path entry.name.bytes)
          entry.data)
  | .directory =>
      some
        (.directory
          (appendingPathComponent path entry.name.bytes))
  | _ => none

/- The pieces that a content is written in. -/
def piecesOf (content : List UInt8) : List (List UInt8) :=
  if content = [] then []
  else readPieces content 0 content.length

def createMember
    {FS : Type}
    (fm : FileManager FS)
    (fs : FS) : Member → Option FS
  | .file path content =>
      makeFile fm fs path (piecesOf content)
  | .directory path => makeDirectory fm fs path

/- The members are created one after another. -/
def createMembers
    {FS : Type}
    (fm : FileManager FS) :
    FS → List Member → Outcome FS
  | fs, [] => .success fs
  | fs, member :: rest =>
      match createMember fm fs member with
      | none => .threw
      | some fs => createMembers fm fs rest

/-
  Whatever the file system does, the members are created in
  order, from headers that are read at headers.
-/
def Faithful
    (paxPath : List UInt8 → Option (List UInt8))
    (path : List UInt8)
    (archive : TarArchive) : Prop :=
  ∀ (FS : Type) (fm : FileManager FS) (fs : FS),
    let run := extract fm path archive.bytes 0 fs
    run.outcome =
        createMembers fm fs
          (members paxPath path none none archive.entries) ∧
      run.visited <+: archive.headers ∧
      (∀ fs', run.outcome = .success fs' →
        run.visited = archive.headers)

/- Whatever the file system does, no run traps. -/
def NeverTraps (path : List UInt8) (tar : TarFile) : Prop :=
  ∀ (FS : Type) (fm : FileManager FS) (fs : FS),
    (extract fm path tar.bytes 0 fs).outcome ≠ .trapped

/-
  Extended headers of one block, global headers of whole blocks,
  and no name but that of the name field.
-/
structure Regular
    (paxPath : List UInt8 → Option (List UInt8))
    (path : List UInt8)
    (archive : TarArchive) : Prop where
  extended :
    ∀ entry ∈ archive.entries, entry.kind = .extended →
      0 < entry.data.length ∧ entry.data.length ≤ 512
  global :
    ∀ entry ∈ archive.entries, entry.kind = .global →
      512 ∣ entry.data.length
  named :
    (members paxPath path none none archive.entries).map
        Member.path =
      (archive.entries.filterMap (fieldMember path)).map
        Member.path

/- A header whose size is read is one of these. -/
def ReadsSize (tar : List UInt8) (loc : Nat) : Prop :=
  readTypeAtLocation tar loc = .unsupported ∨
    (readTypeAtLocation tar loc = .file ∧
      (readNameAtLocation tar loc).isSome)

/- An ASCII size without a minus sign in front of its number. -/
def SoundSize (tar : List UInt8) (loc : Nat) : Prop :=
  isAscii (readData tar (loc + tarSizePosition) tarSizeSize) =
      true ∧
    0 ≤
      strtollOctal
        (cBytes
          (readData tar (loc + tarSizePosition) tarSizeSize))

/- The headers that are come to have sound sizes. -/
def SoundSizes (tar : TarFile) : Prop :=
  ∀ loc ∈ locations tar.bytes 0,
    ReadsSize tar.bytes loc → SoundSize tar.bytes loc

------------------------------------------------------------
-- Fields
------------------------------------------------------------

theorem readData_middle
    (front middle rest : List UInt8) :
    readData (front ++ middle ++ rest) front.length
        middle.length =
      middle := by
  rw [readData, List.append_assoc, List.drop_left,
    List.take_left]

/- The same at numbers that are the lengths. -/
theorem readData_of_split
    {tar front middle rest : List UInt8}
    {location length : Nat}
    (hTar : tar = front ++ middle ++ rest)
    (hLocation : location = front.length)
    (hLength : length = middle.length) :
    readData tar location length = middle := by
  rw [hTar, hLocation, hLength, readData_middle]

theorem length_field
    {width : Nat}
    (text : Text width) :
    text.field.length = width := by
  have hShort := text.short
  rw [Text.field, List.length_append, List.length_replicate]
  omega

theorem cBytes_field
    {width : Nat}
    (text : Text width) :
    cBytes text.field = text.bytes := by
  have hPlain :
      ∀ c ∈ text.bytes, decide (c ≠ 0) = true :=
    fun c hMem => decide_eq_true (text.plain c hMem).1
  rw [Text.field, cBytes, List.takeWhile_append_of_pos hPlain]
  cases width - text.bytes.length with
  | zero => exact List.append_nil _
  | succ count =>
      rw [List.replicate_succ,
        List.takeWhile_cons_of_neg (by decide), List.append_nil]

theorem isAscii_field
    {width : Nat}
    (text : Text width) :
    isAscii text.field = true := by
  rw [isAscii, List.all_eq_true]
  intro c hMem
  rcases List.mem_append.mp hMem with hText | hZero
  · exact decide_eq_true (text.plain c hText).2
  · rw [List.eq_of_mem_replicate hZero]
    rfl

/- An octal digit is a digit and no blank or sign. -/
theorem octal_digit
    {c : UInt8}
    (hOctal : cChar '0' ≤ c ∧ c ≤ cChar '7') :
    c ≠ 0 ∧ c < 128 ∧ isspace c = false ∧ c ≠ cChar '-' ∧
      c ≠ cChar '+' ∧
      digitOf c = some (c - cChar '0').toNat ∧
      (c - cChar '0').toNat < 8 := by
  have hAll :
      ∀ c : UInt8, cChar '0' ≤ c ∧ c ≤ cChar '7' →
        c ≠ 0 ∧ c < 128 ∧ isspace c = false ∧
          c ≠ cChar '-' ∧ c ≠ cChar '+' ∧
          digitOf c = some (c - cChar '0').toNat ∧
          (c - cChar '0').toNat < 8 := by
    refine XorBytes.forall_byte ?_
    decide +kernel
  exact hAll c hOctal

/- Digits up to a character that is none. -/
theorem leadingDigits_octal
    {digits rest : List UInt8}
    (hOctal : ∀ c ∈ digits, cChar '0' ≤ c ∧ c ≤ cChar '7')
    (hRest : leadingDigits 8 rest = []) :
    leadingDigits 8 (digits ++ rest) =
      digits.map fun c => (c - cChar '0').toNat := by
  induction digits with
  | nil => exact hRest
  | cons c digits ih =>
      rw [List.forall_mem_cons] at hOctal
      rcases octal_digit hOctal.1 with
        ⟨-, -, -, -, -, hDigit, hLt⟩
      rw [List.cons_append, leadingDigits, hDigit]
      dsimp only
      rw [if_pos hLt, ih hOctal.2]
      rfl

/- A size field is read as its number. -/
theorem strtollOctal_octal
    {number : Nat}
    (field : Octal number) :
    strtollOctal (cBytes (field.digits ++ field.stop)) =
      number := by
  have hDigits := field.octal
  have hValue := field.value
  have hWidth := field.width
  have hSome := field.some_digits
  have hFront :
      ∀ c ∈ field.digits, decide (c ≠ 0) = true :=
    fun c hMem => decide_eq_true (octal_digit (hDigits c hMem)).1
  have hBlank :
      leadingDigits 8 (field.stop.takeWhile (· ≠ 0)) = [] := by
    cases hStop : field.stop with
    | nil => rfl
    | cons c rest =>
        rcases field.stops c (by rw [hStop]; simp) with
          rfl | rfl
        · rfl
        · rfl
  have hBytes :
      cBytes (field.digits ++ field.stop) =
        field.digits ++ field.stop.takeWhile (· ≠ 0) :=
    List.takeWhile_append_of_pos hFront
  have hRead := leadingDigits_octal hDigits hBlank
  have hSmall : number < 2 ^ 36 := by
    have hLt := @octal_lt field.digits field.digits (le_refl _)
    have hOnly := @leadingDigits_octal field.digits [] hDigits rfl
    rw [List.append_nil] at hOnly
    rw [hOnly, hValue] at hLt
    refine hLt.trans_le ?_
    have hPow : 8 ^ field.digits.length ≤ 8 ^ 12 :=
      Nat.pow_le_pow_right (by decide) (by omega)
    exact hPow
  rw [hBytes]
  cases hFirst : field.digits with
  | nil => exact absurd hFirst hSome
  | cons c rest =>
      rw [hFirst] at hRead
      rcases octal_digit (hDigits c (by rw [hFirst]; simp)) with
        ⟨-, -, hSpace, hMinus, hPlus, -, -⟩
      unfold strtollOctal
      rw [List.cons_append,
        List.dropWhile_cons_of_neg (by simp [hSpace])]
      simp only [if_neg hMinus, if_neg hPlus,
        Bool.false_eq_true, if_false]
      rw [← List.cons_append, hRead, ← hFirst, hValue]
      omega

theorem isAscii_octal
    {number : Nat}
    (field : Octal number) :
    isAscii (field.digits ++ field.stop) = true := by
  rw [isAscii, List.all_eq_true]
  intro c hMem
  rcases List.mem_append.mp hMem with hDigit | hStop
  · exact
      decide_eq_true (octal_digit (field.octal c hDigit)).2.1
  · rcases field.stops c hStop with rfl | rfl
    · rfl
    · rfl

------------------------------------------------------------
-- Headers of Entries
------------------------------------------------------------

namespace Entry

/- What the loop reads of the header. -/
def expected (entry : Entry) : Header :=
  match entry.kind with
  | .file => .file entry.name.field entry.data.length
  | .directory => .directory entry.name.field
  | .hardLink => .skip (entry.data.length / tarBlockSize)
  | .symbolicLink => .skip (entry.data.length / tarBlockSize)
  | .extended => .skip 1
  | .global => .skip (entry.data.length / tarBlockSize)

variable (entry : Entry)

theorem length_sizeField :
    (entry.size.digits ++ entry.size.stop).length = 12 := by
  rw [List.length_append]
  exact entry.size.width

theorem length_header : entry.header.length = 512 := by
  have hWidth := entry.size.width
  simp [header, behind, length_field]
  omega

theorem length_render :
    entry.render.length = (1 + entry.blocks) * 512 := by
  have hRoom : entry.data.length ≤ entry.blocks * 512 := by
    unfold blocks
    omega
  rw [render, List.length_append, List.length_append,
    length_header, List.length_replicate]
  omega

section Reading

variable (front rest : List UInt8)

theorem readName_entry :
    readNameAtLocation (front ++ entry.render ++ rest)
        front.length =
      some entry.name.field := by
  have hRead :
      readData (front ++ entry.render ++ rest)
          (front.length + tarNamePosition) tarNameSize =
        entry.name.field := by
    refine
      @readData_of_split _ front _
        (entry.owner.toList ++
          (entry.size.digits ++ entry.size.stop) ++
          entry.times.toList ++ [entry.kind.flag] ++
          entry.behind ++ entry.data ++
          List.replicate
            (entry.blocks * 512 - entry.data.length) 0 ++
          rest) _ _ ?_ rfl (length_field entry.name).symm
    simp only [render, header, List.append_assoc]
  unfold readNameAtLocation
  dsimp only
  rw [hRead, if_pos (isAscii_field entry.name)]

theorem readType_entry :
    readTypeAtLocation (front ++ entry.render ++ rest)
        front.length =
      .init [entry.kind.flag] := by
  have hRead :
      readData (front ++ entry.render ++ rest)
          (front.length + tarTypePosition) 1 =
        [entry.kind.flag] := by
    refine
      @readData_of_split _
        (front ++ entry.name.field ++ entry.owner.toList ++
          (entry.size.digits ++ entry.size.stop) ++
          entry.times.toList) _
        (entry.behind ++ entry.data ++
          List.replicate
            (entry.blocks * 512 - entry.data.length) 0 ++
          rest) _ _ ?_ ?_ rfl
    · simp only [render, header, List.append_assoc]
    · rw [List.length_append, List.length_append,
        List.length_append, List.length_append, length_field,
        length_sizeField, List.Vector.toList_length,
        List.Vector.toList_length]
      rfl
  unfold readTypeAtLocation
  rw [hRead]

theorem readSize_entry :
    readSizeAtLocation (front ++ entry.render ++ rest)
        front.length =
      some entry.data.length := by
  have hRead :
      readData (front ++ entry.render ++ rest)
          (front.length + tarSizePosition) tarSizeSize =
        entry.size.digits ++ entry.size.stop := by
    refine
      @readData_of_split _
        (front ++ entry.name.field ++ entry.owner.toList) _
        (entry.times.toList ++ [entry.kind.flag] ++
          entry.behind ++ entry.data ++
          List.replicate
            (entry.blocks * 512 - entry.data.length) 0 ++
          rest) _ _ ?_ ?_ (length_sizeField entry).symm
    · simp only [render, header, List.append_assoc]
    · rw [List.length_append, List.length_append, length_field,
        List.Vector.toList_length]
      rfl
  unfold readSizeAtLocation
  dsimp only
  rw [hRead, if_pos (isAscii_octal entry.size),
    strtollOctal_octal, if_neg (by omega), Int.toNat_natCast]

/- The header of an entry is read as what it is. -/
theorem readHeader_entry :
    readHeader (front ++ entry.render ++ rest) front.length =
      entry.expected := by
  unfold readHeader expected
  rw [readType_entry, readName_entry, readSize_entry]
  cases entry.kind <;> rfl

end Reading

end Entry

------------------------------------------------------------
-- Contents
------------------------------------------------------------

/- Pieces depend on the content only, not on where it stands. -/
theorem readPieces_congr
    (content front rest front' rest' : List UInt8) :
    readPieces (front ++ content ++ rest) front.length
        content.length =
      readPieces (front' ++ content ++ rest') front'.length
        content.length := by
  induction hCount : content.length using Nat.strong_induction_on
    generalizing content front front' with
  | h count ih =>
      rw [readPieces]
      conv_rhs => rw [readPieces]
      by_cases hLong : maxSize < count
      · rw [if_pos hLong, if_pos hLong]
        have hSplit :=
          List.take_append_drop maxSize content
        have hTake : (content.take maxSize).length = maxSize := by
          rw [List.length_take]
          exact Nat.min_eq_left (by rw [hCount]; exact hLong.le)
        have hDrop :
            (content.drop maxSize).length = count - maxSize := by
          rw [List.length_drop, hCount]
        have hPiece :
            ∀ before after : List UInt8,
              readData (before ++ content ++ after)
                  before.length maxSize =
                content.take maxSize := by
          intro before after
          refine
            @readData_of_split _ before _
              (content.drop maxSize ++ after) _ _ ?_ rfl
              hTake.symm
          conv_lhs => rw [← hSplit]
          simp only [List.append_assoc]
        have hMove :
            ∀ before after : List UInt8,
              before ++ content ++ after =
                before ++ content.take maxSize ++
                  content.drop maxSize ++ after := by
          intro before after
          conv_lhs => rw [← hSplit]
          simp only [List.append_assoc]
        have hRest :=
          ih (count - maxSize)
            (Nat.sub_lt (Nat.zero_lt_of_lt hLong) (by decide))
            (content.drop maxSize)
            (front ++ content.take maxSize)
            (front' ++ content.take maxSize) hDrop
        rw [← hMove, ← hMove, List.length_append, hTake,
          List.length_append, hTake] at hRest
        rw [hPiece, hPiece, hRest]
      · rw [if_neg hLong, if_neg hLong]
        have hWhole := readData_middle front content rest
        have hOther := readData_middle front' content rest'
        rw [hCount] at hWhole hOther
        rw [hWhole, hOther]

namespace Entry

variable (entry : Entry)

/- The data of an entry is read as it was written. -/
theorem content_entry (front rest : List UInt8) :
    contentAtLocation (front ++ entry.render ++ rest)
        front.length entry.data.length =
      piecesOf entry.data := by
  unfold contentAtLocation piecesOf
  by_cases hEmpty : entry.data = []
  · rw [hEmpty]
    rfl
  · rw [if_neg hEmpty,
      if_neg fun hZero =>
        hEmpty (List.length_eq_zero_iff.mp hZero)]
    have hPieces :=
      readPieces_congr entry.data (front ++ entry.header)
        (List.replicate
          (entry.blocks * 512 - entry.data.length) 0 ++ rest)
        [] []
    rw [List.length_append, length_header] at hPieces
    simp only [List.nil_append, List.append_nil,
      List.length_nil] at hPieces
    rw [← hPieces]
    congr 1
    simp only [render, List.append_assoc]

------------------------------------------------------------
-- Positions
------------------------------------------------------------

/- The loop moves on by the blocks of the entry. -/
def Steady : Prop :=
  entry.expected.dataBlocks = entry.blocks

theorem steady_iff :
    entry.Steady ↔
      (entry.kind = .extended →
        0 < entry.data.length ∧ entry.data.length ≤ 512) ∧
      (entry.kind = .global → 512 ∣ entry.data.length) := by
  have hData := entry.data_eq
  unfold Steady expected blocks
  cases hKind : entry.kind with
  | file =>
      refine
        iff_of_true ?_
          ⟨fun h => (by cases h), fun h => (by cases h)⟩
      change
        (if entry.data.length = 0 then 0
          else (entry.data.length - 1) / 512 + 1) = _
      split_ifs <;> omega
  | directory =>
      rw [hKind] at hData
      refine
        iff_of_true ?_
          ⟨fun h => (by cases h), fun h => (by cases h)⟩
      rw [hData rfl]
      rfl
  | hardLink =>
      rw [hKind] at hData
      refine
        iff_of_true ?_
          ⟨fun h => (by cases h), fun h => (by cases h)⟩
      rw [hData rfl]
      rfl
  | symbolicLink =>
      rw [hKind] at hData
      refine
        iff_of_true ?_
          ⟨fun h => (by cases h), fun h => (by cases h)⟩
      rw [hData rfl]
      rfl
  | extended =>
      change 1 = _ ↔ _
      constructor
      · intro hOne
        exact ⟨fun _ => by omega, fun h => (by cases h)⟩
      · rintro ⟨hRange, -⟩
        have hLength := hRange rfl
        omega
  | global =>
      change entry.data.length / 512 = _ ↔ _
      constructor
      · intro hSame
        exact ⟨fun h => (by cases h), fun _ => by omega⟩
      · rintro ⟨-, hWhole⟩
        have hDvd := hWhole rfl
        omega

theorem next_of_steady
    {entry : Entry}
    (hSteady : entry.Steady)
    (loc : Nat) :
    entry.expected.next loc = loc + entry.render.length := by
  rw [Header.next, hSteady, length_render]

theorem steady_of_next
    {entry : Entry}
    {loc : Nat}
    (hNext :
      entry.expected.next loc = loc + entry.render.length) :
    entry.Steady := by
  rw [length_render] at hNext
  change
    loc + (1 + entry.expected.dataBlocks) * 512 =
      loc + (1 + entry.blocks) * 512 at hNext
  unfold Steady
  omega

end Entry

------------------------------------------------------------
-- Steps of the Loop
------------------------------------------------------------

section Steps

variable {FS : Type} (fm : FileManager FS)
variable (path : List UInt8)

theorem extract_success
    {tar : List UInt8}
    {loc : Nat}
    {fs fs' : FS}
    (hTar : tar.length < 2 ^ 63)
    (hLoc : loc < tar.length)
    (hPerform :
      perform fm path tar loc fs (readHeader tar loc) =
        .success fs') :
    extract fm path tar loc fs =
      (extract fm path tar ((readHeader tar loc).next loc)
        fs').after loc ((readHeader tar loc).paths path) := by
  have hNext := next_lt hTar hLoc
  rw [extract, if_pos hLoc]
  dsimp only
  rw [hPerform]
  dsimp only
  rw [if_neg (Nat.not_le_of_lt hNext)]

theorem extract_threw
    {tar : List UInt8}
    {loc : Nat}
    {fs : FS}
    (hLoc : loc < tar.length)
    (hPerform :
      perform fm path tar loc fs (readHeader tar loc) =
        .threw) :
    extract fm path tar loc fs =
      ⟨.threw, [loc], (readHeader tar loc).paths path⟩ := by
  rw [extract, if_pos hLoc]
  dsimp only
  rw [hPerform]

/- What an entry makes of the file system. -/
theorem perform_entry
    (entry : Entry)
    (front rest : List UInt8)
    (fs : FS) :
    perform fm path (front ++ entry.render ++ rest)
        front.length fs entry.expected =
      createMembers fm fs (fieldMember path entry).toList := by
  have hName :
      appendingPathComponent path entry.name.field =
        appendingPathComponent path entry.name.bytes := by
    have hPlain :
        cBytes entry.name.bytes = entry.name.bytes :=
      List.takeWhile_eq_self_iff.mpr fun c hMem =>
        decide_eq_true (entry.name.plain c hMem).1
    rw [appendingPathComponent, appendingPathComponent,
      cBytes_field, hPlain]
  unfold Entry.expected fieldMember
  cases entry.kind with
  | file =>
      dsimp only
      rw [perform, hName, entry.content_entry]
      rfl
  | directory =>
      dsimp only
      rw [perform, hName]
      rfl
  | hardLink => rfl
  | symbolicLink => rfl
  | extended => rfl
  | global => rfl

------------------------------------------------------------
-- Blocks of Zeros
------------------------------------------------------------

theorem zeroBlocks_succ (count : Nat) :
    zeroBlocks (count + 1) =
      List.replicate 512 0 ++ zeroBlocks count := by
  rw [zeroBlocks, zeroBlocks, ← List.replicate_add]
  congr 1
  omega

theorem zeroPlaces_succ (loc count : Nat) :
    zeroPlaces loc (count + 1) =
      loc :: zeroPlaces (loc + 512) count := by
  rw [zeroPlaces, List.range_succ_eq_map, List.map_cons,
    List.map_map, zeroPlaces, Nat.zero_mul, Nat.add_zero]
  congr 1
  apply List.map_congr_left
  intro i _
  change loc + (i + 1) * 512 = loc + 512 + i * 512
  omega

theorem readHeader_zeros
    (front : List UInt8)
    (count : Nat) :
    readHeader (front ++ zeroBlocks (count + 1))
        front.length =
      .skip 0 := by
  have hRead :
      readData (front ++ zeroBlocks (count + 1))
          (front.length + tarTypePosition) 1 =
        [0] := by
    refine
      @readData_of_split _ (front ++ List.replicate 156 0) _
        (List.replicate 355 0 ++ zeroBlocks count) _ _ ?_ ?_
        rfl
    · rw [zeroBlocks_succ]
      simp only [List.append_assoc]
      rfl
    · rw [List.length_append, List.length_replicate]
  unfold readHeader readTypeAtLocation
  rw [hRead]
  rfl

/- Blocks of zeros are passed over, one by one. -/
theorem extract_zeros
    {front : List UInt8}
    {count : Nat}
    (hFits : (front ++ zeroBlocks count).length < 2 ^ 63)
    (fs : FS) :
    extract fm path (front ++ zeroBlocks count) front.length
        fs =
      ⟨.success fs, zeroPlaces front.length count, []⟩ := by
  induction count generalizing front with
  | zero =>
      rw [extract, if_neg]
      · rfl
      · simp [zeroBlocks]
  | succ count ih =>
      have hLoc :
          front.length <
            (front ++ zeroBlocks (count + 1)).length := by
        rw [List.length_append, zeroBlocks,
          List.length_replicate]
        omega
      have hNext := readHeader_zeros front count
      have hMove :
          front ++ zeroBlocks (count + 1) =
            front ++ List.replicate 512 0 ++
              zeroBlocks count := by
        rw [zeroBlocks_succ, List.append_assoc]
      have hRest :=
        @ih (front ++ List.replicate 512 0)
          (by rw [← hMove]; exact hFits)
      rw [← hMove, List.length_append, List.length_replicate]
        at hRest
      rw [extract_success fm path hFits hLoc
          (by rw [hNext]; rfl),
        hNext, zeroPlaces_succ]
      change
        (extract fm path _ (front.length + 512) fs).after _ _ = _
      rw [hRest]
      rfl

------------------------------------------------------------
-- Runs over Entries
------------------------------------------------------------

theorem createMembers_append
    (fs : FS)
    (front rest : List Member) :
    createMembers fm fs (front ++ rest) =
      match createMembers fm fs front with
      | .success fs => createMembers fm fs rest
      | .threw => .threw
      | .trapped => .trapped := by
  induction front generalizing fs with
  | nil => rfl
  | cons member front ih =>
      rw [List.cons_append, createMembers, createMembers]
      cases createMember fm fs member with
      | none => rfl
      | some fs => exact ih fs

theorem createMembers_ne_trapped
    (fs : FS)
    (list : List Member) :
    createMembers fm fs list ≠ .trapped := by
  induction list generalizing fs with
  | nil => intro hTrapped; cases hTrapped
  | cons member list ih =>
      rw [createMembers]
      cases createMember fm fs member with
      | none => intro hTrapped; cases hTrapped
      | some fs => exact ih fs

theorem filterMap_cons_toList
    (entry : Entry)
    (entries : List Entry) :
    (entry :: entries).filterMap (fieldMember path) =
      (fieldMember path entry).toList ++
        entries.filterMap (fieldMember path) := by
  rw [List.filterMap_cons]
  cases fieldMember path entry <;> rfl

/- The bytes around an entry in an archive. -/
theorem archive_split
    (front : List UInt8)
    (entry : Entry)
    (entries : List Entry)
    (zeros : Nat) :
    front ++ renderEntries (entry :: entries) ++
        zeroBlocks zeros =
      front ++ entry.render ++
        (renderEntries entries ++ zeroBlocks zeros) ∧
      front ++ renderEntries (entry :: entries) ++
          zeroBlocks zeros =
        front ++ entry.render ++ renderEntries entries ++
          zeroBlocks zeros := by
  simp only [renderEntries, List.flatMap_cons,
    List.append_assoc, and_self]

theorem length_renderEntries_cons
    (entry : Entry)
    (entries : List Entry) :
    (renderEntries (entry :: entries)).length =
      entry.render.length + (renderEntries entries).length := by
  rw [renderEntries, List.flatMap_cons, List.length_append]
  rfl

/- Steady entries are extracted from their headers. -/
theorem extract_entries
    {entries : List Entry}
    (hSteady : ∀ entry ∈ entries, entry.Steady)
    {front : List UInt8}
    {zeros : Nat}
    (hFits :
      (front ++ renderEntries entries ++
        zeroBlocks zeros).length < 2 ^ 63)
    (fs : FS) :
    (extract fm path
          (front ++ renderEntries entries ++ zeroBlocks zeros)
          front.length fs).outcome =
        createMembers fm fs
          (entries.filterMap (fieldMember path)) ∧
      (extract fm path
          (front ++ renderEntries entries ++ zeroBlocks zeros)
          front.length fs).visited <+:
        places front.length entries ++
          zeroPlaces
            (front.length + (renderEntries entries).length)
            zeros ∧
      (∀ fs',
        (extract fm path
            (front ++ renderEntries entries ++
              zeroBlocks zeros)
            front.length fs).outcome = .success fs' →
          (extract fm path
              (front ++ renderEntries entries ++
                zeroBlocks zeros)
              front.length fs).visited =
            places front.length entries ++
              zeroPlaces
                (front.length +
                  (renderEntries entries).length)
                zeros) := by
  induction entries generalizing front fs with
  | nil =>
      have hNone : renderEntries [] = [] := rfl
      rw [hNone, List.append_nil] at hFits ⊢
      rw [extract_zeros fm path hFits fs]
      exact
        ⟨rfl, List.prefix_refl _, fun _ _ => rfl⟩
  | cons entry entries ih =>
      rw [List.forall_mem_cons] at hSteady
      rcases archive_split front entry entries zeros with
        ⟨hSplit, hMove⟩
      have hHeader :=
        entry.readHeader_entry front
          (renderEntries entries ++ zeroBlocks zeros)
      rw [← hSplit] at hHeader
      have hPerform :=
        perform_entry fm path entry front
          (renderEntries entries ++ zeroBlocks zeros) fs
      rw [← hSplit, ← hHeader] at hPerform
      have hSize := entry.length_render
      have hLoc :
          front.length <
            (front ++ renderEntries (entry :: entries) ++
              zeroBlocks zeros).length := by
        rw [List.length_append, List.length_append,
          length_renderEntries_cons]
        omega
      have hNext := Entry.next_of_steady hSteady.1 front.length
      rw [filterMap_cons_toList, createMembers_append, places]
      cases hMade :
          createMembers fm fs
            (fieldMember path entry).toList with
      | trapped =>
          exact absurd hMade (createMembers_ne_trapped fm fs _)
      | threw =>
          rw [hMade] at hPerform
          rw [extract_threw fm path hLoc hPerform]
          refine
            ⟨rfl, ?_, fun fs' hSuccess => by cases hSuccess⟩
          exact
            List.prefix_append_of_prefix
              (List.cons_prefix_cons.mpr
                ⟨rfl, List.nil_prefix⟩)
      | success after =>
          rw [hMade] at hPerform
          rw [extract_success fm path hFits hLoc hPerform,
            hHeader, hNext, length_renderEntries_cons,
            ← Nat.add_assoc, ← List.length_append]
          have hRest :=
            @ih hSteady.2 (front ++ entry.render)
              (by rw [← hMove]; exact hFits) after
          rw [← hMove] at hRest
          rcases hRest with ⟨hOutcome, hPrefix, hWhole⟩
          refine ⟨hOutcome, ?_, ?_⟩
          · rw [List.cons_append]
            exact List.cons_prefix_cons.mpr ⟨rfl, hPrefix⟩
          · intro fs' hSuccess
            exact
              congrArg (front.length :: ·) (hWhole fs' hSuccess)

end Steps

------------------------------------------------------------
-- A Recording File System
------------------------------------------------------------

/- The paths that were made, where nothing throws. -/
def recorder : FileManager (List Path) where
  fileExists := fun _ _ => false
  removeItem := fun fs _ => some fs
  writeEmpty := fun fs path => some (fs ++ [path])
  createFile := fun fs path => fs ++ [path]
  forWriting := fun _ _ => true
  write := fun fs _ _ => fs
  createDirectory := fun fs path => some (fs ++ [path])

theorem createMember_recorder
    (fs : List Path)
    (member : Member) :
    createMember recorder fs member =
      some (fs ++ [member.path]) := by
  have hWrites :
      ∀ (path : Path) (pieces : List (List UInt8))
        (fs : List Path),
        pieces.foldl
            (fun fs piece => recorder.write fs path piece) fs =
          fs := by
    intro path pieces fs
    induction pieces with
    | nil => rfl
    | cons piece pieces ih => exact ih
  cases member with
  | directory path => rfl
  | file path content =>
      change makeFile recorder fs path (piecesOf content) = _
      unfold makeFile
      by_cases hEmpty : piecesOf content = []
      · rw [hEmpty]
        rfl
      · simp only [clear, recorder, Bool.false_eq_true,
          if_false, Option.bind_eq_bind, Option.bind_some,
          if_neg hEmpty, if_true]
        exact congrArg some (hWrites path _ _)

theorem createMembers_recorder
    (fs : List Path)
    (list : List Member) :
    createMembers recorder fs list =
      .success (fs ++ list.map Member.path) := by
  induction list generalizing fs with
  | nil =>
      rw [List.map_nil, List.append_nil]
      rfl
  | cons member list ih =>
      rw [createMembers, createMember_recorder]
      dsimp only
      rw [ih, List.map_cons, List.append_assoc]
      rfl

/- A run visits the place that it starts at first. -/
theorem head_visited
    {FS : Type}
    (fm : FileManager FS)
    (path tar : List UInt8)
    (loc : Nat)
    (fs : FS) :
    (extract fm path tar loc fs).visited = [] ∨
      (extract fm path tar loc fs).visited.head? =
        some loc := by
  fun_cases extract fm path tar loc fs with
  | case1 => exact Or.inr rfl
  | case2 => exact Or.inr rfl
  | case3 => exact Or.inr rfl
  | case4 => exact Or.inr rfl
  | case5 => exact Or.inl rfl

theorem head_places
    (loc : Nat)
    (entries : List Entry)
    {zeros : Nat}
    (hZeros : 0 < zeros) :
    (places loc entries ++
        zeroPlaces (loc + (renderEntries entries).length)
          zeros).head? =
      some loc := by
  cases entries with
  | cons entry entries => rfl
  | nil =>
      cases zeros with
      | zero => cases hZeros
      | succ zeros =>
          rw [zeroPlaces_succ]
          rfl

/- Headers that are read at headers belong to steady entries. -/
theorem steady_of_visited
    (path : List UInt8)
    {entries : List Entry}
    {front : List UInt8}
    {zeros : Nat}
    (hZeros : 0 < zeros)
    (hFits :
      (front ++ renderEntries entries ++
        zeroBlocks zeros).length < 2 ^ 63)
    (fs : List Path)
    (hVisited :
      (extract recorder path
          (front ++ renderEntries entries ++ zeroBlocks zeros)
          front.length fs).visited =
        places front.length entries ++
          zeroPlaces
            (front.length + (renderEntries entries).length)
            zeros) :
    ∀ entry ∈ entries, entry.Steady := by
  induction entries generalizing front fs with
  | nil => exact List.forall_mem_nil _
  | cons entry entries ih =>
      rcases archive_split front entry entries zeros with
        ⟨hSplit, hMove⟩
      have hHeader :=
        entry.readHeader_entry front
          (renderEntries entries ++ zeroBlocks zeros)
      rw [← hSplit] at hHeader
      have hPerform :=
        perform_entry recorder path entry front
          (renderEntries entries ++ zeroBlocks zeros) fs
      rw [← hSplit, ← hHeader, createMembers_recorder]
        at hPerform
      have hSize := entry.length_render
      have hLoc :
          front.length <
            (front ++ renderEntries (entry :: entries) ++
              zeroBlocks zeros).length := by
        rw [List.length_append, List.length_append,
          length_renderEntries_cons]
        omega
      rw [extract_success recorder path hFits hLoc hPerform,
        hHeader, places, length_renderEntries_cons,
        ← Nat.add_assoc] at hVisited
      have hTail :
          (extract recorder path
              (front ++ renderEntries (entry :: entries) ++
                zeroBlocks zeros)
              (entry.expected.next front.length)
              (fs ++ (fieldMember path entry).toList.map
                Member.path)).visited =
            places (front.length + entry.render.length)
                entries ++
              zeroPlaces
                (front.length + entry.render.length +
                  (renderEntries entries).length)
                zeros :=
        (List.cons.inj hVisited).2
      have hHead :=
        head_places (front.length + entry.render.length)
          entries hZeros
      rw [← hTail] at hHead
      have hSteady : entry.Steady := by
        apply Entry.steady_of_next
        rcases head_visited recorder path
            (front ++ renderEntries (entry :: entries) ++
              zeroBlocks zeros)
            (entry.expected.next front.length)
            (fs ++ (fieldMember path entry).toList.map
              Member.path) with hNone | hSome
        · rw [hNone] at hHead
          cases hHead
        · rw [hSome] at hHead
          exact Option.some_injective _ hHead
      have hNext := Entry.next_of_steady hSteady front.length
      rw [hNext, ← List.length_append] at hTail
      rw [hMove] at hTail hFits
      exact
        List.forall_mem_cons.mpr
          ⟨hSteady, ih hFits _ hTail⟩

------------------------------------------------------------
-- Names
------------------------------------------------------------

/- Members with the paths of the name fields are those. -/
theorem members_of_paths
    {paxPath : List UInt8 → Option (List UInt8)}
    {path : List UInt8}
    {every next : Option (List UInt8)}
    {entries : List Entry}
    (hPaths :
      (members paxPath path every next entries).map
          Member.path =
        (entries.filterMap (fieldMember path)).map
          Member.path) :
    members paxPath path every next entries =
      entries.filterMap (fieldMember path) := by
  induction entries generalizing every next with
  | nil => rfl
  | cons entry entries ih =>
      rw [filterMap_cons_toList] at hPaths ⊢
      cases hKind : entry.kind with
      | file =>
          have hField :
              fieldMember path entry =
                some
                  (.file
                    (appendingPathComponent path
                      entry.name.bytes) entry.data) := by
            rw [fieldMember, hKind]
          rw [hField] at hPaths ⊢
          simp only [members, hKind, Option.toList_some,
            List.singleton_append, List.map_cons,
            List.cons.injEq, Member.path] at hPaths ⊢
          exact ⟨by rw [hPaths.1], ih hPaths.2⟩
      | directory =>
          have hField :
              fieldMember path entry =
                some
                  (.directory
                    (appendingPathComponent path
                      entry.name.bytes)) := by
            rw [fieldMember, hKind]
          rw [hField] at hPaths ⊢
          simp only [members, hKind, Option.toList_some,
            List.singleton_append, List.map_cons,
            List.cons.injEq, Member.path] at hPaths ⊢
          exact ⟨by rw [hPaths.1], ih hPaths.2⟩
      | hardLink =>
          simp only [members, fieldMember, hKind] at hPaths ⊢
          exact ih hPaths
      | symbolicLink =>
          simp only [members, fieldMember, hKind] at hPaths ⊢
          exact ih hPaths
      | extended =>
          simp only [members, fieldMember, hKind] at hPaths ⊢
          exact ih hPaths
      | global =>
          simp only [members, fieldMember, hKind] at hPaths ⊢
          exact ih hPaths

/- An archive is extracted faithfully just when it is regular. -/
theorem faithful_iff
    (paxPath : List UInt8 → Option (List UInt8))
    (path : List UInt8)
    (archive : TarArchive) :
    Faithful paxPath path archive ↔
      Regular paxPath path archive := by
  have hFits :
      ([] ++ renderEntries archive.entries ++
        zeroBlocks archive.zeros).length < 2 ^ 63 :=
    archive.fits
  have hZeros : 0 < archive.zeros :=
    Nat.lt_of_lt_of_le Nat.two_pos archive.two_zeros
  have hStart :
      places 0 archive.entries ++
          zeroPlaces
            (0 + (renderEntries archive.entries).length)
            archive.zeros =
        archive.headers := by
    rw [Nat.zero_add]
    rfl
  have hRuns :
      ∀ (FS : Type) (fm : FileManager FS) (fs : FS),
        (∀ entry ∈ archive.entries, entry.Steady) →
          let run := extract fm path archive.bytes 0 fs
          run.outcome =
              createMembers fm fs
                (archive.entries.filterMap
                  (fieldMember path)) ∧
            run.visited <+: archive.headers ∧
            (∀ fs', run.outcome = .success fs' →
              run.visited = archive.headers) := by
    intro FS fm fs hSteady
    have hRun := extract_entries fm path hSteady hFits fs
    rw [List.length_nil, hStart] at hRun
    exact hRun
  constructor
  · intro hFaithful
    rcases hFaithful (List Path) recorder [] with
      ⟨hOutcome, -, hWhole⟩
    rw [createMembers_recorder] at hOutcome
    have hVisited := hWhole _ hOutcome
    have hSteady :
        ∀ entry ∈ archive.entries, entry.Steady := by
      apply steady_of_visited path hZeros hFits []
      rw [List.length_nil, hStart]
      exact hVisited
    have hRun := (hRuns (List Path) recorder [] hSteady).1
    rw [hOutcome, createMembers_recorder] at hRun
    injection hRun with hPaths
    constructor
    · intro entry hEntry
      exact ((Entry.steady_iff entry).mp (hSteady entry hEntry)).1
    · intro entry hEntry
      exact ((Entry.steady_iff entry).mp (hSteady entry hEntry)).2
    · exact hPaths
  · intro hRegular FS fm fs
    rw [members_of_paths hRegular.named]
    apply hRuns FS fm fs
    intro entry hEntry
    exact
      (Entry.steady_iff entry).mpr
        ⟨hRegular.extended entry hEntry,
          hRegular.global entry hEntry⟩

------------------------------------------------------------
-- Traps
------------------------------------------------------------

/- A header traps just when a size is read that is unsound. -/
theorem readHeader_traps_iff (tar : List UInt8) (loc : Nat) :
    readHeader tar loc = .traps ↔
      ReadsSize tar loc ∧ ¬ SoundSize tar loc := by
  have hSize :
      readSizeAtLocation tar loc = none ↔
        ¬ SoundSize tar loc := by
    unfold readSizeAtLocation SoundSize
    dsimp only
    split_ifs with hAscii hNegative
    · refine iff_of_true rfl fun hBoth => ?_
      exact absurd hNegative (Int.not_lt.mpr hBoth.2)
    · refine iff_of_false id ?_
      exact
        not_not_intro ⟨hAscii, Int.not_lt.mp hNegative⟩
    · exact iff_of_true rfl fun hBoth => hAscii hBoth.1
  unfold readHeader ReadsSize
  rw [← hSize]
  cases readTypeAtLocation tar loc <;>
    cases readNameAtLocation tar loc <;>
    cases readSizeAtLocation tar loc <;> simp

theorem traps_of_perform
    {FS : Type}
    {fm : FileManager FS}
    {path tar : List UInt8}
    {loc : Nat}
    {fs : FS}
    {header : Header}
    (hPerform : perform fm path tar loc fs header = .trapped) :
    header = .traps := by
  cases header with
  | file name size =>
      rw [perform] at hPerform
      split at hPerform <;> cases hPerform
  | directory name =>
      rw [perform] at hPerform
      split at hPerform <;> cases hPerform
  | skip blocks => cases hPerform
  | throws => cases hPerform
  | traps => rfl

/- A run traps at a header on the way. -/
theorem exists_traps
    {FS : Type}
    (fm : FileManager FS)
    (path : List UInt8)
    {tar : List UInt8}
    (hTar : tar.length < 2 ^ 63)
    (loc : Nat)
    (fs : FS)
    (hTrapped : (extract fm path tar loc fs).outcome = .trapped) :
    ∃ place ∈ locations tar loc,
      readHeader tar place = .traps := by
  fun_induction extract fm path tar loc fs with
  | case1 => cases hTrapped
  | case2 loc fs hLoc header paths hPerform =>
      exact
        ⟨loc, mem_locations_self tar hLoc,
          traps_of_perform hPerform⟩
  | case3 loc fs hLoc header paths fs' hPerform hOver =>
      exact absurd hOver (Nat.not_le_of_lt (next_lt hTar hLoc))
  | case4 loc fs hLoc header paths fs' hPerform hFits ih =>
      rw [locations_of_success fm path tar hLoc hPerform]
      rcases ih hTrapped with ⟨place, hPlace, hTraps⟩
      exact ⟨place, List.mem_cons_of_mem _ hPlace, hTraps⟩
  | case5 => cases hTrapped

/- A header on the way that traps is come to if nothing throws. -/
theorem trapped_calm
    (path : List UInt8)
    {tar : List UInt8}
    (hTar : tar.length < 2 ^ 63)
    (loc : Nat)
    {place : Nat}
    (hPlace : place ∈ locations tar loc)
    (hTraps : readHeader tar place = .traps) :
    (extract calm path tar loc ()).outcome = .trapped := by
  fun_induction extract calm path tar loc () with
  | case1 loc fs hLoc header paths hPerform =>
      have hEnds : header.Ends := by
        by_contra hOn
        rw [perform_calm path tar loc hOn] at hPerform
        cases hPerform
      rw [locations_of_ends tar hLoc hEnds,
        List.mem_singleton] at hPlace
      rw [hPlace] at hTraps
      rw [show header = .traps from hTraps] at hPerform
      cases hPerform
  | case2 => rfl
  | case3 loc fs hLoc header paths fs' hPerform hOver =>
      exact absurd hOver (Nat.not_le_of_lt (next_lt hTar hLoc))
  | case4 loc fs hLoc header paths fs' hPerform hFits ih =>
      rw [locations_of_success calm path tar hLoc hPerform]
        at hPlace
      rcases List.mem_cons.mp hPlace with rfl | hLater
      · rw [show header = .traps from hTraps] at hPerform
        cases hPerform
      · exact ih hLater
  | case5 loc fs hLoc =>
      rw [locations, if_neg hLoc] at hPlace
      cases hPlace

theorem neverTraps_iff
    (path : List UInt8)
    (tar : TarFile) :
    NeverTraps path tar ↔ SoundSizes tar := by
  constructor
  · intro hNever loc hLoc hReads
    by_contra hUnsound
    refine hNever Unit calm () ?_
    refine trapped_calm path tar.fits 0 hLoc ?_
    exact (readHeader_traps_iff _ _).mpr ⟨hReads, hUnsound⟩
  · intro hSound FS fm fs hTrapped
    rcases exists_traps fm path tar.fits 0 fs hTrapped with
      ⟨loc, hLoc, hTraps⟩
    rcases (readHeader_traps_iff _ _).mp hTraps with
      ⟨hReads, hUnsound⟩
    exact hUnsound (hSound loc hLoc hReads)

------------------------------------------------------------
-- The Exact Condition
------------------------------------------------------------

/-
  Archives are extracted as what they contain, and on any bytes
  the loop ends with success or a thrown error.
-/
structure Extraction
    (paxPath : List UInt8 → Option (List UInt8))
    (path : List UInt8)
    (archive : TarArchive)
    (tar : TarFile) : Prop where
  faithful : Faithful paxPath path archive
  ends : NeverTraps path tar

/- A global header whose data does not fill its block. -/
def commentEntry : Entry where
  kind := .global
  name :=
    ⟨cString "pax_global_header", by decide +kernel,
      by decide +kernel⟩
  owner := List.Vector.replicate 24 48
  times := List.Vector.replicate 20 48
  linked := List.Vector.replicate 188 0
  namePrefix := ⟨[], by decide +kernel, by decide +kernel⟩
  padding := List.Vector.replicate 12 0
  data := List.replicate 52 97
  size :=
    { digits := cString "00000000064"
      stop := [0]
      width := by decide +kernel
      some_digits := by decide +kernel
      octal := by decide +kernel
      stops := by decide +kernel
      value := by decide +kernel }
  data_eq := by decide +kernel

def commentArchive : TarArchive where
  entries := [commentEntry]
  zeros := 2
  two_zeros := Nat.le_refl 2
  fits := by decide +kernel

end BRTar

end PlusWallet
