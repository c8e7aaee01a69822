import PlusWallet.Library.ByteOrder
import PlusWallet.Library.Faults
import PlusWallet.Address.BRBase58

/-
  Binary patches of `BRBSPatch.swift`.  `libbz2` is a parameter
  that is known by the streams it delivers.

  Main declarations:
    * `offtin`
    * `BzReader`
    * `State`, `diffPart`, `extraPart`, `step`, `loop`
    * `Files`, `prepare`, `finish`, `patch`
-/

namespace PlusWallet

namespace BRBSPatch

open Bytes

------------------------------------------------------------
-- Numbers
------------------------------------------------------------

/- How `patch` may fail. -/
inductive Fault where
  | thrown
  | trapped
  | outOfBounds
deriving DecidableEq

/- A sum of 64 bits -/
def add64 (x y : Int) : Except Fault Int :=
  if -2 ^ 63 ≤ x + y ∧ x + y < 2 ^ 63 then .ok (x + y)
  else .error .trapped

/- `Int32` of a number -/
def int32 (x : Int) : Except Fault Int :=
  if -2 ^ 31 ≤ x ∧ x < 2 ^ 31 then .ok x
  else .error .trapped

/- `offtin` of eight bytes -/
def offtin (b : List UInt8) : Int :=
  let y := ofLittleEndian (b.take 7 ++ [b.getD 7 0 &&& 0x7f])
  if b.getD 7 0 &&& 0x80 ≠ 0 then -(y : Int) else y

------------------------------------------------------------
-- Compressed Streams
------------------------------------------------------------

/- What `BZ2_bzRead` delivers, and whether without error. -/
structure Read (S : Type) where
  bytes : List UInt8
  ok : Bool
  next : S

/-
  Reading of `libbz2`: a stream delivers its contents in order,
  never more than is asked for, and reports negative lengths.
-/
structure BzReader (S : Type) where
  readOpen : List UInt8 → S
  contents : S → List UInt8
  read : S → Int → Read S
  delivers :
    ∀ s len,
      (read s len).bytes ++ contents (read s len).next =
        contents s
  at_most :
    ∀ s len, ((read s len).bytes.length : Int) ≤ max len 0
  negative : ∀ s len, len < 0 → (read s len).ok = false

------------------------------------------------------------
-- The New File in Memory
------------------------------------------------------------

abbrev Memory : Type := Nat → UInt8

/- Bytes behind each other from a position on. -/
def overwrite
    (new : Memory)
    (pos : Int)
    (bytes : List UInt8) : Memory := fun i =>
  if pos ≤ i ∧ (i : Int) < pos + bytes.length then
    bytes.getD (i - pos).toNat 0
  else new i

/- They have to be written inside of the new file. -/
def writeInto
    (newSize : Int)
    (new : Memory)
    (pos : Int)
    (bytes : List UInt8) : Except Fault Memory :=
  if bytes = [] ∨ (0 ≤ pos ∧ pos + bytes.length ≤ newSize) then
    .ok (overwrite new pos bytes)
  else .error .outOfBounds

section Reading

variable {S : Type} (reader : BzReader S)

/- `BZ2_bzRead` of a control number -/
def readOff (s : S) : Except Fault (Int × S) :=
  let buf := reader.read s 8
  if (buf.bytes.length : Int) < 8 ∨ buf.ok = false then
    .error .thrown
  else .ok (offtin buf.bytes, buf.next)

/- `BZ2_bzRead` into the new file -/
def readInto
    (s : S)
    (newSize : Int)
    (new : Memory)
    (pos len : Int) : Except Fault (Memory × S) := do
  let lenread := reader.read s len
  let new ← writeInto newSize new pos lenread.bytes
  if (lenread.bytes.length : Int) < len ∨
      lenread.ok = false then .error .thrown
  else .ok (new, lenread.next)

end Reading

/- The loop that adds the old file; `count` bytes are left. -/
def addOld
    (old : List UInt8)
    (oldPos newPos newSize : Int) :
    Nat → Nat → Memory → Except Fault Memory
  | 0, _, new => .ok new
  | count + 1, i, new => do
      let op ← add64 oldPos i
      if 0 ≤ op ∧ op < old.length then
        let np := newPos + i
        let new ←
          writeInto newSize new np
            [new np.toNat + old.getD op.toNat 0]
        addOld old oldPos newPos newSize count (i + 1) new
      else addOld old oldPos newPos newSize count (i + 1) new

------------------------------------------------------------
-- The Loop
------------------------------------------------------------

structure State (S : Type) where
  newPos : Int
  oldPos : Int
  new : Memory
  control : S
  diff : S
  extra : S

/- `crtl` -/
structure Triple where
  crtl0 : Int
  crtl1 : Int
  crtl2 : Int

section Loop

variable {S : Type} (reader : BzReader S)
variable (old : List UInt8) (newSize : Int)

/- Read control data. -/
def readTriple (control : S) : Except Fault (Triple × S) := do
  let (crtl0, control) ← readOff reader control
  let (crtl1, control) ← readOff reader control
  let (crtl2, control) ← readOff reader control
  .ok (⟨crtl0, crtl1, crtl2⟩, control)

/- Read diff string, add old data, adjust pointers. -/
def diffPart
    (crtl0 : Int)
    (s : State S) : Except Fault (State S) := do
  let top ← add64 s.newPos crtl0
  if newSize < top then .error .thrown
  else
    let len ← int32 crtl0
    let (new, diff) ←
      readInto reader s.diff newSize s.new s.newPos len
    let new ←
      addOld old s.oldPos s.newPos newSize crtl0.toNat 0 new
    let newPos ← add64 s.newPos crtl0
    let oldPos ← add64 s.oldPos crtl0
    .ok { s with newPos, oldPos, new, diff }

/- Read extra string, adjust pointers. -/
def extraPart
    (crtl1 crtl2 : Int)
    (s : State S) : Except Fault (State S) := do
  let top ← add64 s.newPos crtl1
  if newSize < top then .error .thrown
  else
    let len ← int32 crtl1
    let (new, extra) ←
      readInto reader s.extra newSize s.new s.newPos len
    let newPos ← add64 s.newPos crtl1
    let oldPos ← add64 s.oldPos crtl2
    .ok { s with newPos, oldPos, new, extra }

/- One round of the loop of `patch` -/
def step (s : State S) : Except Fault (State S) := do
  let (crtl, control) ← readTriple reader s.control
  let s ←
    diffPart reader old newSize crtl.crtl0 { s with control }
  extraPart reader newSize crtl.crtl1 crtl.crtl2 s

variable {reader old newSize}

theorem readOff_consumes
    {s next : S}
    {number : Int}
    (hRead : readOff reader s = .ok (number, next)) :
    ∃ buf,
      buf.length = 8 ∧ number = offtin buf ∧
        reader.contents s = buf ++ reader.contents next := by
  unfold readOff at hRead
  dsimp only at hRead
  split_ifs at hRead with hFailed
  cases hRead
  rw [not_or, Int.not_lt] at hFailed
  have hMost := reader.at_most s 8
  rw [max_eq_left (by decide)] at hMost
  exact
    ⟨_, by omega, rfl, (reader.delivers s 8).symm⟩

theorem readTriple_consumes
    {control next : S}
    {crtl : Triple}
    (hRead : readTriple reader control = .ok (crtl, next)) :
    ∃ buf0 buf1 buf2,
      (buf0.length = 8 ∧ buf1.length = 8 ∧ buf2.length = 8) ∧
        crtl = ⟨offtin buf0, offtin buf1, offtin buf2⟩ ∧
        reader.contents control =
          buf0 ++ buf1 ++ buf2 ++ reader.contents next := by
  unfold readTriple at hRead
  rcases Faults.bind_eq_ok_iff.mp hRead with
    ⟨⟨c0, s0⟩, h0, hRead⟩
  rcases Faults.bind_eq_ok_iff.mp hRead with
    ⟨⟨c1, s1⟩, h1, hRead⟩
  rcases Faults.bind_eq_ok_iff.mp hRead with
    ⟨⟨c2, s2⟩, h2, hRead⟩
  cases hRead
  rcases readOff_consumes h0 with ⟨buf0, hLen0, rfl, hSame0⟩
  rcases readOff_consumes h1 with ⟨buf1, hLen1, rfl, hSame1⟩
  rcases readOff_consumes h2 with ⟨buf2, hLen2, rfl, hSame2⟩
  refine ⟨buf0, buf1, buf2, ⟨hLen0, hLen1, hLen2⟩, rfl, ?_⟩
  rw [hSame0, hSame1, hSame2]
  simp only [List.append_assoc]

/- The parts of a round leave the control stream alone. -/
theorem diffPart_control
    {crtl0 : Int}
    {s next : State S}
    (hPart : diffPart reader old newSize crtl0 s = .ok next) :
    next.control = s.control := by
  unfold diffPart at hPart
  rcases Faults.bind_eq_ok_iff.mp hPart with
    ⟨top, -, hPart⟩
  split_ifs at hPart
  rcases Faults.bind_eq_ok_iff.mp hPart with
    ⟨len, -, hPart⟩
  rcases Faults.bind_eq_ok_iff.mp hPart with
    ⟨⟨new, diff⟩, -, hPart⟩
  rcases Faults.bind_eq_ok_iff.mp hPart with
    ⟨added, -, hPart⟩
  rcases Faults.bind_eq_ok_iff.mp hPart with
    ⟨newPos, -, hPart⟩
  rcases Faults.bind_eq_ok_iff.mp hPart with
    ⟨oldPos, -, hPart⟩
  cases hPart
  rfl

theorem extraPart_control
    {crtl1 crtl2 : Int}
    {s next : State S}
    (hPart :
      extraPart reader newSize crtl1 crtl2 s = .ok next) :
    next.control = s.control := by
  unfold extraPart at hPart
  rcases Faults.bind_eq_ok_iff.mp hPart with
    ⟨top, -, hPart⟩
  split_ifs at hPart
  rcases Faults.bind_eq_ok_iff.mp hPart with
    ⟨len, -, hPart⟩
  rcases Faults.bind_eq_ok_iff.mp hPart with
    ⟨⟨new, extra⟩, -, hPart⟩
  rcases Faults.bind_eq_ok_iff.mp hPart with
    ⟨newPos, -, hPart⟩
  rcases Faults.bind_eq_ok_iff.mp hPart with
    ⟨oldPos, -, hPart⟩
  cases hPart
  rfl

/- A round takes 24 bytes of the control stream. -/
theorem step_consumes
    {s next : State S}
    (hStep : step reader old newSize s = .ok next) :
    (reader.contents next.control).length <
      (reader.contents s.control).length := by
  unfold step at hStep
  rcases Faults.bind_eq_ok_iff.mp hStep with
    ⟨⟨crtl, control⟩, hTriple, hStep⟩
  rcases Faults.bind_eq_ok_iff.mp hStep with
    ⟨middle, hDiff, hExtra⟩
  rcases readTriple_consumes hTriple with
    ⟨buf0, buf1, buf2, hLengths, -, hContents⟩
  rw [extraPart_control hExtra, diffPart_control hDiff,
    hContents]
  simp only [List.length_append]
  omega

variable (reader old newSize)

/- The loop of `patch`, which the control stream bounds. -/
def loop (s : State S) : Except Fault (State S) :=
  if s.newPos < newSize then
    match _h : step reader old newSize s with
    | .error fault => .error fault
    | .ok next => loop next
  else .ok s
termination_by (reader.contents s.control).length
decreasing_by exact step_consumes _h

end Loop

------------------------------------------------------------
-- Files
------------------------------------------------------------

/-
  The files of `patch`, and what their handles do: the patch
  file is opened three more times, and read from three places.
-/
structure Files where
  patch : Option (List UInt8)
  old : Option (List UInt8)
  controlOpens : Bool
  diffFileOpens : Bool
  diffOpens : Bool
  extraFileOpens : Bool
  extraOpens : Bool
  closes : Bool
  newExists : Bool
  newRemovable : Bool
  newWritable : Bool

/- What has become of the file at `newFilePath`. -/
inductive NewFile where
  | untouched
  | removed
  | written (bytes : List UInt8)
deriving DecidableEq

structure Result where
  fault : Option Fault
  newFile : NewFile
deriving DecidableEq

/- The fields of the header -/
structure Header where
  magic : List UInt8
  bzCrtlLen : Int
  bzDataLen : Int
  newSize : Int

/- The encoding `ascii` of strings -/
def isAscii (bytes : List UInt8) : Bool :=
  bytes.all (· < 128)

def headerOf (headerData : List UInt8) : Header where
  magic := headerData.take 8
  bzCrtlLen := offtin ((headerData.drop 8).take 8)
  bzDataLen := offtin ((headerData.drop 16).take 8)
  newSize := offtin ((headerData.drop 24).take 8)

/- Read the header and check it. -/
def readHeader (files : Files) :
    Except Fault (List UInt8 × Header) :=
  match files.patch with
  | none => .error .thrown
  | some patch =>
      let headerData := patch.take 32
      let header := headerOf headerData
      if headerData.length ≠ 32 then .error .thrown
      else if isAscii header.magic ∧
          header.magic ≠ cString "BSDIFF40" then .error .thrown
      else if header.bzCrtlLen < 0 ∨ header.bzDataLen < 0 ∨
          header.newSize < 0 then .error .thrown
      else .ok (patch, header)

/- `throw` where an operation on a file fails -/
def guardThrow (succeeds : Bool) : Except Fault Unit :=
  if succeeds then .ok () else .error .thrown

section Patch

variable {S : Type} (reader : BzReader S)

/- What the loop starts with. -/
structure Start (S : Type) where
  header : Header
  old : List UInt8
  state : State S

/- All of `patch` in front of the loop -/
def prepare
    (files : Files)
    (memory : Memory) : Except Fault (Start S) := do
  let (patch, header) ← readHeader files
  guardThrow files.controlOpens
  guardThrow files.diffFileOpens
  let diffOff ← add64 32 header.bzCrtlLen
  guardThrow files.diffOpens
  guardThrow files.extraFileOpens
  let extraOff ← add64 diffOff header.bzDataLen
  guardThrow files.extraOpens
  let old ←
    match files.old with
    | none => .error .thrown
    | some old => .ok old
  let _ ← add64 header.newSize 1
  .ok
    { header
      old
      state :=
        { newPos := 0
          oldPos := 0
          new := memory
          control := reader.readOpen (patch.drop 32)
          diff := reader.readOpen (patch.drop diffOff.toNat)
          extra :=
            reader.readOpen (patch.drop extraOff.toNat) } }

/- The bytes of the new file in memory -/
def newData (newSize : Int) (new : Memory) : List UInt8 :=
  (List.range newSize.toNat).map new

/- All of `patch` behind the loop -/
def finish
    (files : Files)
    (newSize : Int)
    (new : Memory) : Result :=
  if files.closes = false then ⟨some .thrown, .untouched⟩
  else if files.newExists ∧ files.newRemovable = false then
    ⟨some .thrown, .untouched⟩
  else if files.newWritable = false then
    ⟨some .thrown,
      if files.newExists then .removed else .untouched⟩
  else ⟨none, .written (newData newSize new)⟩

/- `BRBSPatch.patch` -/
def patch (files : Files) (memory : Memory) : Result :=
  match prepare reader files memory with
  | .error fault => ⟨some fault, .untouched⟩
  | .ok start =>
      match
          loop reader start.old start.header.newSize
            start.state with
      | .error fault => ⟨some fault, .untouched⟩
      | .ok s => finish files start.header.newSize s.new

end Patch

end BRBSPatch

end PlusWallet
