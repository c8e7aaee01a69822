import PlusWallet.Library.LexicalPath
import PlusWallet.Platform.BRTar

/-
  Where the extraction of a tar archive may remove, create and
  write: strictly below its directory just when every name that
  it comes to goes down into the directory.

  Main declarations:
    * `normalise`
    * `StaysBelow`, `GoesDown`
    * `touched_subset`, `touched_calm`
    * `staysBelow_iff`
-/

namespace PlusWallet

namespace BRTar

open LexicalPath

------------------------------------------------------------
-- Paths
------------------------------------------------------------

/- What a component of a path means. -/
def moveOf (component : List UInt8) : Move (List UInt8) :=
  if component = cString "." then .stay
  else if component = cString ".." then .up
  else .down component

/- Lexical normalisation of an absolute path -/
def normalise (path : Path) : Path :=
  resolve [] (path.map moveOf)

theorem normalise_append (front rest : Path) :
    normalise (front ++ rest) =
      resolve (normalise front) (rest.map moveOf) := by
  rw [normalise, List.map_append, resolve_append]
  rfl

/- A file as long as files can be. -/
structure TarFile where
  bytes : List UInt8
  fits : bytes.length < 2 ^ 63

/-
  Whatever the file system does, no path outside the directory
  is removed, created or written.
-/
def StaysBelow (path : List UInt8) (tar : TarFile) : Prop :=
  ∀ (FS : Type) (fm : FileManager FS) (fs : FS),
    ∀ other ∈ (extract fm path tar.bytes 0 fs).touched,
      Below (normalise (components path)) (normalise other)

/-
  How often a name leaves the directory it is extracted to, and
  the components it then has.
-/
def climbOf (name : List UInt8) : Nat × Path :=
  climb 0 [] ((components (cBytes name)).map moveOf)

/-
  A name that never leaves the directory, or goes back down to
  it, and names something in it.
-/
def GoesDown (path name : List UInt8) : Prop :=
  Below
    ((normalise (components path)).drop
      ((normalise (components path)).length -
        (climbOf name).1))
    (climbOf name).2

/- The name of a file or directory, if the header has one. -/
def Header.name? : Header → Option (List UInt8)
  | .file name _ => some name
  | .directory name => some name
  | _ => none

theorem below_appending_iff (path name : List UInt8) :
    Below (normalise (components path))
        (normalise (appendingPathComponent path name)) ↔
      GoesDown path name := by
  rw [appendingPathComponent, normalise_append,
    below_resolve_iff]
  rfl

theorem mem_paths_iff
    {header : Header}
    {path : List UInt8}
    {other : Path} :
    other ∈ header.paths path ↔
      ∃ name, header.name? = some name ∧
        other = appendingPathComponent path name := by
  cases header <;> simp [Header.paths, Header.name?]

------------------------------------------------------------
-- Touched Paths
------------------------------------------------------------

section Runs

variable {FS : Type} (fm : FileManager FS)
variable (path tar : List UInt8)

/- Where a run does not end, the header was read well. -/
theorem locations_of_success
    {loc : Nat}
    {fs fs' : FS}
    (hLoc : loc < tar.length)
    (hPerform :
      perform fm path tar loc fs (readHeader tar loc) =
        .success fs') :
    locations tar loc =
      loc :: locations tar ((readHeader tar loc).next loc) := by
  rw [locations, if_pos hLoc]
  cases hHeader : readHeader tar loc with
  | throws =>
      rw [hHeader] at hPerform
      cases hPerform
  | traps =>
      rw [hHeader] at hPerform
      cases hPerform
  | file name size => rfl
  | directory name => rfl
  | skip blocks => rfl

theorem mem_locations_self
    {loc : Nat}
    (hLoc : loc < tar.length) :
    loc ∈ locations tar loc := by
  rw [locations, if_pos hLoc]
  exact List.mem_cons_self

/- Only paths of headers on the way are touched. -/
theorem touched_subset
    (loc : Nat)
    (fs : FS)
    {other : Path}
    (hTouched : other ∈ (extract fm path tar loc fs).touched) :
    ∃ place ∈ locations tar loc,
      other ∈ (readHeader tar place).paths path := by
  fun_induction extract fm path tar loc fs with
  | case1 loc fs hLoc header paths hPerform =>
      exact ⟨loc, mem_locations_self tar hLoc, hTouched⟩
  | case2 loc fs hLoc header paths hPerform =>
      exact ⟨loc, mem_locations_self tar hLoc, hTouched⟩
  | case3 loc fs hLoc header paths fs' hPerform hOver =>
      exact ⟨loc, mem_locations_self tar hLoc, hTouched⟩
  | case4 loc fs hLoc header paths fs' hPerform hFits ih =>
      rw [locations_of_success fm path tar hLoc hPerform]
      rcases List.mem_append.mp hTouched with hHere | hThere
      · exact ⟨loc, List.mem_cons_self, hHere⟩
      · rcases ih hThere with ⟨place, hPlace, hPath⟩
        exact ⟨place, List.mem_cons_of_mem _ hPlace, hPath⟩
  | case5 loc fs hLoc => cases hTouched

end Runs

/- A file system on which nothing throws. -/
def calm : FileManager Unit where
  fileExists := fun _ _ => false
  removeItem := fun _ _ => some ()
  writeEmpty := fun _ _ => some ()
  createFile := fun _ _ => ()
  forWriting := fun _ _ => true
  write := fun _ _ _ => ()
  createDirectory := fun _ _ => some ()

/- A header at which the loop ends. -/
def Header.Ends (header : Header) : Prop :=
  header = .throws ∨ header = .traps

theorem perform_calm
    (path tar : List UInt8)
    (loc : Nat)
    {header : Header}
    (hOn : ¬ header.Ends) :
    perform calm path tar loc () header = .success () := by
  cases header with
  | file name size =>
      have hMade :
          ∀ pieces,
            makeFile calm ()
                (appendingPathComponent path name) pieces =
              some () := by
        intro pieces
        unfold makeFile
        by_cases hEmpty : pieces = []
        · rw [hEmpty]
          rfl
        · simp only [clear, calm, Bool.false_eq_true,
            if_false, Option.bind_eq_bind, Option.bind_some,
            if_neg hEmpty, if_true]
      rw [perform, hMade]
  | directory name => rfl
  | skip blocks => rfl
  | throws => exact absurd (Or.inl rfl) hOn
  | traps => exact absurd (Or.inr rfl) hOn

theorem locations_of_ends
    (tar : List UInt8)
    {loc : Nat}
    (hLoc : loc < tar.length)
    (hEnds : (readHeader tar loc).Ends) :
    locations tar loc = [loc] := by
  rw [locations, if_pos hLoc]
  rcases hEnds with hThrows | hTraps
  · rw [hThrows]
  · rw [hTraps]

/- There all paths of headers on the way are touched. -/
theorem touched_calm
    (path : List UInt8)
    {tar : List UInt8}
    (hTar : tar.length < 2 ^ 63)
    (loc : Nat)
    {place : Nat}
    (hPlace : place ∈ locations tar loc)
    {other : Path}
    (hPath : other ∈ (readHeader tar place).paths path) :
    other ∈ (extract calm path tar loc ()).touched := by
  fun_induction extract calm path tar loc () with
  | case1 loc fs hLoc header paths hPerform =>
      have hEnds : header.Ends := by
        by_contra hOn
        rw [perform_calm path tar loc hOn] at hPerform
        cases hPerform
      rw [locations_of_ends tar hLoc hEnds,
        List.mem_singleton] at hPlace
      rw [hPlace] at hPath
      exact hPath
  | case2 loc fs hLoc header paths hPerform =>
      have hEnds : header.Ends := by
        by_contra hOn
        rw [perform_calm path tar loc hOn] at hPerform
        cases hPerform
      rw [locations_of_ends tar hLoc hEnds,
        List.mem_singleton] at hPlace
      rw [hPlace] at hPath
      exact hPath
  | case3 loc fs hLoc header paths fs' hPerform hOver =>
      exact absurd hOver (Nat.not_le_of_lt (next_lt hTar hLoc))
  | case4 loc fs hLoc header paths fs' hPerform hFits ih =>
      rw [locations_of_success calm path tar hLoc hPerform]
        at hPlace
      rcases List.mem_cons.mp hPlace with rfl | hLater
      · exact List.mem_append_left _ hPath
      · exact List.mem_append_right _ (ih hLater)
  | case5 loc fs hLoc =>
      rw [locations, if_neg hLoc] at hPlace
      cases hPlace

theorem goesDown_of_staysBelow
    {path : List UInt8}
    {tar : TarFile}
    (hStays : StaysBelow path tar)
    {loc : Nat}
    (hLoc : loc ∈ locations tar.bytes 0)
    {name : List UInt8}
    (hName : (readHeader tar.bytes loc).name? = some name) :
    GoesDown path name := by
  rw [← below_appending_iff]
  refine
    hStays Unit calm () _
      (touched_calm path tar.fits 0 hLoc ?_)
  exact mem_paths_iff.mpr ⟨name, hName, rfl⟩

/-
  The extraction stays below its directory just when every name
  on the way goes down into it.
-/
theorem staysBelow_iff
    (path : List UInt8)
    (tar : TarFile) :
    StaysBelow path tar ↔
      ∀ loc ∈ locations tar.bytes 0, ∀ name,
        (readHeader tar.bytes loc).name? = some name →
          GoesDown path name := by
  constructor
  · intro hStays loc hLoc name hName
    exact goesDown_of_staysBelow hStays hLoc hName
  · intro hNames FS fm fs other hTouched
    rcases touched_subset fm path tar.bytes 0 fs hTouched with
      ⟨loc, hLoc, hPath⟩
    rcases mem_paths_iff.mp hPath with ⟨name, hName, rfl⟩
    rw [below_appending_iff]
    exact hNames loc hLoc name hName

/- One header: an empty file with a name that goes up. -/
def climbingName : List UInt8 :=
  cString "../x" ++ List.replicate 96 0

def climbingTar : TarFile where
  bytes :=
    climbingName ++ List.replicate 56 0 ++ [48] ++
      List.replicate 355 0
  fits := by decide +kernel

/- The file is written beside the directory. -/
theorem climbing_not_below :
    ¬ StaysBelow (cString "/extracted") climbingTar := by
  intro hStays
  have hName :
      (readHeader climbingTar.bytes 0).name? =
        some climbingName := by
    decide +kernel
  have hGoes :=
    goesDown_of_staysBelow hStays
      (mem_locations_self _ (by decide +kernel)) hName
  have hClimb :
      climbOf climbingName = (1, [cString "x"]) := by
    decide +kernel
  have hPlace :
      normalise (components (cString "/extracted")) =
        [cString "extracted"] := by
    decide +kernel
  rw [GoesDown, hClimb, hPlace] at hGoes
  rcases hGoes with ⟨rest, -, hSame⟩
  exact absurd (List.cons.inj hSame).1 (by decide)

end BRTar

end PlusWallet
