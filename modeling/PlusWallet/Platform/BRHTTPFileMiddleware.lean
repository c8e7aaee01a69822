import PlusWallet.Address.BRBech32
import PlusWallet.Platform.TarPaths

/-
  How `BRHTTPFileMiddleware.swift` serves a local file.

  A string of a request is what `readLine` makes of its bytes,
  so that every character is one byte.  The second number of a
  range is taken for its start, and the first one for its end.

  Main declarations:
    * `rangeHeader`
    * `handle`
    * `Allowed`, `Served`
    * `Servable`, `served_iff`
-/

namespace PlusWallet

namespace BRHTTPFileMiddleware

open BRTar LexicalPath

------------------------------------------------------------
-- Requests and Responses
------------------------------------------------------------

/- `Data`, with as many bytes as `count` can tell -/
structure FileContent where
  bytes : List UInt8
  fits : bytes.length < 2 ^ 63

/-
  What a path names: the tag made of the attributes, the bytes,
  and the type of the content by the extension
-/
structure FileSystem where
  etag : Path → Option String
  contentsOf : Path → Option FileContent
  contentType : Path → String

/-
  The parts of a request that are read; of the headers, the
  first value, if any
-/
structure Request where
  path : List UInt8
  ifNoneMatch : Option String
  range : Option (List UInt8)

/- `BRHTTPResponse` -/
structure Response where
  statusCode : Nat
  statusReason : String
  headers : List (String × String)
  body : Option (List UInt8)
deriving DecidableEq

/- The request is passed on or answered, or the code traps. -/
inductive Outcome where
  | next
  | respond (response : Response)
  | traps
deriving DecidableEq

/- What `handle` comes to, and the file whose bytes it reads. -/
structure Handled where
  outcome : Outcome
  read : Option Path

inductive BRHTTPServerError where
  | invalidRangeHeader
deriving DecidableEq

------------------------------------------------------------
-- Range Headers
------------------------------------------------------------

/- A character that `\d` matches -/
def isDigit (c : UInt8) : Bool :=
  cChar '0' ≤ c ∧ c ≤ cChar '9'

/- The number that digits stand for -/
def numberOf (digits : List UInt8) : Nat :=
  Nat.ofDigits 10
    (digits.reverse.map fun digit => digit.toNat - 48)

/- `Int` of a string of digits -/
def intOfDigits (digits : List UInt8) : Option Int :=
  if digits = [] ∨ 2 ^ 63 ≤ numberOf digits then none
  else some (numberOf digits)

/-
  The two groups of `rangeRe` where it matches at the start of
  a header; what follows is not looked at.
-/
def rangeRe
    (header : List UInt8) :
    Option (List UInt8 × List UInt8) :=
  if (header.take 6).map toLower = cString "bytes=" then
    match (header.drop 6).dropWhile isDigit with
    | dash :: rest =>
        if dash = cChar '-' then
          some
            ((header.drop 6).takeWhile isDigit,
              rest.takeWhile isDigit)
        else none
    | [] => none
  else none

/- `rangeHeader` -/
def rangeHeader
    (request : Request) :
    Except BRHTTPServerError (Option (Int × Int)) :=
  match request.range with
  | none => .ok none
  | some header =>
      match rangeRe header with
      | none => .error .invalidRangeHeader
      | some (startStr, endStr) =>
          match intOfDigits startStr, intOfDigits endStr with
          | some start, some last => .ok (some (start, last))
          | _, _ => .error .invalidRangeHeader

------------------------------------------------------------
-- Handling
------------------------------------------------------------

/- The result of an operation on `Int`, if it is one -/
def checked (value : Int) : Option Int :=
  if -2 ^ 63 ≤ value ∧ value < 2 ^ 63 then some value else none

/- `range.location + range.length` -/
def upperBound (last start : Int) : Option Int := do
  let length ← checked (last - start)
  let length ← checked (length + 1)
  checked (start + length)

/- `subdata(in:)`, of a range that may not be turned around -/
def subdata
    (body : List UInt8)
    (start upper : Int) : Option (List UInt8) :=
  if start ≤ upper then
    some
      ((body.take upper.toNat).drop start.toNat)
  else none

/- The response to a range -/
def rangeResponse
    (contentType : String)
    (body : List UInt8)
    (last start : Int)
    (subDat : List UInt8) : Response where
  statusCode := 200
  statusReason := "OK"
  headers :=
    [("Content-Range",
      "bytes " ++ toString start ++ "-" ++ toString last ++
        "/" ++ toString body.length),
      ("Content-Type", contentType)]
  body := some subDat

/- The part of `handle` for a range -/
def serveRange
    (contentType : String)
    (body : List UInt8)
    (rangeHeader : Int × Int) : Outcome :=
  let (last, start) := rangeHeader
  match upperBound last start with
  | none => .traps
  | some upper =>
      if upper ≤ body.length then
        match subdata body start upper with
        | none => .traps
        | some subDat =>
            .respond
              (rangeResponse contentType body last start
                subDat)
      else
        .respond
          { statusCode := 418
            statusReason := "Request Range Not Satisfiable"
            headers := []
            body := none }

/- The part of `handle` after the file was read -/
def serve
    (contentType etag : String)
    (body : List UInt8)
    (request : Request) : Outcome :=
  match rangeHeader request with
  | .error _ =>
      .respond
        { statusCode := 400
          statusReason := "Bad Request"
          headers := []
          body := some (cString "Invalid Range Header") }
  | .ok (some range) => serveRange contentType body range
  | .ok none =>
      .respond
        { statusCode := 200
          statusReason := "OK"
          headers :=
            [("ETag", etag), ("Content-Type", contentType)]
          body := some body }

/- The bytes of a character in a path -/
def utf8OfLatin1 (c : UInt8) : List UInt8 :=
  if c < 0x80 then [c]
  else [(0xC0 : UInt8) ||| c >>> 6, 0x80 ||| c &&& 0x3F]

/- The name that is appended: slashes in front are left out. -/
def fileName (path : List UInt8) : List UInt8 :=
  (path.dropWhile (· = cChar '/')).flatMap utf8OfLatin1

def fileURL
    (baseURL : List UInt8)
    (request : Request) : Path :=
  appendingPathComponent baseURL (fileName request.path)

/- `handle`, when `debugURL` is `nil` -/
def handle
    (fs : FileSystem)
    (baseURL : List UInt8)
    (request : Request) : Handled :=
  let fileURL := fileURL baseURL request
  match fs.etag fileURL with
  | none => { outcome := .next, read := none }
  | some etag =>
      if request.ifNoneMatch = some etag then
        { outcome :=
            .respond
              { statusCode := 304
                statusReason := "Not Modified"
                headers := []
                body := none }
          read := none }
      else
        match fs.contentsOf fileURL with
        | none => { outcome := .next, read := none }
        | some content =>
            { outcome :=
                serve (fs.contentType fileURL) etag
                  content.bytes request
              read := some fileURL }

------------------------------------------------------------
-- What May Be Sent
------------------------------------------------------------

/- The header is `bytes=first-last`, whatever comes after it. -/
def NamesRange
    (header : List UInt8)
    (first last : Nat) : Prop :=
  ∃ unit firstDigits lastDigits rest,
    header =
        unit ++
          (firstDigits ++
            cChar '-' :: (lastDigits ++ rest)) ∧
      unit.map toLower = cString "bytes=" ∧
      (∀ c ∈ firstDigits, isDigit c) ∧
      (∀ c ∈ lastDigits, isDigit c) ∧
      (∀ c ∈ rest.head?, ¬ isDigit c) ∧
      firstDigits ≠ [] ∧ lastDigits ≠ [] ∧
      numberOf firstDigits = first ∧
      numberOf lastDigits = last

/- The whole file, or the bytes that the range names -/
def Sent
    (request : Request)
    (content body : List UInt8) : Prop :=
  match request.range with
  | none => body = content
  | some header =>
      ∃ first last,
        NamesRange header first last ∧ first ≤ last ∧
          last < content.length ∧
          body = (content.take (last + 1)).drop first

/- Passed on, refused, or sent what was asked for -/
def Allowed
    (request : Request)
    (content : Option (List UInt8)) : Outcome → Prop
  | .next => True
  | .traps => False
  | .respond response =>
      response.statusCode = 304 ∨ response.statusCode = 400 ∨
        response.statusCode = 418 ∨
        (response.statusCode = 200 ∧
          ∃ bytes, content = some bytes ∧
            ∃ body, response.body = some body ∧
              Sent request bytes body)

/-
  A request is answered as it may be, and the file that is read
  is below the base.
-/
structure Served
    (fs : FileSystem)
    (baseURL : List UInt8)
    (request : Request) : Prop where
  allowed :
    Allowed request
      (((handle fs baseURL request).read.bind
        fs.contentsOf).map (·.bytes))
      (handle fs baseURL request).outcome
  below :
    ∀ path ∈ (handle fs baseURL request).read,
      Below (normalise (components baseURL)) (normalise path)

/-
  When there is a file that was modified, the path goes down
  into the base, and the range is one byte of the file or starts
  behind it, short of the last number there is.
-/
def Servable
    (fs : FileSystem)
    (baseURL : List UInt8)
    (request : Request) : Prop :=
  ∀ etag content,
    fs.etag (fileURL baseURL request) = some etag →
      request.ifNoneMatch ≠ some etag →
      fs.contentsOf (fileURL baseURL request) =
          some content →
        GoesDown baseURL (fileName request.path) ∧
          ∀ header first last,
            request.range = some header →
              NamesRange header first last →
                first < 2 ^ 63 → last < 2 ^ 63 →
                  (first = last ∧
                      last < content.bytes.length) ∨
                    (content.bytes.length ≤ first ∧
                      first ≠ 2 ^ 63 - 1)

------------------------------------------------------------
-- Ranges
------------------------------------------------------------

theorem takeWhile_digits
    {digits rest : List UInt8}
    (hDigits : ∀ c ∈ digits, isDigit c)
    (hRest : ∀ c ∈ rest.head?, ¬ isDigit c) :
    (digits ++ rest).takeWhile isDigit = digits := by
  rw [List.takeWhile_append_of_pos hDigits]
  cases rest with
  | nil => simp
  | cons c rest =>
      rw [List.takeWhile_cons_of_neg (hRest c rfl),
        List.append_nil]

theorem dropWhile_digits
    {digits rest : List UInt8}
    (hDigits : ∀ c ∈ digits, isDigit c)
    (hRest : ∀ c ∈ rest.head?, ¬ isDigit c) :
    (digits ++ rest).dropWhile isDigit = rest := by
  rw [List.dropWhile_append_of_pos hDigits]
  cases rest with
  | nil => rfl
  | cons c rest =>
      exact List.dropWhile_cons_of_neg (hRest c rfl)

/- The groups of a header that names a range -/
theorem rangeRe_of_namesRange
    {header : List UInt8}
    {first last : Nat}
    (hNames : NamesRange header first last) :
    ∃ startStr endStr,
      rangeRe header = some (startStr, endStr) ∧
        startStr ≠ [] ∧ endStr ≠ [] ∧
        numberOf startStr = first ∧
        numberOf endStr = last := by
  rcases hNames with
    ⟨unit, firstDigits, lastDigits, rest, rfl, hUnit, hFirst,
      hLast, hRest, hSome, hSomeLast, hFirstIs, hLastIs⟩
  have hLength : unit.length = 6 := by
    have hSame := congrArg List.length hUnit
    rw [List.length_map] at hSame
    exact hSame
  have hDash :
      ∀ c ∈
          (cChar '-' :: (lastDigits ++ rest)).head?,
        ¬ isDigit c := by
    intro c hIn
    cases hIn
    decide
  refine
    ⟨firstDigits, lastDigits, ?_, hSome, hSomeLast, hFirstIs,
      hLastIs⟩
  rw [rangeRe, List.take_left' hLength,
    List.drop_left' hLength, if_pos hUnit,
    dropWhile_digits hFirst hDash]
  dsimp only
  rw [if_pos rfl, takeWhile_digits hFirst hDash,
    takeWhile_digits hLast hRest]

/- A range is named by a header with its groups. -/
theorem namesRange_of_rangeRe
    {header startStr endStr : List UInt8}
    (hGroups : rangeRe header = some (startStr, endStr))
    (hStart : startStr ≠ [])
    (hEnd : endStr ≠ []) :
    NamesRange header (numberOf startStr)
      (numberOf endStr) := by
  rw [rangeRe] at hGroups
  split_ifs at hGroups with hUnit
  split at hGroups
  case h_2 => cases hGroups
  rename_i dash rest hRest
  split_ifs at hGroups with hDash
  cases hGroups
  refine
    ⟨header.take 6, _, _, rest.dropWhile isDigit, ?_, hUnit,
      ?_, ?_, ?_, hStart, hEnd, rfl, rfl⟩
  · rw [List.takeWhile_append_dropWhile, ← hDash, ← hRest,
      List.takeWhile_append_dropWhile,
      List.take_append_drop]
  · intro c hIn
    exact List.mem_takeWhile_imp hIn
  · intro c hIn
    exact List.mem_takeWhile_imp hIn
  · intro c hIn
    have hHead := List.head?_dropWhile_not isDigit rest
    rw [Option.mem_def.mp hIn] at hHead
    simpa using hHead

theorem intOfDigits_eq_some_iff
    {digits : List UInt8}
    {value : Int} :
    intOfDigits digits = some value ↔
      digits ≠ [] ∧ numberOf digits < 2 ^ 63 ∧
        value = numberOf digits := by
  rw [intOfDigits]
  split_ifs with hNone
  · constructor
    · intro hAbsurd
      cases hAbsurd
    · rintro ⟨hSome, hSmall, -⟩
      rcases hNone with hNil | hLarge
      · exact absurd hNil hSome
      · omega
  · rw [not_or, not_le] at hNone
    rw [Option.some.injEq]
    exact
      ⟨fun hSame => ⟨hNone.1, hNone.2, hSame.symm⟩,
        fun hAll => hAll.2.2.symm⟩

/- What `rangeHeader` returns is what the header names. -/
theorem rangeHeader_eq_ok_iff
    {request : Request}
    {header : List UInt8}
    (hHeader : request.range = some header)
    (range : Int × Int) :
    rangeHeader request = .ok (some range) ↔
      ∃ first last : Nat,
        NamesRange header first last ∧ first < 2 ^ 63 ∧
          last < 2 ^ 63 ∧ range = (↑first, ↑last) := by
  rw [rangeHeader, hHeader]
  dsimp only
  constructor
  · intro hOk
    split at hOk
    case h_1 => cases hOk
    rename_i startStr endStr hGroups
    split at hOk
    case h_2 => cases hOk
    rename_i start last hStart hLast
    cases hOk
    rw [intOfDigits_eq_some_iff] at hStart hLast
    rcases hStart with ⟨hSome, hSmall, rfl⟩
    rcases hLast with ⟨hSomeLast, hSmallLast, rfl⟩
    exact
      ⟨_, _,
        namesRange_of_rangeRe hGroups hSome hSomeLast,
        hSmall, hSmallLast, rfl⟩
  · rintro ⟨first, last, hNames, hSmall, hSmallLast, rfl⟩
    rcases rangeRe_of_namesRange hNames with
      ⟨startStr, endStr, hGroups, hSome, hSomeLast, rfl, rfl⟩
    rw [hGroups]
    dsimp only
    rw [intOfDigits_eq_some_iff.mpr ⟨hSome, hSmall, rfl⟩,
      intOfDigits_eq_some_iff.mpr
        ⟨hSomeLast, hSmallLast, rfl⟩]

/- A header names one range only. -/
theorem namesRange_unique
    {header : List UInt8}
    {first last first' last' : Nat}
    (hNames : NamesRange header first last)
    (hNames' : NamesRange header first' last') :
    first = first' ∧ last = last' := by
  rcases rangeRe_of_namesRange hNames with
    ⟨startStr, endStr, hGroups, -, -, rfl, rfl⟩
  rcases rangeRe_of_namesRange hNames' with
    ⟨startStr', endStr', hGroups', -, -, rfl, rfl⟩
  rw [hGroups] at hGroups'
  cases hGroups'
  exact ⟨rfl, rfl⟩

------------------------------------------------------------
-- Responses
------------------------------------------------------------

/- The first number bounds the range, unless it is the last. -/
theorem upperBound_eq
    {first last : Nat}
    (hFirst : first < 2 ^ 63)
    (hLast : last < 2 ^ 63) :
    upperBound first last =
      if first = 2 ^ 63 - 1 then none
      else some ((first : Int) + 1) := by
  have hDifference :
      checked ((first : Int) - last) =
        some ((first : Int) - last) :=
    if_pos (by omega)
  rw [upperBound, hDifference, Option.bind_eq_bind,
    Option.bind_some]
  by_cases hWraps : (first : Int) - last + 1 < 2 ^ 63
  · have hLength :
        checked ((first : Int) - last + 1) =
          some ((first : Int) - last + 1) :=
      if_pos (by omega)
    have hSum :
        (last : Int) + ((first : Int) - last + 1) =
          (first : Int) + 1 := by
      ring
    rw [hLength, Option.bind_some, hSum]
    split_ifs with hMax
    · exact if_neg (by omega)
    · exact if_pos (by omega)
  · have hNone :
        checked ((first : Int) - last + 1) = none :=
      if_neg (by omega)
    rw [hNone, Option.bind_none, if_pos (by omega)]

/- Bytes from one number up to another, which are turned. -/
theorem drop_take_swap_iff
    {bytes : List UInt8}
    {first last : Nat}
    (hFirst : first + 1 ≤ bytes.length)
    (hOrder : first ≤ last)
    (hLast : last < bytes.length) :
    (bytes.take (first + 1)).drop last =
        (bytes.take (last + 1)).drop first ↔
      first = last := by
  constructor
  · intro hSame
    have hLength := congrArg List.length hSame
    rw [List.length_drop, List.length_drop,
      List.length_take_of_le hFirst,
      List.length_take_of_le hLast] at hLength
    omega
  · rintro rfl
    rfl

theorem allowed_serveRange_iff
    {request : Request}
    {header : List UInt8}
    {first last : Nat}
    (hHeader : request.range = some header)
    (hNames : NamesRange header first last)
    (hFirst : first < 2 ^ 63)
    (hLast : last < 2 ^ 63)
    (content : FileContent)
    (contentType : String) :
    Allowed request (some content.bytes)
        (serveRange contentType content.bytes
          (↑first, ↑last)) ↔
      (first = last ∧ last < content.bytes.length) ∨
        (content.bytes.length ≤ first ∧
          first ≠ 2 ^ 63 - 1) := by
  have hFits := content.fits
  rw [serveRange, upperBound_eq hFirst hLast]
  by_cases hMax : first = 2 ^ 63 - 1
  · rw [if_pos hMax]
    dsimp only [Allowed]
    constructor
    · exact False.elim
    · rintro (⟨hSame, hIn⟩ | ⟨-, hNot⟩)
      · omega
      · exact hNot hMax
  rw [if_neg hMax]
  dsimp only
  by_cases hInside :
      (first : Int) + 1 ≤ content.bytes.length
  · rw [if_pos hInside, subdata]
    by_cases hTurned : (last : Int) ≤ (first : Int) + 1
    · have hUpper : ((first : Int) + 1).toNat = first + 1 := by
        omega
      rw [if_pos hTurned, hUpper, Int.toNat_natCast]
      dsimp only [Allowed, rangeResponse]
      have hSent :
          Sent request content.bytes
              ((content.bytes.take (first + 1)).drop last) ↔
            first ≤ last ∧ last < content.bytes.length ∧
              (content.bytes.take (first + 1)).drop last =
                (content.bytes.take (last + 1)).drop first := by
        rw [Sent, hHeader]
        dsimp only
        constructor
        · rintro ⟨other, end', hOther, hOrder, hIn, hBody⟩
          rcases namesRange_unique hOther hNames with
            ⟨rfl, rfl⟩
          exact ⟨hOrder, hIn, hBody⟩
        · rintro ⟨hOrder, hIn, hBody⟩
          exact ⟨first, last, hNames, hOrder, hIn, hBody⟩
      have hAllowed :
          (200 = 304 ∨ 200 = 400 ∨ 200 = 418 ∨
              (200 = 200 ∧
                ∃ bytes, some content.bytes = some bytes ∧
                  ∃ body,
                    some
                        ((content.bytes.take
                          (first + 1)).drop last) =
                      some body ∧
                    Sent request bytes body)) ↔
            Sent request content.bytes
              ((content.bytes.take (first + 1)).drop
                last) := by
        simp
      rw [hAllowed, hSent]
      constructor
      · rintro ⟨hOrder, hIn, hBody⟩
        rw [drop_take_swap_iff (by omega) hOrder hIn] at hBody
        exact .inl ⟨hBody, hIn⟩
      · rintro (⟨rfl, hIn⟩ | ⟨hBehind, -⟩)
        · exact ⟨le_rfl, hIn, rfl⟩
        · omega
    · rw [if_neg hTurned]
      dsimp only [Allowed]
      constructor
      · exact False.elim
      · rintro (⟨hSame, -⟩ | ⟨hBehind, -⟩) <;> omega
  · rw [if_neg hInside]
    dsimp only [Allowed]
    constructor
    · intro _
      exact .inr ⟨by omega, hMax⟩
    · intro _
      exact .inr (.inr (.inl rfl))

theorem allowed_serve_iff
    (contentType etag : String)
    (content : FileContent)
    (request : Request) :
    Allowed request (some content.bytes)
        (serve contentType etag content.bytes request) ↔
      ∀ header first last,
        request.range = some header →
          NamesRange header first last →
            first < 2 ^ 63 → last < 2 ^ 63 →
              (first = last ∧
                  last < content.bytes.length) ∨
                (content.bytes.length ≤ first ∧
                  first ≠ 2 ^ 63 - 1) := by
  rw [serve]
  cases hHeader : request.range with
  | none =>
      rw [rangeHeader, hHeader]
      dsimp only [Allowed]
      constructor
      · intro _ header first last hAbsurd
        cases hAbsurd
      · intro _
        refine
          .inr (.inr (.inr ⟨rfl, _, rfl, _, rfl, ?_⟩))
        rw [Sent, hHeader]
  | some header =>
      cases hRange : rangeHeader request with
      | error error =>
          dsimp only [Allowed]
          constructor
          · intro _ other first last hOther hNames hFirst hLast
            cases hOther
            have hOk :=
              (rangeHeader_eq_ok_iff hHeader _).mpr
                ⟨first, last, hNames, hFirst, hLast, rfl⟩
            rw [hRange] at hOk
            cases hOk
          · intro _
            exact .inr (.inl rfl)
      | ok range =>
          cases range with
          | none =>
              rw [rangeHeader, hHeader] at hRange
              dsimp only at hRange
              split at hRange
              · cases hRange
              · split at hRange <;> cases hRange
          | some range =>
              rcases
                  (rangeHeader_eq_ok_iff hHeader range).mp
                    hRange with
                ⟨first, last, hNames, hFirst, hLast, rfl⟩
              dsimp only
              rw [allowed_serveRange_iff hHeader hNames hFirst
                hLast]
              constructor
              · intro hGood other first' last' hOther hNames'
                  _ _
                cases hOther
                rcases namesRange_unique hNames' hNames with
                  ⟨rfl, rfl⟩
                exact hGood
              · intro hAll
                exact
                  hAll header first last rfl hNames hFirst
                    hLast

/- The file is read, or the request is answered without. -/
theorem handle_cases
    (fs : FileSystem)
    (baseURL : List UInt8)
    (request : Request) :
    (∃ outcome,
        handle fs baseURL request =
            { outcome := outcome, read := none } ∧
          (∀ content, Allowed request content outcome) ∧
            ∀ etag content,
              fs.etag (fileURL baseURL request) = some etag →
                request.ifNoneMatch ≠ some etag →
                  fs.contentsOf (fileURL baseURL request) ≠
                    some content) ∨
      ∃ etag content,
        fs.etag (fileURL baseURL request) = some etag ∧
          request.ifNoneMatch ≠ some etag ∧
            fs.contentsOf (fileURL baseURL request) =
                some content ∧
              handle fs baseURL request =
                { outcome :=
                    serve
                      (fs.contentType
                        (fileURL baseURL request))
                      etag content.bytes request
                  read := some (fileURL baseURL request) } := by
  unfold handle
  dsimp only
  cases hTag : fs.etag (fileURL baseURL request) with
  | none =>
      refine .inl ⟨_, rfl, fun _ => trivial, ?_⟩
      intro etag content hAbsurd
      cases hAbsurd
  | some etag =>
      dsimp only
      split_ifs with hSame
      · refine .inl ⟨_, rfl, fun _ => .inl rfl, ?_⟩
        intro other content hOther hModified
        cases hOther
        exact absurd hSame hModified
      · cases hContent :
            fs.contentsOf (fileURL baseURL request) with
        | none =>
            refine .inl ⟨_, rfl, fun _ => trivial, ?_⟩
            intro other content _ _ hAbsurd
            cases hAbsurd
        | some content =>
            exact
              .inr ⟨etag, content, rfl, hSame, rfl, rfl⟩

/- The file is served well just when the condition is met. -/
theorem served_iff
    (fs : FileSystem)
    (baseURL : List UInt8)
    (request : Request) :
    Served fs baseURL request ↔
      Servable fs baseURL request := by
  have hBelow :
      Below (normalise (components baseURL))
          (normalise (fileURL baseURL request)) ↔
        GoesDown baseURL (fileName request.path) :=
    below_appending_iff _ _
  rcases handle_cases fs baseURL request with
    ⟨outcome, hHandle, hAllowed, hUnread⟩ |
      ⟨etag, content, hTag, hModified, hContent, hHandle⟩
  · constructor
    · intro _ etag content hTag hModified hContent
      exact
        absurd hContent
          (hUnread etag content hTag hModified)
    · intro _
      refine ⟨?_, ?_⟩
      · rw [hHandle]
        exact hAllowed _
      · intro path hRead
        rw [hHandle] at hRead
        cases hRead
  · have hBytes :
        (((handle fs baseURL request).read.bind
            fs.contentsOf).map (·.bytes)) =
          some content.bytes := by
      rw [hHandle, Option.bind_some, hContent]
      rfl
    have hServe :=
      allowed_serve_iff
        (fs.contentType (fileURL baseURL request)) etag
        content request
    constructor
    · rintro ⟨hAllowed, hStays⟩ otherTag other - - hOther
      rw [hContent, Option.some.injEq] at hOther
      subst hOther
      rw [hBytes, hHandle] at hAllowed
      refine
        ⟨hBelow.mp (hStays _ ?_), hServe.mp hAllowed⟩
      rw [hHandle]
      rfl
    · intro hServable
      have hBoth :=
        hServable etag content hTag hModified hContent
      refine ⟨?_, ?_⟩
      · rw [hBytes, hHandle]
        exact hServe.mpr hBoth.2
      · intro path hRead
        rw [hHandle] at hRead
        cases hRead
        exact hBelow.mpr hBoth.1

/- A file of twelve bytes under every path -/
def sameFile : FileSystem where
  etag := fun _ => some "tag"
  contentsOf := fun _ =>
    some
      { bytes := cString "Hello World!"
        fits := by decide }
  contentType := fun _ => "text/plain"

/- The first bytes of a file, and a file beside the base -/
theorem not_served :
    ¬ Served sameFile (cString "/www")
        { path := cString "/index.txt"
          ifNoneMatch := none
          range := some (cString "bytes=0-10") } ∧
      ¬ Served sameFile (cString "/www")
          { path := cString "/../x"
            ifNoneMatch := none
            range := none } := by
  constructor
  · intro hServed
    have hTraps :
        (handle sameFile (cString "/www")
            { path := cString "/index.txt"
              ifNoneMatch := none
              range := some (cString "bytes=0-10") }).outcome =
          .traps := by
      decide +kernel
    have hAllowed := hServed.allowed
    rw [hTraps] at hAllowed
    exact hAllowed
  · intro hServed
    have hRead :
        (handle sameFile (cString "/www")
            { path := cString "/../x"
              ifNoneMatch := none
              range := none }).read =
          some [cString "www", cString "..", cString "x"] := by
      decide +kernel
    have hPlaces :
        normalise (components (cString "/www")) =
            [cString "www"] ∧
          normalise
              [cString "www", cString "..", cString "x"] =
            [cString "x"] := by
      decide +kernel
    rcases hServed.below _ hRead with ⟨rest, -, hSame⟩
    rw [hPlaces.1, hPlaces.2] at hSame
    exact absurd (List.cons.inj hSame).1 (by decide +kernel)

end BRHTTPFileMiddleware

end PlusWallet
