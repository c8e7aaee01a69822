import PlusWallet.Hash.BRHMAC
import PlusWallet.Library.KeyedHash

/-
  The authentication code, the random generator and the derived
  keys of `BRCrypto.c` are the standard ones.

  Main declarations:
    * `code`, `BRHMAC_eq`
    * `deriveLoop_eq`, `BRPBKDF2_eq_some_iff`
    * `drawLoop_eq`, `BRHMACDRBG_seeded`, `BRHMACDRBG_next`
    * `requests`, `requests_eq`
-/

namespace PlusWallet

namespace Hash

open Bytes XorBytes Memory KeyedHash

variable (hash : HashFunction)
variable (fresh : Fresh UInt8)

------------------------------------------------------------
-- Authentication Codes
------------------------------------------------------------

namespace HashFunction

theorem blockLen_cases :
    hash.blockLen = 64 ∨ hash.blockLen = 128 := by
  unfold blockLen
  split_ifs
  · exact .inr rfl
  · exact .inl rfl

theorem blockLen_words :
    hash.blockLen / 8 * 8 = hash.blockLen := by
  rcases hash.blockLen_cases with hLen | hLen <;> rw [hLen]

theorem hashLen_le_blockLen :
    hash.hashLen ≤ hash.blockLen := by
  have hLe := hash.hashLen_le
  rcases hash.blockLen_cases with hLen | hLen <;> omega

end HashFunction

/- The standard's code with the block length of the source. -/
def code (key message : List UInt8) : List UInt8 :=
  hmac hash.digest hash.blockLen key message

@[simp]
theorem length_code (key message : List UInt8) :
    (code hash key message).length = hash.hashLen :=
  hash.length_digest _

theorem xorBytes_replicate
    (mask : UInt8)
    (block : List UInt8) :
    xorBytes block (List.replicate block.length mask) =
      masked mask block := by
  induction block with
  | nil => rfl
  | cons byte block hBlock =>
      exact congrArg ((byte ^^^ mask) :: ·) hBlock

@[simp]
theorem length_masked (mask : UInt8) (block : List UInt8) :
    (masked mask block).length = block.length :=
  List.length_map _

theorem xorWords_append
    (mask : UInt8)
    {block : List UInt8}
    {count : Nat}
    (hLength : block.length = count * 8)
    (rest : List UInt8) :
    xorWords (List.replicate 8 mask) count (block ++ rest) =
      masked mask block ++ rest := by
  induction count generalizing block with
  | zero =>
      rw [Nat.zero_mul, List.length_eq_zero_iff] at hLength
      rw [hLength]
      rfl
  | succ count hStep =>
      have hWord : (block.take 8).length = 8 := by
        rw [List.length_take]
        omega
      have hLater : (block.drop 8).length = count * 8 := by
        rw [List.length_drop]
        omega
      have hMasked := xorBytes_replicate mask (block.take 8)
      rw [hWord] at hMasked
      rw [xorWords, List.take_append_of_le_length (by omega),
        List.drop_append_of_le_length (by omega), hMasked,
        hStep hLater, ← List.append_assoc, masked, masked,
        ← List.map_append, List.take_append_drop, masked]

/- The key is at most one block here. -/
theorem maskKey_eq
    (mask : UInt8)
    {room key : List UInt8}
    (hKey : key.length ≤ hash.blockLen)
    (hRoom : hash.blockLen ≤ room.length) :
    maskKey hash mask room key =
      some
        (masked mask
            (key ++
              List.replicate (hash.blockLen - key.length) 0) ++
          room.drop hash.blockLen) := by
  have hZeros :
      (List.replicate hash.blockLen (0 : UInt8)).length =
        hash.blockLen :=
    List.length_replicate
  have hFirst := put_front (hZeros.le.trans hRoom)
  rw [hZeros] at hFirst
  have hSecond :
      put
          (List.replicate hash.blockLen 0 ++
            room.drop hash.blockLen) 0 key =
        some
          (key ++
              List.replicate (hash.blockLen - key.length) 0 ++
            room.drop hash.blockLen) := by
    rw [put_front (by rw [List.length_append]; omega),
      List.drop_append_of_le_length (by omega),
      List.drop_replicate, List.append_assoc]
  have hBlock :
      (key ++
          List.replicate (hash.blockLen - key.length)
            (0 : UInt8)).length =
        hash.blockLen / 8 * 8 := by
    rw [hash.blockLen_words, List.length_append,
      List.length_replicate]
    omega
  rw [maskKey, hFirst, Option.bind_eq_bind, Option.bind_some,
    hSecond, Option.bind_some,
    xorWords_append mask hBlock]
  rfl

theorem length_keyBlock (key : List UInt8) :
    (keyBlock hash.digest hash.blockLen key).length =
      hash.blockLen := by
  have hLe := hash.hashLen_le_blockLen
  unfold keyBlock
  split_ifs with hLong
  · simp only [List.length_append, hash.length_digest,
      List.length_replicate]
    omega
  · simp only [List.length_append, List.length_replicate]
    omega

/- What is copied behind the first block. -/
theorem put_behind
    {block rest data : List UInt8}
    (hBlock : block.length = hash.blockLen)
    (hRoom : data.length ≤ rest.length) :
    ∃ found,
      put (block ++ rest) (hash.blockLen / 8 * 8) data =
          some found ∧
        found.take (hash.blockLen + data.length) =
          block ++ data := by
  have hOff : block.length = hash.blockLen / 8 * 8 := by
    rw [hash.blockLen_words, hBlock]
  refine ⟨_, put_between hOff hRoom, ?_⟩
  exact List.take_left' (by rw [List.length_append, hBlock])

/- The code of the source is the standard one. -/
theorem BRHMAC_eq (key data : List UInt8) :
    BRHMAC hash fresh key data = some (code hash key data) := by
  have hShort :
      (if key.length > hash.blockLen then hash.digest key
          else key).length ≤
        hash.blockLen := by
    have hLe := hash.hashLen_le_blockLen
    split_ifs
    · rw [hash.length_digest]
      exact hLe
    · omega
  have hRoom (count : Nat) :
      hash.blockLen + count ≤
        (fresh.room
          (((hash.blockLen + count) / 8 + 1) * 8)).length := by
    rw [fresh.length_room]
    omega
  have hRest (count : Nat) :
      count ≤
        ((fresh.room
          (((hash.blockLen + count) / 8 + 1) * 8)).drop
            hash.blockLen).length := by
    rw [List.length_drop]
    have hFits := hRoom count
    omega
  have hBlock (mask : UInt8) :
      (masked mask
        (keyBlock hash.digest hash.blockLen key)).length =
        hash.blockLen := by
    rw [length_masked, length_keyBlock]
  have hInner := maskKey_eq hash 0x36 hShort
    ((Nat.le_add_right _ _).trans (hRoom data.length))
  have hOuter := maskKey_eq hash 0x5c hShort
    ((Nat.le_add_right _ _).trans (hRoom hash.hashLen))
  rcases put_behind hash (hBlock 0x36) (hRest data.length) with
    ⟨kipad, hKipad, hMessage⟩
  have hDigest := hash.length_digest
    (masked 0x36 (keyBlock hash.digest hash.blockLen key) ++
      data)
  have hRestOuter := hRest hash.hashLen
  rw [← hDigest] at hRestOuter
  rcases put_behind hash (hBlock 0x5c) hRestOuter with
    ⟨kopad, hKopad, hWhole⟩
  rw [hDigest] at hKopad hWhole
  change
    (maskKey hash 0x36 _ _).bind (fun kipad =>
      (maskKey hash 0x5c _ _).bind fun kopad =>
        (put kipad _ data).bind fun kipad =>
          (put kopad _ _).bind fun kopad => some _) = _
  rw [hInner, Option.bind_some, hOuter, Option.bind_some]
  change
    (put
        (masked 0x36 (keyBlock hash.digest hash.blockLen key) ++
          _) _ data).bind _ = _
  rw [hKipad, Option.bind_some, hMessage]
  change
    (put
        (masked 0x5c (keyBlock hash.digest hash.blockLen key) ++
          _) _ _).bind _ = _
  rw [hKopad, Option.bind_some, hWhole]
  rfl

------------------------------------------------------------
-- Derived Keys
------------------------------------------------------------

theorem stretch_eq
    (pw : List UInt8)
    (rounds : Nat)
    (U T : List UInt8) :
    stretch hash fresh pw rounds U T =
      some
        ((List.iterate (code hash pw) (code hash pw U)
          rounds).foldl xorBytes T) := by
  induction rounds generalizing U T with
  | zero => rfl
  | succ rounds hStep =>
      rw [stretch, BRHMAC_eq]
      exact hStep _ _

theorem xorBytes_zeros (bytes : List UInt8) :
    xorBytes (List.replicate bytes.length 0) bytes = bytes := by
  induction bytes with
  | nil => rfl
  | cons byte bytes hBytes =>
      change (0 ^^^ byte) :: _ = _
      rw [UInt8.zero_xor]
      exact congrArg (byte :: ·) hBytes

@[simp]
theorem length_derivedBlock
    (pw salt : List UInt8)
    (rounds number : Nat) :
    (derivedBlock (code hash pw) hash.hashLen rounds salt
      number).length = hash.hashLen := by
  have hAll :
      ∀ (items : List (List UInt8)) (front : List UInt8),
        (∀ item ∈ items, item.length = hash.hashLen) →
        front.length = hash.hashLen →
          (items.foldl xorBytes front).length =
            hash.hashLen := by
    intro items
    induction items with
    | nil => exact fun front _ hFront => hFront
    | cons item items hItems =>
        intro front hLengths hFront
        refine hItems _
          (fun other hOther =>
            hLengths other (List.mem_cons_of_mem _ hOther)) ?_
        rw [length_xorBytes, hFront,
          hLengths item List.mem_cons_self, Nat.min_self]
  refine hAll _ _ (fun item hItem => ?_) List.length_replicate
  rcases List.mem_iterate.mp hItem with ⟨i, -, rfl⟩
  rcases i with _ | i
  · exact length_code hash _ _
  · rw [Function.iterate_succ_apply']
    exact length_code hash _ _

/- The first block's code starts the sum. -/
theorem stretch_derivedBlock
    (pw salt : List UInt8)
    {rounds : Nat}
    (hRounds : 0 < rounds)
    (number : Nat) :
    stretch hash fresh pw (rounds - 1)
        (code hash pw (salt ++ bigEndian 4 number))
        (code hash pw (salt ++ bigEndian 4 number)) =
      some
        (derivedBlock (code hash pw) hash.hashLen rounds salt
          number) := by
  rcases rounds with _ | rounds
  · exact absurd hRounds (Nat.lt_irrefl 0)
  · have hFirst :=
      xorBytes_zeros
        (code hash pw (salt ++ bigEndian 4 number))
    rw [length_code] at hFirst
    rw [Nat.add_sub_cancel, stretch_eq, derivedBlock, xorAll,
      List.iterate, List.foldl_cons, hFirst]

theorem derivedBlocks_succ
    (pw salt : List UInt8)
    (rounds count : Nat) :
    derivedBlocks (code hash pw) hash.hashLen rounds salt
        (count + 1) =
      derivedBlocks (code hash pw) hash.hashLen rounds salt
          count ++
        derivedBlock (code hash pw) hash.hashLen rounds salt
          (count + 1) := by
  rw [derivedBlocks, List.range_succ, List.flatMap_append,
    List.flatMap_singleton, derivedBlocks]

theorem length_derivedBlocks
    (pw salt : List UInt8)
    (rounds count : Nat) :
    (derivedBlocks (code hash pw) hash.hashLen rounds salt
      count).length = count * hash.hashLen := by
  induction count with
  | zero => rw [Nat.zero_mul]; rfl
  | succ count hCount =>
      rw [derivedBlocks_succ, List.length_append, hCount,
        length_derivedBlock, Nat.succ_mul]

/- Where the loop stands after `i` blocks. -/
structure Derived
    (pw salt : List UInt8)
    (rounds length i : Nat)
    (s dk : List UInt8) : Prop where
  salted : ∃ j : List UInt8, j.length = 4 ∧ s = salt ++ j
  length_eq : dk.length = length
  taken :
    dk.take (i * hash.hashLen) =
      (derivedBlocks (code hash pw) hash.hashLen rounds salt
        i).take length

/- One turn of the loop. -/
theorem Derived.turn
    {pw salt : List UInt8}
    {rounds length i : Nat}
    {s dk : List UInt8}
    (hDerived : Derived hash pw salt rounds length i s dk)
    (hRounds : 0 < rounds)
    (hInside : i * hash.hashLen < length)
    (hNumber : i + 1 < 2 ^ 32)
    (count left : Nat)
    (hCount : i < count) :
    ∃ s' dk',
      Derived hash pw salt rounds length (i + 1) s' dk' ∧
        deriveLoop hash fresh pw rounds salt.length count
            (left + 1) i s dk =
          deriveLoop hash fresh pw rounds salt.length count
            left (i + 1) s' dk' := by
  rcases hDerived with ⟨⟨j, hJ, rfl⟩, rfl, hTaken⟩
  have hPut :
      put (salt ++ j) salt.length
          (bigEndian 4 ((i + 1) % 2 ^ 32)) =
        some (salt ++ bigEndian 4 (i + 1)) := by
    rw [Nat.mod_eq_of_lt hNumber]
    exact put_rest rfl (by rw [hJ, length_bigEndian])
  have hFront :=
    length_derivedBlocks hash pw salt rounds i
  have hAll :
      (derivedBlocks (code hash pw) hash.hashLen rounds salt
          i).take dk.length =
        derivedBlocks (code hash pw) hash.hashLen rounds salt
          i :=
    List.take_of_length_le (hFront.le.trans hInside.le)
  rw [hAll] at hTaken
  rcases put_block hInside hFront
    (length_derivedBlock hash pw salt rounds (i + 1)) hTaken
    with ⟨dk', hFound, hLength, hNext⟩
  refine ⟨salt ++ bigEndian 4 (i + 1), dk',
    ⟨⟨_, length_bigEndian _ _, rfl⟩, hLength, ?_⟩, ?_⟩
  · rw [hNext, derivedBlocks_succ]
  · rw [deriveLoop, if_pos hCount]
    change (put _ _ _).bind _ = _
    rw [hPut, Option.bind_some]
    change (BRHMAC _ _ _ _).bind _ = _
    rw [BRHMAC_eq, Option.bind_some]
    change (stretch _ _ _ _ _ _).bind _ = _
    rw [stretch_derivedBlock hash fresh pw salt hRounds,
      Option.bind_some]
    change (put dk _ (List.take (fitting _ _ _) _)).bind _ = _
    rw [hFound, Option.bind_some, Nat.mod_eq_of_lt hNumber]

/- The turns that are left, and what they leave. -/
theorem deriveLoop_eq
    {pw salt : List UInt8}
    {rounds length count : Nat}
    (hRounds : 0 < rounds)
    (hCount :
      count = (length + hash.hashLen - 1) / hash.hashLen)
    (hShort : count < 2 ^ 32)
    (left : Nat)
    {i : Nat}
    (hBegun : i ≤ count)
    {s dk : List UInt8}
    (hDerived : Derived hash pw salt rounds length i s dk) :
    deriveLoop hash fresh pw rounds salt.length count left i s
        dk =
      if count - i < left then
        some
          ((derivedBlocks (code hash pw) hash.hashLen rounds
            salt count).take length)
      else none := by
  have hPos := hash.hashLen_pos
  induction left generalizing i s dk with
  | zero => rw [if_neg (Nat.not_lt_zero _)]; rfl
  | succ left hStep =>
      rcases Nat.lt_or_eq_of_le hBegun with hMore | rfl
      · have hInside : i * hash.hashLen < length := by
          have hLe : (i + 1) * hash.hashLen ≤
              length + hash.hashLen - 1 :=
            (Nat.le_div_iff_mul_le hPos).mp (hCount ▸ hMore)
          rw [Nat.succ_mul] at hLe
          omega
        rcases hDerived.turn hash fresh hRounds hInside
          (by omega) count left hMore with
          ⟨s', dk', hNext, hLoop⟩
        rw [hLoop, hStep hMore hNext]
        exact if_congr (by omega) rfl rfl
      · have hWhole : dk.length ≤ i * hash.hashLen := by
          rw [hDerived.length_eq, hCount]
          have hLess :=
            Nat.lt_div_mul_add (a := length + hash.hashLen - 1)
              hPos
          omega
        have hTaken := hDerived.taken
        rw [List.take_of_length_le hWhole] at hTaken
        rw [deriveLoop, if_neg (Nat.lt_irrefl i), hTaken,
          if_pos (by omega)]

/- With too many blocks the counter starts over. -/
theorem deriveLoop_endless
    (pw : List UInt8)
    (rounds saltLen : Nat)
    {count : Nat}
    (hCount : 2 ^ 32 ≤ count)
    (left : Nat)
    {i : Nat}
    (hCounter : i < 2 ^ 32)
    (s dk : List UInt8) :
    deriveLoop hash fresh pw rounds saltLen count left i s dk =
      none := by
  induction left generalizing i s dk with
  | zero => rfl
  | succ left hStep =>
      have hAgain : (i + 1) % 2 ^ 32 < 2 ^ 32 :=
        Nat.mod_lt _ (by decide)
      rw [deriveLoop, if_pos (by omega)]
      simp only [Option.bind_eq_bind, Option.bind_eq_none_iff]
      intros
      exact hStep hAgain _ _

/- The blocks that a key of so many bytes takes. -/
def blockCount (length : Nat) : Nat :=
  (length + hash.hashLen - 1) / hash.hashLen

theorem blockCount_lt_iff (length : Nat) :
    blockCount hash length < 2 ^ 32 ↔
      length ≤ (2 ^ 32 - 1) * hash.hashLen := by
  have hPos := hash.hashLen_pos
  rw [blockCount, Nat.div_lt_iff_lt_mul hPos]
  omega

theorem length_pbkdf2
    (pw salt : List UInt8)
    (rounds length : Nat) :
    (pbkdf2 (code hash pw) hash.hashLen rounds salt
      length).length = length := by
  have hLess :
      length + hash.hashLen - 1 <
        (length + hash.hashLen - 1) / hash.hashLen *
            hash.hashLen +
          hash.hashLen :=
    Nat.lt_div_mul_add hash.hashLen_pos
  rw [pbkdf2, List.length_take, length_derivedBlocks]
  omega

/- The salt in front of a number that is not written yet. -/
def unnumbered (salt : List UInt8) : List UInt8 :=
  salt ++ (fresh.room (salt.length + 4)).drop salt.length

theorem derived_start
    (dk pw salt : List UInt8)
    (rounds : Nat) :
    Derived hash pw salt rounds dk.length 0
      (unnumbered fresh salt) dk := by
  refine ⟨⟨_, ?_, rfl⟩, rfl, ?_⟩
  · rw [List.length_drop, fresh.length_room]
    omega
  · rw [Nat.zero_mul, List.take_zero]
    exact List.take_nil.symm

theorem BRPBKDF2_run
    (dk pw salt : List UInt8)
    (rounds turns : Nat)
    (hFits : dk.length + hash.hashLen ≤ 2 ^ 64) :
    BRPBKDF2 hash fresh turns dk pw salt rounds =
      deriveLoop hash fresh pw rounds salt.length
        (blockCount hash dk.length) turns 0
        (unnumbered fresh salt) dk := by
  have hPos := hash.hashLen_pos
  have hMod :
      (dk.length + hash.hashLen - 1) % 2 ^ 64 =
        dk.length + hash.hashLen - 1 :=
    Nat.mod_eq_of_lt (by omega)
  have hRoom :
      salt.length ≤
        (fresh.room (salt.length + 4)).length := by
    rw [fresh.length_room]
    exact Nat.le_add_right _ _
  rw [BRPBKDF2, put_front hRoom, hMod]
  rfl

/- The key, once the turns suffice. -/
theorem BRPBKDF2_of_le
    (dk pw salt : List UInt8)
    {rounds : Nat}
    (hRounds : 0 < rounds)
    (hFits : dk.length + hash.hashLen ≤ 2 ^ 64)
    (hAllowed : dk.length ≤ (2 ^ 32 - 1) * hash.hashLen)
    (turns : Nat) :
    BRPBKDF2 hash fresh turns dk pw salt rounds =
      if blockCount hash dk.length < turns then
        some
          (pbkdf2 (code hash pw) hash.hashLen rounds salt
            dk.length)
      else none := by
  rw [BRPBKDF2_run hash fresh dk pw salt rounds turns hFits]
  exact deriveLoop_eq hash fresh hRounds rfl
    ((blockCount_lt_iff hash _).mpr hAllowed) turns
    (Nat.zero_le _) (derived_start hash fresh dk pw salt rounds)

/-
  The derived key is the standard's, for every length that the
  standard allows, and beyond these lengths the loop never ends.
-/
theorem BRPBKDF2_eq_some_iff
    (dk pw salt : List UInt8)
    {rounds : Nat}
    (hRounds : 0 < rounds)
    (hFits : dk.length + hash.hashLen ≤ 2 ^ 64)
    (found : List UInt8) :
    (∃ turns,
        BRPBKDF2 hash fresh turns dk pw salt rounds =
          some found) ↔
      dk.length ≤ (2 ^ 32 - 1) * hash.hashLen ∧
        found =
          pbkdf2 (code hash pw) hash.hashLen rounds salt
            dk.length := by
  by_cases hAllowed :
      dk.length ≤ (2 ^ 32 - 1) * hash.hashLen
  · have hRun :=
      BRPBKDF2_of_le hash fresh dk pw salt hRounds hFits
        hAllowed
    constructor
    · rintro ⟨turns, hTurns⟩
      rw [hRun] at hTurns
      split_ifs at hTurns
      cases hTurns
      exact ⟨hAllowed, rfl⟩
    · rintro ⟨-, rfl⟩
      refine ⟨2 ^ 32, ?_⟩
      rw [hRun,
        if_pos ((blockCount_lt_iff hash _).mpr hAllowed)]
  · constructor
    · rintro ⟨turns, hTurns⟩
      have hMany :
          2 ^ 32 ≤ blockCount hash dk.length :=
        Nat.le_of_not_lt fun hFew =>
          hAllowed ((blockCount_lt_iff hash _).mp hFew)
      rw [BRPBKDF2_run hash fresh dk pw salt rounds turns
          hFits,
        deriveLoop_endless hash fresh pw rounds salt.length
          hMany turns (by decide)] at hTurns
      cases hTurns
    · exact fun hBoth => absurd hBoth.1 hAllowed

/- A hash function for examples. -/
def foldHash : HashFunction where
  digest data :=
    littleEndian 32
      (data.foldl (fun sum byte => sum * 31 + byte.toNat + 1) 7)
  hashLen := 32
  length_digest _ := length_littleEndian _ _
  hashLen_pos := by decide
  hashLen_mod := rfl
  hashLen_le := by decide

/- Rooms that hold zeros. -/
def blankRooms : Fresh UInt8 where
  room size := List.replicate size 0
  length_room _ := List.length_replicate

theorem BRPBKDF2_eq_some_iff_forty :
    ∃ turns,
      BRPBKDF2 foldHash blankRooms turns (List.replicate 40 0)
          [1, 2] [3] 2 =
        some (pbkdf2 (code foldHash [1, 2]) 32 2 [3] 40) :=
  (BRPBKDF2_eq_some_iff foldHash blankRooms
    (List.replicate 40 0) [1, 2] [3] (by decide) (by decide)
    _).mpr ⟨by decide, rfl⟩

------------------------------------------------------------
-- Random Bytes
------------------------------------------------------------

theorem length_values
    (drbg : Drbg)
    (count : Nat) :
    (drbg.values (code hash) count).flatten.length =
      count * hash.hashLen := by
  induction count with
  | zero => rw [Nat.zero_mul]; rfl
  | succ count hCount =>
      rw [Drbg.values_succ, List.flatten_append,
        List.length_append, hCount, List.flatten_singleton,
        length_code, Nat.succ_mul]

/- Where the loop stands after `i` values. -/
structure Drawn
    (drbg : Drbg)
    (length i : Nat)
    (V out : List UInt8) : Prop where
  value_eq : V = (drbg.advanced (code hash) i).value
  length_eq : out.length = length
  taken :
    out.take (i * hash.hashLen) =
      (drbg.values (code hash) i).flatten.take length

/- One turn of the loop. -/
theorem Drawn.turn
    {drbg : Drbg}
    {length i : Nat}
    {V out : List UInt8}
    (hDrawn : Drawn hash drbg length i V out)
    (hFits : length + hash.hashLen ≤ 2 ^ 64)
    (hInside : i * hash.hashLen < length)
    (left : Nat) :
    ∃ V' out',
      Drawn hash drbg length (i + 1) V' out' ∧
        drawLoop hash fresh drbg.key (left + 1) i V out =
          drawLoop hash fresh drbg.key left (i + 1) V'
            out' := by
  rcases hDrawn with ⟨rfl, rfl, hTaken⟩
  have hOff :
      i * hash.hashLen % 2 ^ 64 = i * hash.hashLen :=
    Nat.mod_eq_of_lt (by omega)
  have hNext :
      (i * hash.hashLen + hash.hashLen) % 2 ^ 64 =
        i * hash.hashLen + hash.hashLen :=
    Nat.mod_eq_of_lt (by omega)
  have hFront := length_values hash drbg i
  have hAll :
      (drbg.values (code hash) i).flatten.take out.length =
        (drbg.values (code hash) i).flatten :=
    List.take_of_length_le (hFront.le.trans hInside.le)
  rw [hAll] at hTaken
  rcases put_block hInside hFront
    (length_code hash drbg.key
      (drbg.advanced (code hash) i).value) hTaken with
    ⟨out', hFound, hLength, hLater⟩
  refine ⟨code hash drbg.key
      (drbg.advanced (code hash) i).value,
    out', ⟨?_, hLength, ?_⟩, ?_⟩
  · rw [Drbg.advanced_succ]
  · rw [hLater, Drbg.values_succ, List.flatten_append,
      List.flatten_singleton]
  · rw [drawLoop, hOff, if_pos hInside, hNext]
    change (BRHMAC _ _ _ _).bind _ = _
    rw [BRHMAC_eq, Option.bind_some]
    change (put out _ (List.take (fitting _ _ _) _)).bind _ = _
    rw [hFound, Option.bind_some]

/- The loop ends with as many values as the output takes. -/
theorem drawLoop_eq
    {drbg : Drbg}
    {length : Nat}
    (hFits : length + hash.hashLen ≤ 2 ^ 64)
    (left : Nat)
    {i : Nat}
    (hBegun : i ≤ Drbg.valuesFor hash.hashLen length)
    (hLeft : Drbg.valuesFor hash.hashLen length < i + left)
    {V out : List UInt8}
    (hDrawn : Drawn hash drbg length i V out) :
    drawLoop hash fresh drbg.key left i V out =
      some
        ((drbg.values (code hash)
            (Drbg.valuesFor hash.hashLen length)).flatten.take
          length,
          (drbg.advanced (code hash)
            (Drbg.valuesFor hash.hashLen length)).value) := by
  have hPos := hash.hashLen_pos
  induction left generalizing i V out with
  | zero => omega
  | succ left hStep =>
      rcases Nat.lt_or_eq_of_le hBegun with hMore | rfl
      · have hInside : i * hash.hashLen < length := by
          have hLe :
              (i + 1) * hash.hashLen ≤
                length + hash.hashLen - 1 :=
            (Nat.le_div_iff_mul_le hPos).mp hMore
          rw [Nat.succ_mul] at hLe
          omega
        rcases hDrawn.turn hash fresh hFits hInside left with
          ⟨V', out', hNext, hLoop⟩
        rw [hLoop]
        exact hStep hMore (by omega) hNext
      · have hLess :
            length + hash.hashLen - 1 <
              Drbg.valuesFor hash.hashLen length *
                  hash.hashLen +
                hash.hashLen :=
          Nat.lt_div_mul_add hPos
        have hMost :
            Drbg.valuesFor hash.hashLen length *
                hash.hashLen ≤
              length + hash.hashLen - 1 :=
          Nat.div_mul_le_self _ _
        have hOff :
            Drbg.valuesFor hash.hashLen length *
                  hash.hashLen %
                2 ^ 64 =
              Drbg.valuesFor hash.hashLen length *
                hash.hashLen :=
          Nat.mod_eq_of_lt (by omega)
        have hTaken := hDrawn.taken
        rw [List.take_of_length_le
          (by rw [hDrawn.length_eq]; omega)] at hTaken
        rw [drawLoop, hOff, if_neg
          (by rw [hDrawn.length_eq]; omega), ← hTaken,
          ← hDrawn.value_eq]

/- The buffer of the first half of an update. -/
theorem exists_buffer
    (V seed nonce ps : List UInt8)
    (hV : V.length = hash.hashLen) :
    ∃ a b c d,
      put
          (fresh.room
            (hash.hashLen + 1 + seed.length + nonce.length +
              ps.length)) 0 V =
          some a ∧
        put a hash.hashLen [0x00] = some b ∧
        put b (hash.hashLen + 1) seed = some c ∧
        put c (hash.hashLen + 1 + seed.length) nonce =
          some d ∧
        put d (hash.hashLen + 1 + seed.length + nonce.length)
            ps =
          some (V ++ 0x00 :: (seed ++ nonce ++ ps)) := by
  have hRoom :
      (fresh.room
          (hash.hashLen + 1 + seed.length + nonce.length +
            ps.length)).length =
        hash.hashLen + 1 + seed.length + nonce.length +
          ps.length :=
    fresh.length_room _
  refine ⟨_, _, _, _, put_front (by omega),
    put_between hV ?_, put_between ?_ ?_, put_between ?_ ?_,
    ?_⟩
  · rw [List.length_drop, List.length_singleton]
    omega
  · rw [List.length_append, List.length_singleton, hV]
  · simp only [List.length_drop, List.length_singleton]
    omega
  · simp only [List.length_append, List.length_singleton, hV]
  · simp only [List.length_drop, List.length_singleton]
    omega
  · rw [put_rest]
    · simp only [List.append_assoc, List.cons_append,
        List.nil_append]
    · simp only [List.length_append, List.length_singleton, hV]
    · simp only [List.length_drop, List.length_singleton]
      omega

/- The buffer of the second half. -/
theorem exists_again
    (material : List UInt8)
    {V W : List UInt8}
    (hV : V.length = hash.hashLen)
    (hW : W.length = hash.hashLen) :
    ∃ a,
      put (V ++ 0x00 :: material) 0 W = some a ∧
        put a hash.hashLen [0x01] =
          some (W ++ 0x01 :: material) := by
  have hFront :
      put (V ++ 0x00 :: material) 0 W =
        some (W ++ 0x00 :: material) := by
    rw [put_front (by rw [List.length_append]; omega),
      List.drop_left' (hV.trans hW.symm)]
  refine ⟨_, hFront, ?_⟩
  have hMark :
      [(0x01 : UInt8)].length ≤ (0x00 :: material).length :=
    Nat.succ_le_succ (Nat.zero_le _)
  rw [put_between hW hMark, List.append_assoc]
  rfl

/- What one call leaves behind: the output, and the secrets. -/
def answer (drbg : Drbg) (length : Nat) :
    List UInt8 × List UInt8 × List UInt8 :=
  let count := Drbg.valuesFor hash.hashLen length
  ((drbg.values (code hash) count).flatten.take length,
    drbg.key, (drbg.advanced (code hash) count).value)

theorem drawLoop_start
    (drbg : Drbg)
    (out : List UInt8)
    (hFits : out.length + hash.hashLen ≤ 2 ^ 64) :
    drawLoop hash fresh drbg.key (out.length + 1) 0 drbg.value
        out =
      some
        ((answer hash drbg out.length).1,
          (answer hash drbg out.length).2.2) := by
  have hPos := hash.hashLen_pos
  have hLeft :
      Drbg.valuesFor hash.hashLen out.length <
        0 + (out.length + 1) := by
    rw [Drbg.valuesFor, Nat.div_lt_iff_lt_mul hPos,
      Nat.zero_add, Nat.succ_mul]
    have hLe := Nat.le_mul_of_pos_right out.length hPos
    omega
  refine drawLoop_eq hash fresh hFits _ (Nat.zero_le _) hLeft
    ⟨rfl, rfl, ?_⟩
  rw [Nat.zero_mul, List.take_zero]
  exact List.take_nil.symm

/- The first call of a generator. -/
theorem BRHMACDRBG_seeded
    {out K V : List UInt8}
    {seed nonce ps : Option (List UInt8)}
    (hFits : out.length + hash.hashLen ≤ 2 ^ 64)
    (hMaterial :
      seed.getD [] ++ nonce.getD [] ++ ps.getD [] ≠ []) :
    BRHMACDRBG hash fresh out K V seed nonce ps =
      some
        (answer hash
          (Drbg.instantiate (code hash) hash.hashLen
            (seed.getD [] ++ nonce.getD [] ++ ps.getD []))
          out.length) := by
  have hSeeded :
      (seed.isSome || nonce.isSome || ps.isSome) = true := by
    rcases seed with _ | seed
    · rcases nonce with _ | nonce
      · rcases ps with _ | ps
        · exact absurd rfl hMaterial
        · rfl
      · rfl
    · rfl
  have hOnes :
      (List.replicate hash.hashLen (0x01 : UInt8)).length =
        hash.hashLen :=
    List.length_replicate
  rcases exists_buffer hash fresh
    (List.replicate hash.hashLen 0x01) (seed.getD [])
    (nonce.getD []) (ps.getD []) hOnes with
    ⟨a, b, c, d, hA, hB, hC, hD, hBuf⟩
  rcases exists_again hash
    (seed.getD [] ++ nonce.getD [] ++ ps.getD []) hOnes
    (length_code hash
      (code hash (List.replicate hash.hashLen 0)
        (List.replicate hash.hashLen 1 ++
          0x00 ::
            (seed.getD [] ++ nonce.getD [] ++ ps.getD [])))
      (List.replicate hash.hashLen 1)) with
    ⟨e, hE, hAgain⟩
  rw [Drbg.instantiate, Drbg.update, if_neg hMaterial]
  simp only [BRHMACDRBG, hSeeded, ↓reduceIte, hA, hB, hC, hD,
    hBuf, hE, hAgain, BRHMAC_eq, Option.bind_eq_bind,
    Option.bind_some]
  have hLoop := drawLoop_start hash fresh
    (Drbg.stirred (code hash) 1
      (seed.getD [] ++ nonce.getD [] ++ ps.getD [])
      (Drbg.stirred (code hash) 0
        (seed.getD [] ++ nonce.getD [] ++ ps.getD [])
        { key := List.replicate hash.hashLen 0,
          value := List.replicate hash.hashLen 1 }))
    out hFits
  exact Option.bind_eq_some_iff.mpr ⟨_, hLoop, rfl⟩

/- A later call of a generator. -/
theorem BRHMACDRBG_next
    {out K V : List UInt8}
    (hFits : out.length + hash.hashLen ≤ 2 ^ 64)
    (hV : V.length = hash.hashLen) :
    BRHMACDRBG hash fresh out K V none none none =
      some
        (answer hash
          (Drbg.update (code hash) []
            { key := K, value := V })
          out.length) := by
  rcases exists_buffer hash fresh V [] [] [] hV with
    ⟨a, b, c, d, hA, hB, hC, hD, hBuf⟩
  simp only [BRHMACDRBG, Option.isSome_none, Bool.or_self,
    Bool.false_eq_true, ↓reduceIte, Option.getD_none, hA, hB,
    hC, hD, hBuf, BRHMAC_eq, Option.bind_eq_bind,
    Option.bind_some]
  have hLoop := drawLoop_start hash fresh
    (Drbg.update (code hash) [] { key := K, value := V }) out
    hFits
  exact Option.bind_eq_some_iff.mpr ⟨_, hLoop, rfl⟩

------------------------------------------------------------
-- Requests
------------------------------------------------------------

/- Calls without a seed, each with the secrets of the one
   before it. -/
def laterRequests :
    List UInt8 → List UInt8 → List (List UInt8) →
      Option (List (List UInt8))
  | _, _, [] => some []
  | K, V, out :: outs => do
      let (found, K, V) ←
        BRHMACDRBG hash fresh out K V none none none
      let rest ← laterRequests K V outs
      return found :: rest

/- A call with a seed, and calls without. -/
def requests
    (K V : List UInt8)
    (seed nonce ps : Option (List UInt8))
    (out : List UInt8)
    (outs : List (List UInt8)) :
    Option (List (List UInt8)) := do
  let (found, K, V) ←
    BRHMACDRBG hash fresh out K V seed nonce ps
  let rest ← laterRequests hash fresh K V outs
  return found :: rest

@[simp]
theorem length_value_update
    (material : List UInt8)
    (drbg : Drbg) :
    (Drbg.update (code hash) material drbg).value.length =
      hash.hashLen := by
  unfold Drbg.update
  split_ifs
  · exact length_code hash _ _
  · exact length_code hash _ _

theorem length_value_advanced
    {drbg : Drbg}
    (hValue : drbg.value.length = hash.hashLen)
    (count : Nat) :
    (drbg.advanced (code hash) count).value.length =
      hash.hashLen := by
  rcases count with _ | count
  · exact hValue
  · rw [Drbg.advanced_succ]
    exact length_code hash _ _

/- The update that the standard makes at the end of a request
   is made at the start of the next call. -/
theorem laterRequests_eq
    {outs : List (List UInt8)}
    (hFits :
      ∀ out ∈ outs, out.length + hash.hashLen ≤ 2 ^ 64)
    {K V : List UInt8}
    (hV : V.length = hash.hashLen) :
    laterRequests hash fresh K V outs =
      some
        (Drbg.outputs (code hash) hash.hashLen
          (Drbg.update (code hash) []
            { key := K, value := V })
          (outs.map List.length)) := by
  induction outs generalizing K V with
  | nil => rfl
  | cons out outs hStep =>
      let drbg :=
        Drbg.update (code hash) [] { key := K, value := V }
      let count := Drbg.valuesFor hash.hashLen out.length
      have hHere := BRHMACDRBG_next hash fresh (K := K)
        (hFits out List.mem_cons_self) hV
      have hValue :
          (drbg.advanced (code hash) count).value.length =
            hash.hashLen :=
        length_value_advanced hash
          (length_value_update hash [] _) count
      have hLater := hStep
        (fun other hOther =>
          hFits other (List.mem_cons_of_mem _ hOther))
        (K := drbg.key) hValue
      rw [← Drbg.advanced_eq] at hLater
      rw [laterRequests, hHere]
      exact Option.bind_eq_some_iff.mpr
        ⟨_, rfl, Option.bind_eq_some_iff.mpr
          ⟨_, hLater, rfl⟩⟩

/-
  The outputs of one generator are the standard's, whatever
  stands in the buffers for the secrets at first.
-/
theorem requests_eq
    (K V : List UInt8)
    {seed nonce ps : Option (List UInt8)}
    (hMaterial :
      seed.getD [] ++ nonce.getD [] ++ ps.getD [] ≠ [])
    {out : List UInt8}
    {outs : List (List UInt8)}
    (hFits :
      ∀ other ∈ out :: outs,
        other.length + hash.hashLen ≤ 2 ^ 64) :
    requests hash fresh K V seed nonce ps out outs =
      some
        (Drbg.outputs (code hash) hash.hashLen
          (Drbg.instantiate (code hash) hash.hashLen
            (seed.getD [] ++ nonce.getD [] ++ ps.getD []))
          ((out :: outs).map List.length)) := by
  let drbg :=
    Drbg.instantiate (code hash) hash.hashLen
      (seed.getD [] ++ nonce.getD [] ++ ps.getD [])
  let count := Drbg.valuesFor hash.hashLen out.length
  have hFirst := BRHMACDRBG_seeded hash fresh (K := K) (V := V)
    (hFits out List.mem_cons_self) hMaterial
  have hValue :
      (drbg.advanced (code hash) count).value.length =
        hash.hashLen :=
    length_value_advanced hash
      (length_value_update hash _ _) count
  have hLater := laterRequests_eq hash fresh
    (fun other hOther =>
      hFits other (List.mem_cons_of_mem _ hOther))
    (K := drbg.key) hValue
  rw [← Drbg.advanced_eq] at hLater
  rw [requests, hFirst]
  exact Option.bind_eq_some_iff.mpr
    ⟨_, rfl, Option.bind_eq_some_iff.mpr
      ⟨_, hLater, rfl⟩⟩

theorem requests_eq_two :
    requests foldHash blankRooms [] [] (some [1]) none
        (some [2]) (List.replicate 40 0)
        [List.replicate 8 0] =
      some
        (Drbg.outputs (code foldHash) 32
          (Drbg.instantiate (code foldHash) 32 [1, 2])
          [40, 8]) :=
  requests_eq foldHash blankRooms [] [] (by decide) (by decide)

end Hash

end PlusWallet
