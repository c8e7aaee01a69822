import PlusWallet.Library.Bits
import PlusWallet.Bip39.BRBIP39Mnemonic

/-
  The mnemonic codec is exact: the bits of the words are those
  of the data with its checksum behind it.

  Main declarations:
    * `testBit_wordIndex`, `testBit_dataByte`
    * `WordList`
    * `readWords_join`, `spells_of_readWords`
    * `checksum_iff`
    * `codec_exact`
-/

namespace PlusWallet

open Bytes Bits

------------------------------------------------------------
-- Big-Endian Bits
------------------------------------------------------------

theorem testBit_ofLittleEndian
    (bytes : List UInt8)
    (b : Nat) :
    (ofLittleEndian bytes).testBit b =
      (bytes.getD (b / 8) 0).toNat.testBit (b % 8) := by
  induction bytes generalizing b with
  | nil => simp [ofLittleEndian]
  | cons byte bytes ih =>
      have hByte : byte.toNat < 2 ^ 8 := byte.toNat_lt
      rw [ofLittleEndian, Nat.add_comm,
        show 256 = 2 ^ 8 from rfl,
        Nat.testBit_two_pow_mul_add _ hByte]
      split_ifs with hLow
      · rw [Nat.div_eq_of_lt hLow, Nat.mod_eq_of_lt hLow]
        rfl
      · have hDiv : b / 8 = (b - 8) / 8 + 1 := by omega
        have hMod : (b - 8) % 8 = b % 8 := by omega
        rw [ih, hDiv, hMod]
        rfl

/- The highest bit of the first byte comes first. -/
theorem testBit_ofBigEndian
    {bytes : List UInt8}
    {k : Nat}
    (hK : k < 8 * bytes.length) :
    (ofBigEndian bytes).testBit (8 * bytes.length - 1 - k) =
      bit 8 bytes k := by
  unfold ofBigEndian bit
  have hIndex :
      (8 * bytes.length - 1 - k) / 8 <
        bytes.reverse.length := by
    rw [List.length_reverse]
    omega
  have hPlace : k / 8 < bytes.length := by omega
  have hMirror :
      bytes.length - 1 - (8 * bytes.length - 1 - k) / 8 =
        k / 8 := by
    omega
  have hRest :
      (8 * bytes.length - 1 - k) % 8 = 8 - 1 - k % 8 := by
    omega
  rw [testBit_ofLittleEndian, List.getD_eq_getElem _ _ hIndex,
    List.getD_eq_getElem _ _ hPlace, List.getElem_reverse,
    hRest]
  congr 3

namespace BRBIP39

------------------------------------------------------------
-- Words and Bytes
------------------------------------------------------------

theorem wordIndex_lt (buf : List UInt8) (i : Nat) :
    wordIndex buf i < 2 ^ 11 :=
  Nat.mod_lt _ (by decide)

theorem bit_drop
    (buf : List UInt8)
    (count k : Nat) :
    bit 8 (buf.drop count) k = bit 8 buf (8 * count + k) := by
  unfold bit
  rw [Nat.mul_add_div (by decide), Nat.mul_add_mod, List.getD,
    List.getElem?_drop, List.getD]

/- A word holds the next 11 bits of the buffer. -/
theorem testBit_wordIndex
    {buf : List UInt8}
    {i r : Nat}
    (hInside : i * 11 / 8 + 4 ≤ buf.length)
    (hR : r < 11) :
    (wordIndex buf i).testBit (11 - 1 - r) =
      bit 8 buf (11 * i + r) := by
  have hLength :
      ((buf.drop (i * 11 / 8)).take 4).length = 4 := by
    rw [List.length_take, List.length_drop]
    omega
  have hWindow :
      i * 11 % 8 + r <
        8 * ((buf.drop (i * 11 / 8)).take 4).length := by
    omega
  have hBits := testBit_ofBigEndian hWindow
  have hPlace : 8 * (i * 11 / 8) + (i * 11 % 8 + r) =
      11 * i + r := by
    omega
  have hShift :
      8 * 4 - 1 - (i * 11 % 8 + r) =
        32 - (11 + i * 11 % 8) + (11 - 1 - r) := by
    omega
  have hInWindow : i * 11 % 8 + r < 8 * 4 := by omega
  rw [hLength, bit_take (by decide), decide_eq_true hInWindow,
    Bool.true_and, bit_drop, hPlace, hShift] at hBits
  unfold wordIndex BIP39_WORDLIST_COUNT
  rw [show 2048 = 2 ^ 11 from rfl, Nat.testBit_mod_two_pow,
    decide_eq_true (show 11 - 1 - r < 11 by omega),
    Bool.true_and, Nat.testBit_shiftRight]
  exact hBits

theorem getD_lt_of_forall
    {idx : List Nat}
    (hIndices : ∀ index ∈ idx, index < 2 ^ 11)
    (i : Nat) :
    idx.getD i 0 < 2 ^ 11 := by
  by_cases hI : i < idx.length
  · rw [List.getD_eq_getElem _ _ hI]
    exact hIndices _ (List.getElem_mem hI)
  · rw [List.getD_eq_default _ _ (not_lt.mp hI)]
    decide

/- A byte holds the next 8 bits of the words. -/
theorem testBit_dataByte
    {idx : List Nat}
    (hIndices : ∀ index ∈ idx, index < 2 ^ 11)
    {i j : Nat}
    (hJ : j < 8) :
    (dataByte idx i).toNat.testBit (8 - 1 - j) =
      digitBit 11 idx (8 * i + j) := by
  have hNext := getD_lt_of_forall hIndices (i * 8 / 11 + 1)
  have hShift :
      (i * 8 / 11 + 2) * 11 - (i + 1) * 8 + (8 - 1 - j) =
        21 - (i * 8 % 11 + j) := by
    omega
  unfold dataByte BIP39_WORDLIST_COUNT
  rw [UInt8.toNat_ofNat', Nat.testBit_mod_two_pow,
    decide_eq_true (show 8 - 1 - j < 8 by omega),
    Bool.true_and, Nat.testBit_shiftRight, hShift,
    show 2048 = 2 ^ 11 from rfl, Nat.mul_comm,
    Nat.testBit_two_pow_mul_add _ hNext]
  by_cases hFirst : i * 8 % 11 + j < 11
  · have hPlace :
        8 * i + j = 11 * (i * 8 / 11) + (i * 8 % 11 + j) := by
      omega
    have hIndex :
        21 - (i * 8 % 11 + j) - 11 =
          11 - 1 - (i * 8 % 11 + j) := by
      omega
    rw [if_neg (by omega), hPlace, digitBit_mul_add hFirst,
      hIndex]
  · have hPlace :
        8 * i + j =
          11 * (i * 8 / 11 + 1) + (i * 8 % 11 + j - 11) := by
      omega
    have hRest : i * 8 % 11 + j - 11 < 11 := by omega
    have hIndex :
        21 - (i * 8 % 11 + j) =
          11 - 1 - (i * 8 % 11 + j - 11) := by
      omega
    rw [if_pos (by omega), hPlace, digitBit_mul_add hRest,
      hIndex]

/- The words of a buffer have its bits. -/
theorem digitBit_map_wordIndex
    {buf : List UInt8}
    {count k : Nat}
    (hInside : count * 11 / 8 + 3 ≤ buf.length)
    (hK : k < 11 * count) :
    digitBit 11 ((List.range count).map (wordIndex buf)) k =
      bit 8 buf k := by
  have hIndex : k / 11 < count := by omega
  have hSplit : 11 * (k / 11) + k % 11 = k := by omega
  unfold digitBit
  rw [List.getD_eq_getElem _ _ (by simpa using hIndex),
    List.getElem_map, List.getElem_range,
    testBit_wordIndex (by omega) (by omega), hSplit]

/- The bytes of the words have their bits. -/
theorem bit_dataBytes
    {idx : List Nat}
    (hIndices : ∀ index ∈ idx, index < 2 ^ 11)
    {k : Nat}
    (hK : k < 11 * idx.length) :
    bit 8 (dataBytes idx) k = digitBit 11 idx k := by
  have hIndex : k / 8 < (idx.length * 11 + 7) / 8 := by omega
  have hSplit : 8 * (k / 8) + k % 8 = k := by omega
  unfold bit dataBytes
  rw [List.getD_eq_getElem _ _ (by simpa using hIndex),
    List.getElem_map, List.getElem_range,
    testBit_dataByte hIndices (by omega), hSplit]

------------------------------------------------------------
-- Phrases
------------------------------------------------------------

theorem space_not_mem_append
    {word : List UInt8}
    (hWord : space ∉ word)
    (rest : List UInt8) :
    (word ++ space :: rest).takeWhile (· ≠ space) = word ∧
      behindSpace (word ++ space :: rest) = rest := by
  have hAll : ∀ byte ∈ word, decide (byte ≠ space) = true := by
    intro byte hByte
    rw [decide_eq_true_iff]
    rintro rfl
    exact hWord hByte
  constructor
  · rw [List.takeWhile_append_of_pos hAll]
    simp
  · unfold behindSpace
    rw [List.dropWhile_append_of_pos hAll]
    simp

theorem eq_self_of_space_not_mem
    {word : List UInt8}
    (hWord : space ∉ word) :
    word.takeWhile (· ≠ space) = word ∧
      behindSpace word = [] := by
  have hAll : ∀ byte ∈ word, decide (byte ≠ space) = true := by
    intro byte hByte
    rw [decide_eq_true_iff]
    rintro rfl
    exact hWord hByte
  constructor
  · exact List.takeWhile_eq_self_iff.mpr hAll
  · unfold behindSpace
    rw [List.dropWhile_eq_nil_iff.mpr hAll]
    rfl

/- The phrase is one word, or goes on behind a space. -/
theorem phrase_cases (phrase : List UInt8) :
    phrase = phrase.takeWhile (· ≠ space) ∨
      phrase =
        phrase.takeWhile (· ≠ space) ++
          space :: behindSpace phrase := by
  have hSplit :=
    List.takeWhile_append_dropWhile
      (p := fun byte => decide (byte ≠ space)) (l := phrase)
  rcases hRest : phrase.dropWhile (· ≠ space) with
    _ | ⟨byte, rest⟩
  · left
    rw [hRest, List.append_nil] at hSplit
    exact hSplit.symm
  · right
    have hByte : byte = space := by
      have hHead :=
        List.head?_dropWhile_not
          (fun byte => decide (byte ≠ space)) phrase
      rw [hRest, List.head?_cons] at hHead
      simpa using hHead
    unfold behindSpace
    rw [hRest, hByte, List.tail_cons]
    rw [hRest, hByte] at hSplit
    exact hSplit.symm

theorem space_not_mem_takeWhile (phrase : List UInt8) :
    space ∉ phrase.takeWhile (· ≠ space) := by
  intro hMem
  have hNot := List.mem_takeWhile_imp hMem
  simp at hNot

/- A phrase begins with no word but its first one. -/
theorem beginsWith_iff
    {phrase word : List UInt8}
    (hWord : space ∉ word) :
    beginsWith phrase word = true ↔
      phrase.takeWhile (· ≠ space) = word := by
  unfold beginsWith
  rw [Bool.and_eq_true, List.isPrefixOf_iff_prefix]
  constructor
  · rintro ⟨⟨rest, rfl⟩, hNext⟩
    rw [List.drop_left] at hNext
    rcases rest with _ | ⟨next, rest⟩
    · rw [List.append_nil]
      exact (eq_self_of_space_not_mem hWord).1
    · have hSpace : next = space := by simpa using hNext
      rw [hSpace]
      exact (space_not_mem_append hWord rest).1
  · intro hFirst
    rcases phrase_cases phrase with hPhrase | hPhrase
    · rw [hFirst] at hPhrase
      rw [hPhrase]
      simp
    · rw [hFirst] at hPhrase
      rw [hPhrase]
      simp

theorem join_cons_cons
    (word next : List UInt8)
    (words : List (List UInt8)) :
    join (word :: next :: words) =
      word ++ space :: join (next :: words) := by
  simp [join, List.intercalate]

theorem join_singleton (word : List UInt8) :
    join [word] = word := by
  simp [join, List.intercalate]

/- Words that are joined end in no space. -/
theorem join_ne_append_space
    {words : List (List UInt8)}
    (hWords : ∀ word ∈ words, word ≠ [] ∧ space ∉ word)
    (other : List UInt8) :
    join words ≠ other ++ [space] := by
  induction words generalizing other with
  | nil =>
      intro hEq
      simp [join, List.intercalate] at hEq
  | cons word words hInduction =>
      intro hEq
      have hWord := hWords word (by simp)
      rcases words with _ | ⟨next, words⟩
      · rw [join_singleton] at hEq
        apply hWord.2
        rw [hEq]
        simp
      · have hRest :=
          hInduction fun word hMem =>
            hWords word (List.mem_cons_of_mem _ hMem)
        have hNotNil : join (next :: words) ≠ [] := by
          have hNext := (hWords next (by simp)).1
          rcases words with _ | ⟨last, words⟩
          · rwa [join_singleton]
          · rw [join_cons_cons]
            simp
        rcases List.eq_nil_or_concat (join (next :: words)) with
          hNil | ⟨front, last, hJoin⟩
        · exact hNotNil hNil
        · have hEnds :
              (word ++ space :: front) ++ [last] =
                other ++ [space] := by
            rw [← hEq, join_cons_cons, hJoin]
            simp
          have hLast := (List.append_inj' hEnds rfl).2
          apply hRest front
          rw [hJoin, ← hLast, List.concat_eq_append]

@[simp]
theorem readWords_nil (words : List (List UInt8)) (room : Nat) :
    readWords words room [] = ([], []) := by
  rcases room with _ | room <;> rfl

theorem length_readWords_le
    (words : List (List UInt8))
    (room : Nat)
    (phrase : List UInt8) :
    (readWords words room phrase).1.length ≤ room := by
  induction room generalizing phrase with
  | zero => simp [readWords]
  | succ room hInduction =>
      unfold readWords
      split_ifs with hPhrase
      · simp
      · split
        · simp
        · apply Nat.succ_le_succ
          exact hInduction _

/-
  The words of a phrase with single spaces between them, and
  with or without one at the end.
-/
def Spells
    (phrase : List UInt8)
    (words : List (List UInt8)) : Prop :=
  phrase = join words ∨
    words ≠ [] ∧ phrase = join words ++ [space]

/-
  A word list: as many distinct words as there are indices, each
  of them not empty and without spaces.
-/
structure WordList where
  words : List (List UInt8)
  length_words : words.length = BIP39_WORDLIST_COUNT
  nodup_words : words.Nodup
  ne_nil_of_mem : ∀ word ∈ words, word ≠ []
  space_not_mem_of_mem : ∀ word ∈ words, space ∉ word

namespace WordList

variable (wordList : WordList)

/- The words of some indices. -/
def select (idx : List Nat) : List (List UInt8) :=
  idx.map fun index => wordList.words.getD index []

theorem select_cons (index : Nat) (idx : List Nat) :
    wordList.select (index :: idx) =
      wordList.words.getD index [] :: wordList.select idx := rfl

theorem getD_mem
    {index : Nat}
    (hIndex : index < 2 ^ 11) :
    wordList.words.getD index [] ∈ wordList.words := by
  have hInside : index < wordList.words.length := by
    rw [wordList.length_words]
    exact hIndex
  rw [List.getD_eq_getElem _ _ hInside]
  exact List.getElem_mem hInside

/- The search finds the index of the first word. -/
theorem findIdx?_eq_some_iff
    {phrase : List UInt8}
    {index : Nat} :
    (wordList.words.take BIP39_WORDLIST_COUNT).findIdx?
        (beginsWith phrase) = some index ↔
      index < 2 ^ 11 ∧
        wordList.words.getD index [] =
          phrase.takeWhile (· ≠ space) := by
  rw [List.take_of_length_le (le_of_eq wordList.length_words),
    List.findIdx?_eq_some_iff_getElem]
  have hLength : wordList.words.length = 2 ^ 11 :=
    wordList.length_words
  constructor
  · rintro ⟨hInside, hBegins, -⟩
    have hWord :=
      wordList.space_not_mem_of_mem _ (List.getElem_mem hInside)
    refine ⟨by omega, ?_⟩
    rw [List.getD_eq_getElem _ _ hInside]
    exact ((beginsWith_iff hWord).mp hBegins).symm
  · rintro ⟨hIndex, hFirst⟩
    have hInside : index < wordList.words.length := by omega
    rw [List.getD_eq_getElem _ _ hInside] at hFirst
    refine ⟨hInside, ?_, ?_⟩
    · apply (beginsWith_iff ?_).mpr hFirst.symm
      exact wordList.space_not_mem_of_mem _
        (List.getElem_mem hInside)
    · intro other hOther hBegins
      have hOtherInside : other < wordList.words.length := by
        omega
      have hWord :=
        wordList.space_not_mem_of_mem _
          (List.getElem_mem hOtherInside)
      have hSame :=
        ((beginsWith_iff hWord).mp hBegins).symm.trans
          hFirst.symm
      have hIndices :=
        (wordList.nodup_words.getElem_inj_iff).mp hSame
      omega

/- One round of the loop, at a word of the list. -/
theorem readWords_succ
    {phrase : List UInt8}
    {index : Nat}
    (hPhrase : phrase ≠ [])
    (hIndex : index < 2 ^ 11)
    (hFirst :
      wordList.words.getD index [] =
        phrase.takeWhile (· ≠ space))
    (room : Nat) :
    readWords wordList.words (room + 1) phrase =
      (index ::
          (readWords wordList.words room
            (behindSpace phrase)).1,
        (readWords wordList.words room
          (behindSpace phrase)).2) := by
  conv_lhs => unfold readWords
  rw [if_neg hPhrase,
    wordList.findIdx?_eq_some_iff.mpr ⟨hIndex, hFirst⟩]

/- Words that are joined are read back. -/
theorem readWords_join
    {room : Nat}
    {idx : List Nat}
    (hRoom : idx.length ≤ room)
    (hIndices : ∀ index ∈ idx, index < 2 ^ 11) :
    readWords wordList.words room
        (join (wordList.select idx)) = (idx, []) := by
  induction idx generalizing room with
  | nil =>
      rcases room with _ | room <;> rfl
  | cons index idx hInduction =>
      rcases room with _ | room
      · simp at hRoom
      · have hIndex := hIndices index (by simp)
        have hMem := wordList.getD_mem hIndex
        have hWord := wordList.space_not_mem_of_mem _ hMem
        have hNotNil := wordList.ne_nil_of_mem _ hMem
        have hRest :=
          hInduction (Nat.le_of_succ_le_succ hRoom)
            (fun other hOther =>
              hIndices other (List.mem_cons_of_mem _ hOther))
        rcases idx with _ | ⟨next, idx⟩
        · have hPhrase := eq_self_of_space_not_mem hWord
          unfold select
          rw [List.map_singleton, join_singleton,
            wordList.readWords_succ hNotNil hIndex
              hPhrase.1.symm, hPhrase.2]
          exact congrArg (fun read => (index :: read.1, read.2))
            hRest
        · have hPhrase :=
            space_not_mem_append hWord
              (join (wordList.select (next :: idx)))
          unfold select at hPhrase hRest ⊢
          rw [List.map_cons, List.map_cons, join_cons_cons]
          rw [List.map_cons] at hPhrase hRest
          rw [wordList.readWords_succ (by simp) hIndex
            hPhrase.1.symm, hPhrase.2, hRest]

theorem lt_of_readWords
    (room : Nat)
    (phrase : List UInt8) :
    ∀ index ∈ (readWords wordList.words room phrase).1,
      index < 2 ^ 11 := by
  induction room generalizing phrase with
  | zero => simp [readWords]
  | succ room hInduction =>
      intro index hMem
      by_cases hPhrase : phrase = []
      · simp [readWords, hPhrase] at hMem
      · rcases hFind :
          (wordList.words.take BIP39_WORDLIST_COUNT).findIdx?
            (beginsWith phrase) with _ | first
        · unfold readWords at hMem
          rw [if_neg hPhrase, hFind] at hMem
          simp at hMem
        · have hFirst := wordList.findIdx?_eq_some_iff.mp hFind
          rw [wordList.readWords_succ hPhrase hFirst.1 hFirst.2,
            List.mem_cons] at hMem
          rcases hMem with rfl | hMem
          · exact hFirst.1
          · exact hInduction _ _ hMem

/- A phrase that is read to its end spells its words. -/
theorem spells_of_readWords
    (room : Nat)
    (phrase : List UInt8)
    (hEnd : (readWords wordList.words room phrase).2 = []) :
    Spells phrase
      (wordList.select
        (readWords wordList.words room phrase).1) := by
  unfold Spells
  induction room generalizing phrase with
  | zero =>
      left
      exact hEnd
  | succ room hInduction =>
      by_cases hPhrase : phrase = []
      · left
        simp [readWords, hPhrase, select, join]
      · rcases hFind :
          (wordList.words.take BIP39_WORDLIST_COUNT).findIdx?
            (beginsWith phrase) with _ | first
        · unfold readWords at hEnd
          rw [if_neg hPhrase, hFind] at hEnd
          exact absurd hEnd hPhrase
        · have hFirst := wordList.findIdx?_eq_some_iff.mp hFind
          rw [wordList.readWords_succ hPhrase hFirst.1 hFirst.2]
            at hEnd ⊢
          have hRest := hInduction _ hEnd
          rw [select_cons, hFirst.2]
          rcases phrase_cases phrase with hOne | hMore
          · have hNoSpace := space_not_mem_takeWhile phrase
            rw [← hOne] at hNoSpace
            left
            rw [(eq_self_of_space_not_mem hNoSpace).2, ← hOne,
              readWords_nil]
            exact (join_singleton phrase).symm
          · rcases hWords :
              wordList.select
                (readWords wordList.words room
                  (behindSpace phrase)).1 with _ | ⟨next, words⟩
            · rw [hWords] at hRest
              have hNil : behindSpace phrase = [] := by
                rcases hRest with hRest | ⟨hNot, -⟩
                · exact hRest
                · exact absurd rfl hNot
              right
              refine ⟨by simp, ?_⟩
              rw [hNil] at hMore
              rw [join_singleton]
              exact hMore
            · rw [hWords] at hRest
              rw [join_cons_cons]
              rcases hRest with hRest | ⟨-, hRest⟩
              · left
                rw [← hRest]
                exact hMore
              · right
                refine ⟨by simp, ?_⟩
                rw [List.append_assoc, List.cons_append, ← hRest]
                exact hMore

end WordList

------------------------------------------------------------
-- Checksum
------------------------------------------------------------

theorem testBit_firstBits
    {count j : Nat}
    (hCount : count ≤ 8)
    (hJ : j < count)
    (byte : UInt8) :
    (firstBits count byte).testBit (count - 1 - j) =
      byte.toNat.testBit (8 - 1 - j) := by
  unfold firstBits
  have hIndex :
      8 - count + (count - 1 - j) = 8 - 1 - j := by
    omega
  rw [Nat.testBit_shiftRight, hIndex]

theorem firstBits_lt
    {count : Nat}
    (hCount : count ≤ 8)
    (byte : UInt8) :
    firstBits count byte < 2 ^ count := by
  have hByte : byte.toNat < 2 ^ 8 := byte.toNat_lt
  have hPow : 2 ^ (8 - count) * 2 ^ count = 2 ^ 8 := by
    rw [← Nat.pow_add]
    congr 1
    omega
  unfold firstBits
  rw [Nat.shiftRight_eq_div_pow]
  apply Nat.div_lt_of_lt_mul
  rwa [hPow]

theorem firstBits_eq_iff
    {count : Nat}
    (hCount : count ≤ 8)
    (byte other : UInt8) :
    firstBits count byte = firstBits count other ↔
      ∀ j < count,
        byte.toNat.testBit (8 - 1 - j) =
          other.toNat.testBit (8 - 1 - j) := by
  constructor
  · intro hEq j hJ
    rw [← testBit_firstBits hCount hJ,
      ← testBit_firstBits hCount hJ, hEq]
  · intro hBits
    apply eq_of_testBits (firstBits_lt hCount byte)
      (firstBits_lt hCount other)
    intro j hJ
    rw [testBit_firstBits hCount hJ,
      testBit_firstBits hCount hJ]
    exact hBits j hJ

theorem length_dataBytes
    {idx : List Nat}
    {k : Nat}
    (hLength : idx.length = 3 * k)
    (hPos : 0 < k)
    (hK : k ≤ 8) :
    (dataBytes idx).length = 4 * k + 1 := by
  unfold dataBytes
  rw [List.length_map, List.length_range, hLength]
  omega

/- The checksum holds when its bits are those of the hash. -/
theorem checksum_iff
    {idx : List Nat}
    {k : Nat}
    (hLength : idx.length = 3 * k)
    (hPos : 0 < k)
    (hK : k ≤ 8)
    (hIndices : ∀ index ∈ idx, index < 2 ^ 11)
    (hash : UInt256) :
    firstBits k ((dataBytes idx).getLastD 0) =
        firstBits k (hash.toList.headD 0) ↔
      ∀ j < k,
        digitBit 11 idx (32 * k + j) =
          bit 8 hash.toList j := by
  have hBytes := length_dataBytes hLength hPos hK
  have hLast :
      (dataBytes idx).getLastD 0 =
        (dataBytes idx).getD (4 * k) 0 := by
    rw [List.getLastD_eq_getLast?, List.getLast?_eq_getElem?,
      hBytes, Nat.add_sub_cancel, List.getD]
  have hHead : hash.toList.headD 0 = hash.toList.getD 0 0 := by
    rcases hash.toList with _ | ⟨byte, bytes⟩ <;> rfl
  rw [firstBits_eq_iff hK, hLast, hHead]
  apply forall₂_congr
  intro j hJ
  have hPlace : 32 * k + j = 8 * (4 * k) + j := by omega
  have hFirst := bit_mul_add (show j < 8 by omega) hash.toList 0
  have hInside : 32 * k + j < 11 * idx.length := by omega
  rw [Nat.mul_zero, Nat.zero_add] at hFirst
  rw [← bit_dataBytes hIndices hInside, hPlace,
    bit_mul_add (by omega), hFirst]

------------------------------------------------------------
-- Data and Indices
------------------------------------------------------------

section Codec

variable (sha256 : List UInt8 → UInt256)

/- The indices of the words that are written for some data. -/
def indices (data : List UInt8) : List Nat :=
  (List.range (data.length * 3 / 4)).map
    (wordIndex (data ++ (sha256 data).toList))

theorem indices_lt (data : List UInt8) :
    ∀ index ∈ indices sha256 data, index < 2 ^ 11 := by
  intro index hMem
  rcases List.mem_map.mp hMem with ⟨i, -, rfl⟩
  exact wordIndex_lt _ _

variable {data : List UInt8}
variable {k : Nat}

theorem length_indices (hData : data.length = 4 * k) :
    (indices sha256 data).length = 3 * k := by
  unfold indices
  rw [List.length_map, List.length_range, hData]
  omega

theorem digitBit_indices
    (hData : data.length = 4 * k)
    (hK : k ≤ 8)
    {b : Nat}
    (hB : b < 33 * k) :
    digitBit 11 (indices sha256 data) b =
      bit 8 (data ++ (sha256 data).toList) b := by
  unfold indices
  apply digitBit_map_wordIndex
  · rw [List.length_append, List.Vector.toList_length]
    omega
  · omega

/- The bytes of the words of some data are that data. -/
theorem take_dataBytes_indices
    (hData : data.length = 4 * k)
    (hPos : 0 < k)
    (hK : k ≤ 8) :
    (dataBytes (indices sha256 data)).take (4 * k) = data := by
  have hLength := length_indices sha256 hData
  have hBytes := length_dataBytes hLength hPos hK
  refine @eq_of_bits 8 _ _ ?_ ?_ ?_ ?_
  · rw [List.length_take, hBytes, hData]
    omega
  · intro word _
    exact word.toNat_lt
  · intro word _
    exact word.toNat_lt
  · intro b
    rw [bit_take (by decide)]
    by_cases hB : b < 8 * (4 * k)
    · rw [decide_eq_true hB, Bool.true_and,
        bit_dataBytes (indices_lt sha256 data) (by omega),
        digitBit_indices sha256 hData hK (by omega),
        bit_append (by decide), if_pos (by omega)]
    · rw [decide_eq_false hB, Bool.false_and,
        bit_of_length_le (by decide) (by omega)]

theorem checksum_indices
    (hData : data.length = 4 * k)
    (hPos : 0 < k)
    (hK : k ≤ 8) :
    firstBits k
        ((dataBytes (indices sha256 data)).getLastD 0) =
      firstBits k ((sha256 data).toList.headD 0) := by
  apply (checksum_iff (length_indices sha256 hData) hPos hK
    (indices_lt sha256 data) _).mpr
  intro j hJ
  have hRest : 32 * k + j - 8 * data.length = j := by omega
  rw [digitBit_indices sha256 hData hK (by omega),
    bit_append (by decide), if_neg (by omega), hRest]

/- Indices with the right checksum are those of their data. -/
theorem indices_take_dataBytes
    {idx : List Nat}
    (hLength : idx.length = 3 * k)
    (hPos : 0 < k)
    (hK : k ≤ 8)
    (hIndices : ∀ index ∈ idx, index < 2 ^ 11)
    (hChecksum :
      firstBits k ((dataBytes idx).getLastD 0) =
        firstBits k
          ((sha256
            ((dataBytes idx).take (4 * k))).toList.headD 0)) :
    indices sha256 ((dataBytes idx).take (4 * k)) = idx := by
  have hBytes := length_dataBytes hLength hPos hK
  have hData :
      ((dataBytes idx).take (4 * k)).length = 4 * k := by
    rw [List.length_take, hBytes]
    omega
  have hBits :=
    (checksum_iff hLength hPos hK hIndices _).mp hChecksum
  have hCount := length_indices sha256 hData
  apply List.ext_getElem (hCount.trans hLength.symm)
  intro i hI hIdx
  apply eq_of_testBits
    (indices_lt sha256 _ _ (List.getElem_mem hI))
    (hIndices _ (List.getElem_mem hIdx))
  intro r hR
  have hWord := digitBit_mul_add hR idx i
  have hWritten :=
    digitBit_mul_add hR
      (indices sha256 ((dataBytes idx).take (4 * k))) i
  rw [List.getD_eq_getElem _ _ hIdx] at hWord
  rw [List.getD_eq_getElem _ _ hI] at hWritten
  rw [← hWord, ← hWritten,
    digitBit_indices sha256 hData hK (by omega),
    bit_append (by decide), hData]
  split_ifs with hBefore
  · rw [bit_take (by decide), decide_eq_true hBefore,
      Bool.true_and, bit_dataBytes hIndices (by omega)]
  · have hPlace :
        11 * i + r = 32 * k + (11 * i + r - 8 * (4 * k)) := by
      omega
    conv_rhs => rw [hPlace]
    rw [hBits _ (by omega)]

end Codec

------------------------------------------------------------
-- Exactness
------------------------------------------------------------

section Exact

variable (sha256 : List UInt8 → UInt256)
variable (wordList : WordList)

/- The phrase that is written for some data. -/
def mnemonic (data : List UInt8) : List UInt8 :=
  join (wordList.select (indices sha256 data))

theorem encode_eq
    {data : List UInt8}
    (hData : data.length % 4 = 0)
    (phraseLen : Option Nat) :
    encode sha256 phraseLen wordList.words data =
      output phraseLen
        ((mnemonic sha256 wordList data).length + 1)
        (mnemonic sha256 wordList data) := by
  unfold encode mnemonic WordList.select indices
  rw [if_neg (not_not.mpr hData), List.map_map]
  rfl

theorem decode_join
    {idx : List Nat}
    {k : Nat}
    (hLength : idx.length = 3 * k)
    (hK : k ≤ 8)
    (hIndices : ∀ index ∈ idx, index < 2 ^ 11)
    (dataLen : Option Nat) :
    decode sha256 dataLen wordList.words
        (join (wordList.select idx)) =
      if firstBits k ((dataBytes idx).getLastD 0) =
          firstBits k
            ((sha256
              ((dataBytes idx).take (4 * k))).toList.headD 0)
      then
        output dataLen (4 * k) ((dataBytes idx).take (4 * k))
      else output dataLen 0 [] := by
  have hRead :=
    wordList.readWords_join (show idx.length ≤ 24 by omega)
      hIndices
  have hWords : 3 * k % 3 = 0 := by omega
  have hChecksum : 3 * k / 3 = k := by omega
  have hBytes : 3 * k * 4 / 3 = 4 * k := by omega
  unfold decode
  rw [hRead]
  simp only [hLength, hWords, hChecksum, hBytes, true_and]

/- What a phrase that is accepted is made of. -/
theorem eq_of_decode
    {size n : Nat}
    {phrase data : List UInt8}
    (hDecode :
      decode sha256 (some size) wordList.words phrase =
        (n, some data))
    (hAccepted : 0 < n) :
    ∃ k, 0 < k ∧ k ≤ 8 ∧ n = 4 * k ∧ data.length = 4 * k ∧
      Spells phrase
        (wordList.select (indices sha256 data)) := by
  have hRoom := length_readWords_le wordList.words 24 phrase
  have hIndices := wordList.lt_of_readWords 24 phrase
  have hSpells := wordList.spells_of_readWords 24 phrase
  unfold decode at hDecode
  generalize readWords wordList.words 24 phrase = read at *
  rcases read with ⟨idx, rest⟩
  dsimp only at *
  split at hDecode
  · rename_i hChecks
    rcases hChecks with ⟨hThree, hEnd, hChecksum⟩
    have hLength : idx.length = 3 * (idx.length / 3) := by omega
    have hBytes :
        idx.length * 4 / 3 = 4 * (idx.length / 3) := by
      omega
    generalize idx.length / 3 = k at hLength hBytes hChecksum
    rw [hBytes] at hDecode hChecksum
    rcases eq_of_output_some (congrArg Prod.snd hDecode) with
      ⟨rfl, hNumber⟩
    rw [hDecode] at hNumber
    have hNumber : n = 4 * k := hNumber
    have hPos : 0 < k := by omega
    have hK : k ≤ 8 := by omega
    have hTake :
        ((dataBytes idx).take (4 * k)).length = 4 * k := by
      rw [List.length_take, length_dataBytes hLength hPos hK]
      omega
    refine ⟨k, hPos, hK, hNumber, hTake, ?_⟩
    rw [indices_take_dataBytes sha256 hLength hPos hK hIndices
      hChecksum]
    exact hSpells hEnd
  · rw [output_some (Nat.zero_le size)] at hDecode
    have hNone : 0 = n := congrArg Prod.fst hDecode
    omega

theorem decode_mnemonic
    {entropy : List UInt8}
    {k size : Nat}
    (hEntropy : entropy.length = 4 * k)
    (hPos : 0 < k)
    (hK : k ≤ 8)
    (hRoom : entropy.length ≤ size) :
    decode sha256 (some size) wordList.words
        (mnemonic sha256 wordList entropy) =
      (entropy.length, some entropy) := by
  have hTake :=
    take_dataBytes_indices sha256 hEntropy hPos hK
  have hChecksum := checksum_indices sha256 hEntropy hPos hK
  unfold mnemonic
  rw [decode_join sha256 wordList
      (length_indices sha256 hEntropy) hK
      (indices_lt sha256 entropy),
    hTake, if_pos hChecksum, ← hEntropy, output_some hRoom]

/- Words with single spaces between them. -/
def SingleSpaced (phrase : List UInt8) : Prop :=
  ∃ words,
    (∀ word ∈ words, word ≠ [] ∧ space ∉ word) ∧
      phrase = join words

theorem SingleSpaced.eq_join
    {phrase : List UInt8}
    {words : List (List UInt8)}
    (hPhrase : SingleSpaced phrase)
    (hSpells : Spells phrase words) :
    phrase = join words := by
  rcases hPhrase with ⟨written, hWritten, rfl⟩
  rcases hSpells with hJoin | ⟨-, hSpace⟩
  · exact hJoin
  · exact absurd hSpace (join_ne_append_space hWritten _)

theorem encode_of_decode
    {size n : Nat}
    {phrase data : List UInt8}
    (hPhrase : SingleSpaced phrase)
    (hDecode :
      decode sha256 (some size) wordList.words phrase =
        (n, some data))
    (hAccepted : 0 < n)
    (phraseLen : Option Nat) :
    n = data.length ∧
      encode sha256 phraseLen wordList.words data =
        output phraseLen (phrase.length + 1) phrase := by
  rcases eq_of_decode sha256 wordList hDecode hAccepted with
    ⟨k, hPos, hK, hNumber, hData, hSpells⟩
  refine ⟨hNumber.trans hData.symm, ?_⟩
  rw [encode_eq sha256 wordList (by omega)]
  unfold mnemonic
  rw [← hPhrase.eq_join hSpells]

/- A phrase with other checksum bits is rejected. -/
theorem decode_of_checksum_ne
    {idx : List Nat}
    {k j : Nat}
    (hLength : idx.length = 3 * k)
    (hK : k ≤ 8)
    (hIndices : ∀ index ∈ idx, index < 2 ^ 11)
    (hJ : j < k)
    (hOther :
      digitBit 11 idx (32 * k + j) ≠
        bit 8
          (sha256
            ((dataBytes idx).take (4 * k))).toList j)
    (dataLen : Option Nat) :
    (decode sha256 dataLen wordList.words
      (join (wordList.select idx))).1 = 0 := by
  rw [decode_join sha256 wordList hLength hK hIndices,
    if_neg]
  · rcases dataLen with _ | size
    · rfl
    · rw [output_some (Nat.zero_le size)]
  · intro hChecksum
    apply hOther
    exact (checksum_iff hLength (by omega) hK hIndices _).mp
      hChecksum j hJ

/-
  The codec is exact, for every word list and every hash: what
  is encoded is decoded, a phrase that is accepted is the one
  that its data encodes to, and a phrase with other checksum
  bits is rejected.
-/
theorem codec_exact :
    (∀ entropy : List UInt8,
      entropy.length % 4 = 0 →
        4 ≤ entropy.length → entropy.length ≤ 32 →
          ∃ phrase,
            (∀ phraseLen,
              encode sha256 phraseLen wordList.words entropy =
                output phraseLen (phrase.length + 1) phrase) ∧
            ∀ size, entropy.length ≤ size →
              decode sha256 (some size) wordList.words phrase =
                (entropy.length, some entropy)) ∧
    (∀ phrase size n data,
      SingleSpaced phrase →
        decode sha256 (some size) wordList.words phrase =
            (n, some data) →
          0 < n →
            n = data.length ∧
              ∀ phraseLen,
                encode sha256 phraseLen wordList.words data =
                  output phraseLen (phrase.length + 1)
                    phrase) ∧
    ∀ (idx : List Nat) (k j : Nat) (dataLen : Option Nat),
      idx.length = 3 * k → k ≤ 8 →
        (∀ index ∈ idx, index < 2 ^ 11) → j < k →
          digitBit 11 idx (32 * k + j) ≠
              bit 8
                (sha256
                  ((dataBytes idx).take (4 * k))).toList j →
            (decode sha256 dataLen wordList.words
              (join (wordList.select idx))).1 = 0 := by
  refine ⟨?_, ?_, ?_⟩
  · intro entropy hFour hLow hHigh
    refine ⟨mnemonic sha256 wordList entropy, ?_, ?_⟩
    · exact encode_eq sha256 wordList hFour
    · intro size hRoom
      have hEntropy :
          entropy.length = 4 * (entropy.length / 4) := by
        omega
      exact decode_mnemonic sha256 wordList hEntropy (by omega)
        (by omega) hRoom
  · intro phrase size n data hPhrase hDecode hAccepted
    have hEncode :=
      encode_of_decode sha256 wordList hPhrase hDecode hAccepted
    exact ⟨(hEncode none).1, fun phraseLen =>
      (hEncode phraseLen).2⟩
  · intro idx k j dataLen hLength hK hIndices hJ hOther
    exact decode_of_checksum_ne sha256 wordList hLength hK
      hIndices hJ hOther dataLen

end Exact

/- A word list whose words are told apart by their lengths. -/
def unary : WordList where
  words :=
    (List.range BIP39_WORDLIST_COUNT).map fun i =>
      List.replicate (i + 1) (cChar 'a')
  length_words := by simp
  nodup_words := by
    apply List.Nodup.map
    · intro i j hEq
      have hLength := congrArg List.length hEq
      simpa using hLength
    · exact List.nodup_range
  ne_nil_of_mem := by
    intro word hMem
    rcases List.mem_map.mp hMem with ⟨i, -, rfl⟩
    simp
  space_not_mem_of_mem := by
    intro word hMem
    rcases List.mem_map.mp hMem with ⟨i, -, rfl⟩
    rw [List.mem_replicate]
    rintro ⟨-, hEq⟩
    exact absurd hEq (by decide)

def zeroHash : List UInt8 → UInt256 := fun _ =>
  List.Vector.replicate 32 0

theorem codec_exact_of_zeros :
    ∃ phrase,
      encode zeroHash none unary.words [0, 0, 0, 0] =
        output none (phrase.length + 1) phrase ∧
      decode zeroHash (some 4) unary.words phrase =
        (4, some [0, 0, 0, 0]) := by
  rcases (codec_exact zeroHash unary).1 [0, 0, 0, 0] (by decide)
    (by decide) (by decide) with ⟨phrase, hEncode, hDecode⟩
  exact ⟨phrase, hEncode none, hDecode 4 (by decide)⟩

end BRBIP39

end PlusWallet
