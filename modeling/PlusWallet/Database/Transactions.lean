import PlusWallet.Transaction.RoundTrip
import PlusWallet.Database.Blocks

/-
  What the calls for transactions do to the rows of the
  database, and what `loadTransactions` makes of the rows.

  Main declarations:
    * `CoreDatabase.txRows`, `CoreDatabase.blobOf`
    * `CoreDatabase.Storable`, `CoreDatabase.stored`
    * `txAdded_eq`, `txRows_txUpdated`, `txRows_txDeleted`
    * `loadTransactions_eq`
-/

namespace PlusWallet

namespace CoreDatabase

open Bytes BRTransaction

------------------------------------------------------------
-- Rows
------------------------------------------------------------

/- The rows that hold transactions. -/
def txRows (db : CoreDatabase) : List TxRow :=
  db.transactions.filter fun row => row.type = 1

/- The blob for a transaction. -/
def blobOf (tx : BRTransaction UInt256) : List UInt8 :=
  encoding tx ++ trailer tx.blockHeight (rebase tx.timestamp)

/- The highest key of the table is the one in `Z_MAX`. -/
structure Keyed (db : CoreDatabase) (max : Int32) : Prop where
  counted : db.txMax = some max
  below : ∀ row ∈ db.transactions, row.pk.toInt ≤ max.toInt

@[simp]
theorem length_trailer
    (blockHeight timestamp : Nat) :
    (trailer blockHeight timestamp).length = 8 := by
  rw [trailer, List.length_append, length_littleEndian,
    length_littleEndian]

theorem length_blobOf
    (tx : BRTransaction UInt256) :
    (blobOf tx).length = (encoding tx).length + 8 := by
  rw [blobOf, List.length_append, length_trailer]

theorem encoding_ne_nil
    (tx : BRTransaction UInt256) :
    encoding tx ≠ [] := by
  simp [encoding, littleEndian]

------------------------------------------------------------
-- Adding
------------------------------------------------------------

theorem txAdded_eq
    (sha256_2 : List UInt8 → UInt256)
    {db : CoreDatabase}
    {max pk : Int32}
    (hKeyed : Keyed db max)
    (hNext : nextKey max = some pk)
    {tx : BRTransaction UInt256}
    (hSize : (encoding tx).length + 8 < 2 ^ 31) :
    txAdded sha256_2 db tx =
      some
        { db with
          transactions :=
            db.transactions ++
              [{ pk := pk
                 type := 1
                 blob := blobOf tx
                 txHash := tx.txHash }]
          txMax := some pk } := by
  have hWrites := writes_serialize sha256_2 tx
  have hNull := hWrites.null
  have hBuffer :=
    hWrites.buffer
      (List.replicate (encoding tx).length 0) (by simp)
  rw [List.drop_of_length_le (by simp), List.append_nil]
    at hBuffer
  have hKey := toInt_nextKey hNext
  have hFresh :
      (db.transactions.any fun row => decide (row.pk = pk)) =
        false := by
    rw [List.any_eq_false]
    intro row hRow
    have hBelow := hKeyed.below row hRow
    rw [decide_eq_true_eq]
    rintro rfl
    omega
  have hLength := length_blobOf tx
  rw [blobOf] at hLength
  unfold txAdded
  simp only [hNull, hBuffer, hKeyed.counted, hNext, ne_eq,
    not_true, if_false, Option.bind_eq_bind, Option.bind_some]
  rw [if_neg (by omega), hFresh]
  rfl

theorem txRows_append
    (db : CoreDatabase)
    (row : TxRow)
    (hType : row.type = 1)
    (max : Option Int32) :
    txRows
        { db with
          transactions := db.transactions ++ [row]
          txMax := max } =
      txRows db ++ [row] := by
  simp [txRows, List.filter_append, hType]

/- The new row has the highest key. -/
theorem Keyed.append
    {db : CoreDatabase}
    {max : Int32}
    {row : TxRow}
    (hKeyed : Keyed db max)
    (hNext : nextKey max = some row.pk) :
    Keyed
      { db with
        transactions := db.transactions ++ [row]
        txMax := some row.pk }
      row.pk where
  counted := rfl
  below := by
    have hKey := toInt_nextKey hNext
    intro other hOther
    rcases List.mem_append.mp hOther with hOld | hNew
    · have hBelow := hKeyed.below other hOld
      omega
    · rw [List.mem_singleton.mp hNew]

------------------------------------------------------------
-- Deleting
------------------------------------------------------------

theorem txRows_txDeleted
    (db : CoreDatabase)
    (txHash : UInt256) :
    txRows (txDeleted db txHash) =
      (txRows db).filter fun row => row.txHash ≠ txHash := by
  unfold txRows txDeleted
  dsimp only
  rw [List.filter_filter, List.filter_filter]
  apply List.filter_congr
  intro row _
  by_cases hType : row.type = 1 <;>
    by_cases hHash : row.txHash = txHash <;>
    simp [hType, hHash]

theorem Keyed.txDeleted
    {db : CoreDatabase}
    {max : Int32}
    (hKeyed : Keyed db max)
    (txHash : UInt256) :
    Keyed (txDeleted db txHash) max where
  counted := hKeyed.counted
  below := by
    intro row hRow
    exact hKeyed.below row (List.mem_filter.mp hRow).1

------------------------------------------------------------
-- Updating
------------------------------------------------------------

/- The statement for one of the rows that were found. -/
def restampBy
    (bytes : List UInt8)
    (row other : TxRow) : TxRow :=
  if other.txHash = row.txHash then
    { other with blob := restamp bytes row.blob }
  else other

theorem restampBy_fields
    (bytes : List UInt8)
    (row other : TxRow) :
    (restampBy bytes row other).pk = other.pk ∧
      (restampBy bytes row other).type = other.type ∧
      (restampBy bytes row other).txHash = other.txHash := by
  unfold restampBy
  split_ifs <;> exact ⟨rfl, rfl, rfl⟩

theorem foldl_restampBy_fields
    (bytes : List UInt8)
    (found : List TxRow)
    (other : TxRow) :
    (found.foldl (fun other row => restampBy bytes row other)
        other).pk = other.pk ∧
      (found.foldl (fun other row => restampBy bytes row other)
        other).type = other.type := by
  induction found generalizing other with
  | nil => exact ⟨rfl, rfl⟩
  | cons row found ih =>
      have hFields := restampBy_fields bytes row other
      rcases ih (restampBy bytes row other) with ⟨hPk, hType⟩
      exact ⟨hPk.trans hFields.1, hType.trans hFields.2.1⟩

/- Rows of one hash all set the same blob. -/
theorem foldl_restampBy
    {bytes : List UInt8}
    {found : List TxRow}
    {other : TxRow}
    {blob : List UInt8}
    (hBlob :
      ∀ row ∈ found, row.txHash = other.txHash →
        row.blob = blob) :
    found.foldl (fun other row => restampBy bytes row other)
        other =
      if other.txHash ∈ found.map TxRow.txHash then
        { other with blob := restamp bytes blob }
      else other := by
  induction found generalizing other with
  | nil => rfl
  | cons row found ih =>
      rw [List.forall_mem_cons] at hBlob
      have hHash := (restampBy_fields bytes row other).2.2
      rw [List.foldl_cons, ih (by rw [hHash]; exact hBlob.2),
        hHash]
      unfold restampBy
      by_cases hSame : other.txHash = row.txHash
      · have hHere :
            other.txHash ∈ (row :: found).map TxRow.txHash := by
          rw [hSame]
          exact List.mem_cons_self
        rw [if_pos hHere, if_pos hSame, hBlob.1 hSame.symm]
        exact ite_self _
      · rw [if_neg hSame]
        exact if_congr (by simp [hSame]) rfl rfl

/- Statements for one row each are one round over all rows. -/
theorem foldl_map
    {Row Entry : Type}
    (change : Row → Entry → Entry)
    (found : List Row)
    (rows : List Entry) :
    found.foldl (fun rows row => rows.map (change row)) rows =
      rows.map fun other =>
        found.foldl (fun other row => change row other)
          other := by
  induction found generalizing rows with
  | nil => simp
  | cons row found ih =>
      rw [List.foldl_cons, ih, List.map_map]
      rfl

section Update

variable {db : CoreDatabase}
variable {hashes : List UInt256}
variable {blockHeight timestamp : Nat}

/- The rows that are selected for an update. -/
def foundRows
    (db : CoreDatabase)
    (hashes : List UInt256) : List TxRow :=
  (txRows db).filter fun row => decide (row.txHash ∈ hashes)

theorem txUpdated_eq
    (hSome : hashes ≠ [])
    (hCount :
      (foundRows db hashes).length = hashes.length)
    (hBlobs : ∀ row ∈ txRows db, 8 < row.blob.length) :
    txUpdated db hashes blockHeight timestamp =
      some
        { db with
          transactions :=
            db.transactions.map fun other =>
              (foundRows db hashes).foldl
                (fun other row =>
                  restampBy
                    (trailer blockHeight (rebase timestamp))
                    row other)
                other } := by
  have hFound :
      (db.transactions.filter fun row =>
          row.type = 1 && decide (row.txHash ∈ hashes)) =
        foundRows db hashes := by
    unfold foundRows txRows
    rw [List.filter_filter]
    apply List.filter_congr
    intro row _
    exact Bool.and_comm _ _
  have hSteps :
      ∀ rows : List TxRow,
        (foundRows db hashes).foldl
            (fun rows row =>
              if (trailer blockHeight
                  (rebase timestamp)).length <
                  row.blob.length then
                rows.map fun other =>
                  if other.txHash = row.txHash then
                    { other with
                      blob :=
                        restamp
                          (trailer blockHeight
                            (rebase timestamp))
                          row.blob }
                  else other
              else rows)
            rows =
          (foundRows db hashes).foldl
            (fun rows row =>
              rows.map
                (restampBy
                  (trailer blockHeight (rebase timestamp))
                  row))
            rows := by
    intro rows
    apply List.foldl_ext
    intro rows row hRow
    have hLong := hBlobs row (List.mem_filter.mp hRow).1
    rw [length_trailer, if_pos hLong]
    rfl
  unfold txUpdated
  rw [if_neg hSome]
  simp only [hFound]
  rw [if_pos hCount, hSteps, foldl_map]

/- Each hash that has one row finds just that. -/
theorem length_foundRows
    (hDistinct : ((txRows db).map TxRow.txHash).Nodup)
    (hHashes : hashes.Nodup)
    (hAll : ∀ hash ∈ hashes, hash ∈ (txRows db).map TxRow.txHash) :
    (foundRows db hashes).length = hashes.length := by
  have hNodup :
      ((foundRows db hashes).map TxRow.txHash).Nodup :=
    hDistinct.sublist
      (List.Sublist.map _ List.filter_sublist)
  have hPerm :
      ((foundRows db hashes).map TxRow.txHash).Perm hashes := by
    rw [List.perm_ext_iff_of_nodup hNodup hHashes]
    intro hash
    constructor
    · intro hMem
      rcases List.mem_map.mp hMem with ⟨row, hRow, rfl⟩
      exact of_decide_eq_true (List.mem_filter.mp hRow).2
    · intro hMem
      rcases List.mem_map.mp (hAll hash hMem) with
        ⟨row, hRow, rfl⟩
      apply List.mem_map_of_mem
      exact List.mem_filter.mpr ⟨hRow, decide_eq_true hMem⟩
  have hLength := hPerm.length_eq
  rwa [List.length_map] at hLength

/-
  The rows of the named transactions get another height and
  timestamp, and no other row of a transaction changes.
-/
theorem txRows_txUpdated
    {max : Int32}
    (hKeyed : Keyed db max)
    (hDistinct : ((txRows db).map TxRow.txHash).Nodup)
    (hBlobs : ∀ row ∈ txRows db, 8 < row.blob.length)
    (hSome : hashes ≠ [])
    (hHashes : hashes.Nodup)
    (hAll : ∀ hash ∈ hashes, hash ∈ (txRows db).map TxRow.txHash) :
    ∃ next,
      txUpdated db hashes blockHeight timestamp = some next ∧
        Keyed next max ∧
        txRows next =
          (txRows db).map fun row =>
            if row.txHash ∈ hashes then
              { row with
                blob :=
                  restamp
                    (trailer blockHeight (rebase timestamp))
                    row.blob }
            else row := by
  set bytes := trailer blockHeight (rebase timestamp)
  refine
    ⟨_, txUpdated_eq hSome
      (length_foundRows hDistinct hHashes hAll) hBlobs,
      ⟨hKeyed.counted, ?_⟩, ?_⟩
  · intro row hRow
    rcases List.mem_map.mp hRow with ⟨other, hOther, rfl⟩
    rw [(foldl_restampBy_fields bytes _ other).1]
    exact hKeyed.below other hOther
  · have hFilter :
        ∀ rows : List TxRow,
          (rows.map fun other =>
              (foundRows db hashes).foldl
                (fun other row => restampBy bytes row other)
                other).filter (fun row => row.type = 1) =
            (rows.filter fun row => row.type = 1).map
              fun other =>
                (foundRows db hashes).foldl
                  (fun other row => restampBy bytes row other)
                  other := by
      intro rows
      rw [List.filter_map]
      congr 1
      apply List.filter_congr
      intro row _
      simp only [Function.comp_apply,
        (foldl_restampBy_fields bytes _ row).2]
    change List.filter _ _ = _
    rw [hFilter, ← txRows]
    apply List.map_congr_left
    intro row hRow
    have hOne :
        ∀ other ∈ foundRows db hashes,
          other.txHash = row.txHash → other.blob = row.blob := by
      intro other hOther hSame
      have hEq :=
        List.inj_on_of_nodup_map hDistinct
          (List.mem_filter.mp hOther).1 hRow hSame
      rw [hEq]
    have hMem :
        row.txHash ∈ (foundRows db hashes).map TxRow.txHash ↔
          row.txHash ∈ hashes := by
      constructor
      · intro hFound
        rcases List.mem_map.mp hFound with
          ⟨other, hOther, hSame⟩
        rw [← hSame]
        exact of_decide_eq_true (List.mem_filter.mp hOther).2
      · intro hNamed
        apply List.mem_map_of_mem
        exact
          List.mem_filter.mpr ⟨hRow, decide_eq_true hNamed⟩
    rw [foldl_restampBy hOne]
    exact if_congr hMem rfl rfl

/- The blob of a row is that of the transaction, moved. -/
theorem restamp_blobOf
    (tx : BRTransaction UInt256)
    (blockHeight timestamp : Nat) :
    restamp (trailer blockHeight (rebase timestamp))
        (blobOf tx) =
      blobOf
        { tx with
          blockHeight := blockHeight
          timestamp := timestamp } := by
  have hTake :
      (blobOf tx).length - 8 = (encoding tx).length := by
    rw [length_blobOf, Nat.add_sub_cancel]
  rw [restamp, length_trailer, hTake, blobOf,
    List.take_left' rfl]
  rfl

end Update

------------------------------------------------------------
-- Loading
------------------------------------------------------------

/-
  A signed transaction that the parser reads back, with numbers
  of 32 bits and a timestamp that is 0 or later than 2001.
-/
structure Storable
    (sha256_2 : List UInt8 → UInt256)
    (tx : BRTransaction UInt256) : Prop where
  writable : Writable sha256_2 tx
  signed : tx.isSigned = true
  size : (serialize sha256_2 tx none).1 + 8 < 2 ^ 31
  height : tx.blockHeight < 2 ^ 32
  time :
    tx.timestamp = 0 ∨ NSTimeIntervalSince1970 < tx.timestamp
  time_lt : tx.timestamp < 2 ^ 32

theorem Storable.size_encoding
    {sha256_2 : List UInt8 → UInt256}
    {tx : BRTransaction UInt256}
    (hStorable : Storable sha256_2 tx) :
    (encoding tx).length + 8 < 2 ^ 31 := by
  have hSize := hStorable.size
  rwa [(writes_serialize sha256_2 tx).null] at hSize

theorem Storable.hash
    {sha256_2 : List UInt8 → UInt256}
    {tx : BRTransaction UInt256}
    (hStorable : Storable sha256_2 tx) :
    tx.txHash = sha256_2 (encoding tx) := by
  have hHash := hStorable.writable.hash
  rwa [hStorable.signed, if_pos rfl,
    (writes_serialize sha256_2 tx).bytes_eq] at hHash

/- A transaction as its bytes hold it, with height and time. -/
def stored
    (tx : BRTransaction UInt256) : BRTransaction UInt256 :=
  { tx with inputs := tx.inputs.map parsedInput }

/- The parts that are not stored do not show in the bytes. -/
theorem encoding_stored
    {tx : BRTransaction UInt256}
    (hSigned : tx.isSigned = true) :
    encoding (stored tx) = encoding tx := by
  have hInput :
      ∀ input ∈ tx.inputs,
        inputBytes (parsedInput input) = inputBytes input := by
    intro input hInput
    have hSome := List.all_eq_true.mp hSigned input hInput
    rcases Option.isSome_iff_exists.mp hSome with
      ⟨signature, hSignature⟩
    simp [inputBytes, parsedInput, shownScript, amountBytes,
      hSignature]
  have hInputs :
      (tx.inputs.map parsedInput).flatMap inputBytes =
        tx.inputs.flatMap inputBytes := by
    rw [List.flatMap_map]
    exact List.flatMap_congr hInput
  unfold encoding stored
  rw [hInputs, List.length_map]

theorem blobOf_stored
    {tx : BRTransaction UInt256}
    (hSigned : tx.isSigned = true) :
    blobOf (stored tx) = blobOf tx := by
  rw [blobOf, encoding_stored hSigned]
  rfl

theorem parsedInput_parsedInput
    (input : BRTxInput UInt256) :
    parsedInput (parsedInput input) = parsedInput input := by
  rcases hSignature : input.signature with _ | signature <;>
    simp [parsedInput, hSignature]

@[simp]
theorem stored_stored
    (tx : BRTransaction UInt256) :
    stored (stored tx) = stored tx := by
  have hInputs :
      (tx.inputs.map parsedInput).map parsedInput =
        tx.inputs.map parsedInput := by
    rw [List.map_map]
    exact List.map_congr_left fun input _ =>
      parsedInput_parsedInput input
  unfold stored
  dsimp only
  rw [hInputs]

theorem isSigned_stored
    (tx : BRTransaction UInt256) :
    (stored tx).isSigned = tx.isSigned := by
  unfold stored isSigned
  rw [List.all_map]
  congr 1
  funext input
  rcases hSignature : input.signature with _ | signature <;>
    simp [parsedInput, hSignature]

/- What is loaded can be stored again. -/
theorem Storable.stored
    {sha256_2 : List UInt8 → UInt256}
    {tx : BRTransaction UInt256}
    (hStorable : Storable sha256_2 tx) :
    Storable sha256_2 (CoreDatabase.stored tx) := by
  have hSame := encoding_stored hStorable.signed
  have hSigned := isSigned_stored tx
  rw [hStorable.signed] at hSigned
  refine
    { writable := ⟨?_, ?_, ?_⟩
      signed := hSigned
      size := ?_
      height := hStorable.height
      time := hStorable.time
      time_lt := hStorable.time_lt }
  · intro hNone
    exact hStorable.writable.nonempty
      (List.map_eq_nil_iff.mp hNone)
  · intro input hInput
    rcases List.mem_map.mp hInput with ⟨other, hOther, rfl⟩
    have hReadable := hStorable.writable.readable other hOther
    rcases hSignature : other.signature with _ | signature <;>
      simpa [Readable, parsedInput, hSignature] using hReadable
  · rw [hSigned, if_pos rfl,
      (writes_serialize sha256_2 _).bytes_eq, hSame]
    exact hStorable.hash
  · rw [(writes_serialize sha256_2 _).null, hSame]
    exact hStorable.size_encoding

/- A number at the end of a blob. -/
theorem getUInt32LE_of_drop
    {buf rest : List UInt8}
    {off number : Nat}
    (hDrop : buf.drop off = littleEndian 4 number ++ rest)
    (hNumber : number < 2 ^ 32) :
    getUInt32LE buf off = some (UInt32.ofNat number) := by
  have hLength := congrArg List.length hDrop
  rw [List.length_drop, List.length_append,
    length_littleEndian] at hLength
  have hTake :
      (littleEndian 4 number ++ rest).take 4 =
        littleEndian 4 number :=
    List.take_left' (length_littleEndian 4 number)
  rw [getUInt32LE, slice, if_pos (by omega), hDrop, hTake,
    Option.map_some,
    ofLittleEndian_littleEndian 4 (by omega)]

theorem rebase_spec
    {timestamp : Nat}
    (hTime :
      timestamp = 0 ∨ NSTimeIntervalSince1970 < timestamp) :
    (rebase timestamp = 0 ∧ timestamp = 0) ∨
      (rebase timestamp ≠ 0 ∧
        rebase timestamp + NSTimeIntervalSince1970 =
          timestamp) := by
  unfold rebase
  rcases hTime with rfl | hLate
  · exact Or.inl ⟨rfl, rfl⟩
  · rw [if_pos hLate]
    right
    omega

/- A row that was written is read back. -/
theorem loadFrom_cons
    {sha256_2 : List UInt8 → UInt256}
    {tx : BRTransaction UInt256}
    (hStorable : Storable sha256_2 tx)
    {blobs : List (List UInt8)}
    {txs : List (BRTransaction UInt256)}
    (hRest : loadFrom sha256_2 blobs = some txs) :
    loadFrom sha256_2 (blobOf tx :: blobs) =
      some (stored tx :: txs) := by
  have hLength := length_blobOf tx
  have hTake :
      (blobOf tx).length - 8 = (encoding tx).length := by
    omega
  have hParse :
      BRTransaction.parse sha256_2 (encoding tx) =
        some (some (parsed tx)) := by
    rw [parse_encoding sha256_2 hStorable.writable.nonempty
      hStorable.writable.readable
      (by have hSize := hStorable.size_encoding; omega),
      hStorable.signed, if_pos rfl, ← hStorable.hash]
    rfl
  have hFront :
      (blobOf tx).take (encoding tx).length = encoding tx :=
    List.take_left' rfl
  have hHeight :
      getUInt32LE (blobOf tx) (encoding tx).length =
        some (UInt32.ofNat tx.blockHeight) := by
    apply @getUInt32LE_of_drop _
      (littleEndian 4 (rebase tx.timestamp))
    · exact List.drop_left' rfl
    · exact hStorable.height
  have hLate := hStorable.time_lt
  have hRebase := rebase_spec hStorable.time
  have hSmall : rebase tx.timestamp < 2 ^ 32 := by
    rcases hRebase with ⟨hZero, -⟩ | ⟨-, hSum⟩ <;> omega
  have hTime :
      getUInt32LE (blobOf tx) ((encoding tx).length + 4) =
        some (UInt32.ofNat (rebase tx.timestamp)) := by
    apply @getUInt32LE_of_drop _ []
    · rw [← List.drop_drop, blobOf, List.drop_left' rfl,
        trailer, List.drop_left' (length_littleEndian 4 _),
        List.append_nil]
    · exact hSmall
  have hNat :
      (UInt32.ofNat (rebase tx.timestamp)).toNat =
        rebase tx.timestamp :=
    UInt32.toNat_ofNat_of_lt' hSmall
  have hHeightNat :
      (UInt32.ofNat tx.blockHeight).toNat = tx.blockHeight :=
    UInt32.toNat_ofNat_of_lt' hStorable.height
  unfold loadFrom
  rw [if_neg (by omega)]
  simp only [hTake, hFront, hParse, hHeight, hTime, hRest,
    hHeightNat, Option.bind_eq_bind, Option.bind_some]
  rw [hNat]
  rcases hRebase with ⟨hZero, hNone⟩ | ⟨hNe, hSum⟩
  · rw [hZero, if_pos (by rfl)]
    unfold stored
    rw [hNone]
    rfl
  · have hSome : UInt32.ofNat (rebase tx.timestamp) ≠ 0 := by
      intro hZero
      rw [hZero] at hNat
      exact hNe hNat.symm
    rw [if_neg hSome, if_neg (by omega), hSum]
    rfl

/-
  Rows that hold storable transactions are loaded as these, in
  the order of the rows.
-/
theorem loadTransactions_eq
    {sha256_2 : List UInt8 → UInt256}
    {db : CoreDatabase}
    {txs : List (BRTransaction UInt256)}
    (hRows : (txRows db).map TxRow.blob = txs.map blobOf)
    (hStorable : ∀ tx ∈ txs, Storable sha256_2 tx) :
    loadTransactions sha256_2 db = some (txs.map stored) := by
  have hLoad :
      ∀ txs : List (BRTransaction UInt256),
        (∀ tx ∈ txs, Storable sha256_2 tx) →
          loadFrom sha256_2 (txs.map blobOf) =
            some (txs.map stored) := by
    intro txs
    induction txs with
    | nil => exact fun _ => rfl
    | cons tx txs ih =>
        intro hAll
        rw [List.forall_mem_cons] at hAll
        exact loadFrom_cons hAll.1 (ih hAll.2)
  unfold loadTransactions
  rw [← txRows, hRows]
  exact hLoad txs hStorable

end CoreDatabase

end PlusWallet
