import Mathlib

/-
  The fee rate that `BRPeerManager.c` takes from the peers.

  Each connected peer tells its lowest rate in a `feefilter`
  message.  `_peerSetFeePerKb` looks for the second highest of
  them and raises the rate of the wallet to one and a half of
  it.  Its loop never takes a rate that is not a new maximum
  for the second one, so what it finds depends on the order of
  the peers.

  Main declarations:
    * `highestFees`, `_peerSetFeePerKb`
    * `secondLargest` and `secondLargest_perm`
    * `RunnerUpFirst` and `secondFeePerKb_eq_iff`
    * `peerSetFeePerKb_lawful_iff`
-/

namespace PlusWallet

namespace FeeFilter

def DEFAULT_FEE_PER_KB : UInt64 := 1000 * 10

def MAX_FEE_PER_KB : UInt64 := (1000 * 1000100 + 190) / 191

/- `BRPeerStatus` -/
inductive BRPeerStatus where
  | Disconnected
  | Connecting
  | Connected
deriving DecidableEq

/- What the loop reads of a connected peer. -/
structure FeePeer where
  status : BRPeerStatus
  feePerKb : UInt64
deriving DecidableEq

/- The values that the loop keeps. -/
structure Highest where
  maxFeePerKb : UInt64
  secondFeePerKb : UInt64
deriving DecidableEq

/- One turn of the loop. -/
def takeFee (p : FeePeer) (fees : Highest) : Highest :=
  if p.status ≠ .Connected then fees
  else if p.feePerKb > fees.maxFeePerKb then
    ⟨p.feePerKb, fees.maxFeePerKb⟩
  else fees

/- The loop, from the last peer down to the first. -/
def highestFees (connectedPeers : List FeePeer) : Highest :=
  connectedPeers.foldr takeFee ⟨0, 0⟩

/- The fee rate of the wallet after `_peerSetFeePerKb`. -/
def _peerSetFeePerKb
    (connectedPeers : List FeePeer)
    (walletFeePerKb : UInt64) :
    UInt64 :=
  let secondFeePerKb :=
    (highestFees connectedPeers).secondFeePerKb
  if secondFeePerKb * 3 / 2 > DEFAULT_FEE_PER_KB ∧
      secondFeePerKb * 3 / 2 ≤ MAX_FEE_PER_KB ∧
      secondFeePerKb * 3 / 2 > walletFeePerKb then
    secondFeePerKb * 3 / 2
  else walletFeePerKb

------------------------------------------------------------
-- The Second Largest Number
------------------------------------------------------------

/- The second number in descending order, 0 for fewer. -/
def secondLargest (rates : List Nat) : Nat :=
  (rates.mergeSort (fun a b => decide (b ≤ a))).getD 1 0

/- The largest number, 0 for none. -/
def largest (rates : List Nat) : Nat :=
  rates.foldr max 0

theorem le_largest
    {rates : List Nat}
    {rate : Nat}
    (hMem : rate ∈ rates) :
    rate ≤ largest rates := by
  induction rates with
  | nil => cases hMem
  | cons head rest ih =>
      rcases List.mem_cons.mp hMem with hHead | hRest
      · rw [hHead]
        exact le_max_left _ _
      · exact (ih hRest).trans (le_max_right _ _)

theorem largest_le
    {rates : List Nat}
    {bound : Nat}
    (hBound : ∀ rate ∈ rates, rate ≤ bound) :
    largest rates ≤ bound := by
  induction rates with
  | nil => exact Nat.zero_le _
  | cons head rest ih =>
      apply max_le
      · exact hBound head List.mem_cons_self
      · apply ih
        intro rate hRate
        exact hBound rate (List.mem_cons_of_mem _ hRate)

theorem largest_append (left right : List Nat) :
    largest (left ++ right) =
      max (largest left) (largest right) := by
  induction left with
  | nil => simp [largest]
  | cons head rest ih =>
      show max head (largest (rest ++ right)) = _
      rw [ih]
      exact (max_assoc _ _ _).symm

/- The largest number of a list that is not empty is in it. -/
theorem largest_mem
    {rates : List Nat}
    (hSome : rates ≠ []) :
    largest rates ∈ rates := by
  induction rates with
  | nil => exact absurd rfl hSome
  | cons head rest ih =>
      rcases le_total (largest rest) head with hLe | hLe
      · have hHead : largest (head :: rest) = head :=
          max_eq_left hLe
        rw [hHead]
        exact List.mem_cons_self
      · have hRest : largest (head :: rest) = largest rest :=
          max_eq_right hLe
        rw [hRest]
        rcases eq_or_ne rest [] with hNil | hNil
        · subst hNil
          have hZero : head = 0 := by
            exact Nat.le_zero.mp hLe
          rw [hZero]
          exact List.mem_cons_self
        · exact List.mem_cons_of_mem _ (ih hNil)

/- Two descending lists with the same numbers are equal. -/
theorem descending_eq
    {left right : List Nat}
    (hPerm : left.Perm right)
    (hLeft : left.Pairwise (fun a b => b ≤ a))
    (hRight : right.Pairwise (fun a b => b ≤ a)) :
    left = right := by
  apply hPerm.eq_of_pairwise _ hLeft hRight
  intro a b _ _ hBA hAB
  exact Nat.le_antisymm hAB hBA

theorem mergeSort_descending (rates : List Nat) :
    (rates.mergeSort (fun a b => decide (b ≤ a))).Pairwise
      (fun a b => b ≤ a) := by
  have hTrans :
      ∀ a b c : Nat,
        decide (b ≤ a) = true →
          decide (c ≤ b) = true → decide (c ≤ a) = true := by
    intro a b c hAB hBC
    rw [decide_eq_true_eq] at hAB hBC ⊢
    exact hBC.trans hAB
  have hTotal :
      ∀ a b : Nat,
        (decide (b ≤ a) || decide (a ≤ b)) = true := by
    intro a b
    rw [Bool.or_eq_true, decide_eq_true_eq,
      decide_eq_true_eq]
    exact le_total b a
  have hSorted :=
    List.pairwise_mergeSort hTrans hTotal rates
  exact hSorted.imp of_decide_eq_true

/- The order of the numbers does not matter. -/
theorem secondLargest_perm
    {rates other : List Nat}
    (hPerm : rates.Perm other) :
    secondLargest rates = secondLargest other := by
  unfold secondLargest
  congr 1
  apply descending_eq
  · exact ((List.mergeSort_perm rates _).trans hPerm).trans
      (List.mergeSort_perm other _).symm
  · exact mergeSort_descending rates
  · exact mergeSort_descending other

theorem largest_perm
    {rates other : List Nat}
    (hPerm : rates.Perm other) :
    largest rates = largest other := by
  apply le_antisymm
  · apply largest_le
    intro rate hRate
    exact le_largest (hPerm.subset hRate)
  · apply largest_le
    intro rate hRate
    exact le_largest (hPerm.symm.subset hRate)

/- A descending list starts with its largest number. -/
theorem getD_descending
    {rates : List Nat}
    (hDescending : rates.Pairwise (fun a b => b ≤ a)) :
    rates.getD 0 0 = largest rates := by
  cases hDescending with
  | nil => rfl
  | cons hHead hRest =>
      exact (max_eq_left (largest_le hHead)).symm

/- Beside a largest number the second is the largest. -/
theorem secondLargest_split
    {before after : List Nat}
    {top : Nat}
    (hBefore : ∀ rate ∈ before, rate ≤ top)
    (hAfter : ∀ rate ∈ after, rate ≤ top) :
    secondLargest (before ++ top :: after) =
      max (largest before) (largest after) := by
  have hSort :
      (before ++ top :: after).mergeSort
          (fun a b => decide (b ≤ a)) =
        top :: (before ++ after).mergeSort
          (fun a b => decide (b ≤ a)) := by
    apply descending_eq
    · apply (List.mergeSort_perm _ _).trans
      apply List.perm_middle.trans
      exact (List.mergeSort_perm _ _).symm.cons top
    · exact mergeSort_descending _
    · apply List.Pairwise.cons
      · intro rate hRate
        have hMem :=
          (List.mergeSort_perm _ _).subset hRate
        rcases List.mem_append.mp hMem with hLeft | hRight
        · exact hBefore rate hLeft
        · exact hAfter rate hRight
      · exact mergeSort_descending _
  unfold secondLargest
  rw [hSort, List.getD_cons_succ,
    getD_descending (mergeSort_descending _),
    largest_perm (List.mergeSort_perm _ _),
    largest_append]

/- A list splits at the last of its largest numbers. -/
theorem exists_top
    {rates : List Nat}
    (hSome : rates ≠ []) :
    ∃ before top after,
      rates = before ++ top :: after ∧
        (∀ rate ∈ before, rate ≤ top) ∧
        ∀ rate ∈ after, rate < top := by
  induction rates with
  | nil => exact absurd rfl hSome
  | cons head rest ih =>
      rcases eq_or_ne rest [] with hNil | hNil
      · subst hNil
        exact ⟨[], head, [], rfl, by simp, by simp⟩
      · rcases ih hNil with
          ⟨before, top, after, hRest, hBefore, hAfter⟩
        subst hRest
        rcases le_or_gt head top with hLe | hLt
        · refine ⟨head :: before, top, after, rfl, ?_,
            hAfter⟩
          intro rate hRate
          rcases List.mem_cons.mp hRate with hHead | hMem
          · rw [hHead]
            exact hLe
          · exact hBefore rate hMem
        · refine ⟨[], head, before ++ top :: after, rfl,
            by simp, ?_⟩
          intro rate hRate
          rcases List.mem_append.mp hRate with hMem | hMem
          · exact (hBefore rate hMem).trans_lt hLt
          · rcases List.mem_cons.mp hMem with hTop | hMem
            · rw [hTop]
              exact hLt
            · exact (hAfter rate hMem).trans hLt

------------------------------------------------------------
-- What the Loop Finds
------------------------------------------------------------

/- The rates of the peers that are connected. -/
def connectedRates (connectedPeers : List FeePeer) :
    List Nat :=
  (connectedPeers.filter
    (fun p => decide (p.status = .Connected))).map
      (fun p => p.feePerKb.toNat)

/- The loop on natural numbers. -/
def highest (rates : List Nat) : Nat × Nat :=
  rates.foldr
    (fun rate found =>
      if found.1 < rate then (rate, found.1) else found)
    (0, 0)

theorem highestFees_toNat (connectedPeers : List FeePeer) :
    ((highestFees connectedPeers).maxFeePerKb.toNat,
        (highestFees connectedPeers).secondFeePerKb.toNat) =
      highest (connectedRates connectedPeers) := by
  induction connectedPeers with
  | nil => rfl
  | cons p rest ih =>
      unfold highestFees
      rw [List.foldr_cons]
      change
        ((takeFee p (highestFees rest)).maxFeePerKb.toNat,
          (takeFee p
            (highestFees rest)).secondFeePerKb.toNat) = _
      by_cases hStatus : p.status = .Connected
      · have hRates :
            connectedRates (p :: rest) =
              p.feePerKb.toNat :: connectedRates rest := by
          simp [connectedRates, hStatus]
        have hHighest :
            highest (p.feePerKb.toNat ::
                connectedRates rest) =
              if (highest (connectedRates rest)).1 <
                  p.feePerKb.toNat then
                (p.feePerKb.toNat,
                  (highest (connectedRates rest)).1)
              else highest (connectedRates rest) :=
          rfl
        rw [hRates, hHighest, ← ih]
        unfold takeFee
        rw [if_neg (not_not_intro hStatus)]
        simp only [gt_iff_lt, UInt64.lt_iff_toNat_lt]
        split <;> rfl
      · have hRates :
            connectedRates (p :: rest) =
              connectedRates rest := by
          simp [connectedRates, hStatus]
        rw [hRates, ← ih]
        unfold takeFee
        rw [if_pos hStatus]

theorem highest_fst (rates : List Nat) :
    (highest rates).1 = largest rates := by
  induction rates with
  | nil => rfl
  | cons rate rest ih =>
      change
        (if (highest rest).1 < rate then
          (rate, (highest rest).1) else highest rest).1 =
          max rate (largest rest)
      rw [← ih]
      split
      case isTrue hLt =>
        exact (max_eq_left hLt.le).symm
      case isFalse hGe =>
        exact (max_eq_right (Nat.not_lt.mp hGe)).symm

/- Rates up to the maximum change nothing. -/
theorem highest_append
    {before after : List Nat}
    (hBefore :
      ∀ rate ∈ before, rate ≤ (highest after).1) :
    highest (before ++ after) = highest after := by
  induction before with
  | nil => rfl
  | cons rate rest ih =>
      have hRest :
          highest (rest ++ after) = highest after := by
        apply ih
        intro other hOther
        exact hBefore other (List.mem_cons_of_mem _ hOther)
      change
        (if (highest (rest ++ after)).1 < rate then
          (rate, (highest (rest ++ after)).1)
          else highest (rest ++ after)) = _
      rw [hRest]
      exact if_neg
        (Nat.not_lt.mpr (hBefore rate List.mem_cons_self))

/- The second rate is the maximum of what comes first. -/
theorem highest_split
    {before after : List Nat}
    {top : Nat}
    (hBefore : ∀ rate ∈ before, rate ≤ top)
    (hAfter : ∀ rate ∈ after, rate < top) :
    (highest (before ++ top :: after)).2 =
      largest after := by
  have hTop :
      highest (top :: after) =
        if largest after < top then (top, largest after)
        else highest after := by
    rw [← highest_fst]
    rfl
  have hFirst : (highest (top :: after)).1 = top := by
    rw [highest_fst]
    apply max_eq_left
    apply largest_le
    intro rate hRate
    exact (hAfter rate hRate).le
  rw [highest_append (by
    intro rate hRate
    rw [hFirst]
    exact hBefore rate hRate), hTop]
  split
  case isTrue hLt => rfl
  case isFalse hGe =>
    -- only a rate of 0 is not above what comes first
    rcases eq_or_ne after [] with hNil | hNil
    · rw [hNil]
      rfl
    · exact absurd (hAfter _ (largest_mem hNil)) hGe

/-
  No rate in front of the last maximum is above all the rates
  behind it.  The loop starts at the back.
-/
def RunnerUpFirst (rates : List Nat) : Prop :=
  ∀ before top after,
    rates = before ++ top :: after →
      (∀ rate ∈ before, rate ≤ top) →
        (∀ rate ∈ after, rate < top) →
          largest before ≤ largest after

theorem highest_snd_eq_iff (rates : List Nat) :
    (highest rates).2 = secondLargest rates ↔
      RunnerUpFirst rates := by
  rcases eq_or_ne rates [] with hNil | hNil
  · subst hNil
    apply iff_of_true (by simp [highest, secondLargest])
    intro before top after hEmpty
    simp at hEmpty
  · constructor
    · intro hEq before top after hSplit hBefore hAfter
      rw [hSplit, highest_split hBefore hAfter,
        secondLargest_split hBefore
          (fun rate hRate => (hAfter rate hRate).le)] at hEq
      rw [hEq]
      exact le_max_left _ _
    · intro hFirst
      rcases exists_top hNil with
        ⟨before, top, after, hSplit, hBefore, hAfter⟩
      have hLe :=
        hFirst before top after hSplit hBefore hAfter
      rw [hSplit, highest_split hBefore hAfter,
        secondLargest_split hBefore
          (fun rate hRate => (hAfter rate hRate).le)]
      exact (max_eq_right hLe).symm

theorem secondFeePerKb_eq_iff
    (connectedPeers : List FeePeer) :
    (highestFees connectedPeers).secondFeePerKb.toNat =
        secondLargest (connectedRates connectedPeers) ↔
      RunnerUpFirst (connectedRates connectedPeers) := by
  rw [← highest_snd_eq_iff, ← highestFees_toNat]

------------------------------------------------------------
-- The Order of the Peers
------------------------------------------------------------

theorem mem_connectedRates
    {connectedPeers : List FeePeer}
    {rate : Nat} :
    rate ∈ connectedRates connectedPeers ↔
      ∃ p ∈ connectedPeers,
        p.status = .Connected ∧ p.feePerKb.toNat = rate := by
  simp [connectedRates, and_assoc]

theorem connectedRates_append
    (left right : List FeePeer) :
    connectedRates (left ++ right) =
      connectedRates left ++ connectedRates right := by
  simp [connectedRates]

/- With equal rates the loop finds no second one. -/
theorem highest_snd_of_equal
    {rates : List Nat}
    (hEqual :
      ∀ rate ∈ rates, ∀ other ∈ rates,
        0 < rate → 0 < other → rate = other) :
    (highest rates).2 = 0 := by
  rcases eq_or_ne rates [] with hNil | hNil
  · rw [hNil]
    rfl
  · rcases exists_top hNil with
      ⟨before, top, after, hSplit, hBefore, hAfter⟩
    rw [hSplit, highest_split hBefore hAfter]
    rcases eq_or_ne after [] with hEmpty | hSome
    · rw [hEmpty]
      rfl
    · have hMem := largest_mem hSome
      have hBelow := hAfter _ hMem
      rcases Nat.eq_zero_or_pos (largest after) with
        hZero | hPositive
      · exact hZero
      · have hSame :=
          hEqual (largest after) (by
              rw [hSplit]
              exact List.mem_append_right _
                (List.mem_cons_of_mem _ hMem))
            top (by
              rw [hSplit]
              exact List.mem_append_right _
                List.mem_cons_self)
            hPositive (hPositive.trans hBelow)
        exact absurd hSame hBelow.ne

/- The highest rates at the back, where the loop starts. -/
theorem highest_tops_last
    {tops others : List Nat}
    {top : Nat}
    (hTops : ∀ rate ∈ tops, rate = top)
    (hMem : top ∈ tops)
    (hOthers : ∀ rate ∈ others, rate < top) :
    (highest (others ++ tops)).2 = 0 := by
  rw [highest_append]
  · apply highest_snd_of_equal
    intro rate hRate other hOther _ _
    rw [hTops rate hRate, hTops other hOther]
  · intro rate hRate
    rw [highest_fst]
    exact (hOthers rate hRate).le.trans (le_largest hMem)

/- The highest rates at the front, where the loop ends. -/
theorem highest_tops_first
    {tops others : List Nat}
    {top : Nat}
    (hTops : ∀ rate ∈ tops, rate = top)
    (hMem : top ∈ tops)
    (hOthers : ∀ rate ∈ others, rate < top) :
    (highest (tops ++ others)).2 = largest others := by
  rcases exists_top (List.ne_nil_of_mem hMem) with
    ⟨before, last, after, hSplit, hBefore, hAfter⟩
  subst hSplit
  have hLast : last = top :=
    hTops last
      (List.mem_append_right _ List.mem_cons_self)
  have hNil : after = [] := by
    apply List.eq_nil_iff_forall_not_mem.mpr
    intro rate hRate
    have hSame :=
      hTops rate
        (List.mem_append_right _
          (List.mem_cons_of_mem _ hRate))
    have hBelow := hAfter rate hRate
    rw [hSame, hLast] at hBelow
    exact absurd hBelow (Nat.lt_irrefl _)
  subst hNil hLast
  rw [List.append_assoc]
  exact highest_split hBefore hOthers

/-
  The second rate is the same in every order of the peers if
  and only if all the rates but 0 are equal, and then it is 0.
-/
theorem secondFeePerKb_perm_iff
    (connectedPeers : List FeePeer) :
    (∀ other,
        connectedPeers.Perm other →
          (highestFees other).secondFeePerKb =
            (highestFees connectedPeers).secondFeePerKb) ↔
      ∀ rate ∈ connectedRates connectedPeers,
        ∀ other ∈ connectedRates connectedPeers,
          0 < rate → 0 < other → rate = other := by
  have hSecond :
      ∀ peers,
        (highestFees peers).secondFeePerKb.toNat =
          (highest (connectedRates peers)).2 := by
    intro peers
    rw [← highestFees_toNat]
  constructor
  · intro hOrder
    by_contra hNot
    push Not at hNot
    rcases hNot with
      ⟨rate, hRate, other, hOther, hPos, hPosOther, hNe⟩
    have hSome : connectedRates connectedPeers ≠ [] :=
      List.ne_nil_of_mem hRate
    -- the peers with the highest rate, and the others
    let top := largest (connectedRates connectedPeers)
    let isTop : FeePeer → Bool := fun p =>
      decide (p.status = .Connected ∧ p.feePerKb.toNat = top)
    let tops := connectedPeers.filter isTop
    let others := connectedPeers.filter (fun p => !isTop p)
    have hTops :
        ∀ found ∈ connectedRates tops, found = top := by
      intro found hFound
      rcases mem_connectedRates.mp hFound with
        ⟨p, hMem, _, hFee⟩
      have hIs := of_decide_eq_true (List.mem_filter.mp hMem).2
      rw [← hFee]
      exact hIs.2
    have hOthers :
        ∀ found ∈ connectedRates others, found < top := by
      intro found hFound
      rcases mem_connectedRates.mp hFound with
        ⟨p, hMem, hStatus, hFee⟩
      rcases List.mem_filter.mp hMem with ⟨hPeer, hIs⟩
      apply Nat.lt_of_le_of_ne
      · apply le_largest
        exact mem_connectedRates.mpr
          ⟨p, hPeer, hStatus, hFee⟩
      · intro hEq
        simp [isTop, hStatus, hFee, hEq] at hIs
    have hMember :
        ∀ found ∈ connectedRates connectedPeers,
          found ≠ top → found ∈ connectedRates others := by
      intro found hFound hNeTop
      rcases mem_connectedRates.mp hFound with
        ⟨p, hMem, hStatus, hFee⟩
      apply mem_connectedRates.mpr
      refine ⟨p, List.mem_filter.mpr ⟨hMem, ?_⟩, hStatus,
        hFee⟩
      simp [isTop, hStatus, hFee, hNeTop]
    have hTopMem : top ∈ connectedRates tops := by
      rcases mem_connectedRates.mp (largest_mem hSome) with
        ⟨p, hMem, hStatus, hFee⟩
      apply mem_connectedRates.mpr
      refine ⟨p, List.mem_filter.mpr ⟨hMem, ?_⟩, hStatus,
        hFee⟩
      exact decide_eq_true ⟨hStatus, hFee⟩
    have hPositive : 0 < largest (connectedRates others) := by
      rcases eq_or_ne rate top with hTop | hNeTop
      · have hMem :=
          hMember other hOther (by
            rw [← hTop]
            exact hNe.symm)
        exact hPosOther.trans_le (le_largest hMem)
      · have hMem := hMember rate hRate hNeTop
        exact hPos.trans_le (le_largest hMem)
    have hBack :
        (highest (connectedRates (others ++ tops))).2 = 0 := by
      rw [connectedRates_append]
      exact highest_tops_last hTops hTopMem hOthers
    have hFront :
        (highest (connectedRates (tops ++ others))).2 =
          largest (connectedRates others) := by
      rw [connectedRates_append]
      exact highest_tops_first hTops hTopMem hOthers
    have hPermFront :
        connectedPeers.Perm (tops ++ others) :=
      (List.filter_append_perm isTop connectedPeers).symm
    have hPermBack : connectedPeers.Perm (others ++ tops) :=
      hPermFront.trans List.perm_append_comm
    have hSame :=
      (hOrder _ hPermFront).trans (hOrder _ hPermBack).symm
    have hSameNat := congrArg UInt64.toNat hSame
    rw [hSecond, hSecond, hFront, hBack] at hSameNat
    exact hPositive.ne' hSameNat
  · intro hEqual other hPerm
    apply UInt64.toNat.inj
    rw [hSecond, hSecond, highest_snd_of_equal hEqual]
    apply highest_snd_of_equal
    intro rate hRate again hAgain
    have hRates :
        (connectedRates connectedPeers).Perm
          (connectedRates other) :=
      (hPerm.filter _).map _
    exact hEqual rate (hRates.symm.subset hRate) again
      (hRates.symm.subset hAgain)

------------------------------------------------------------
-- The Rate of the Wallet
------------------------------------------------------------

/- The rates that a rate may be raised to. -/
def InRange (walletFeePerKb rate : Nat) : Prop :=
  DEFAULT_FEE_PER_KB.toNat < rate ∧
    rate ≤ MAX_FEE_PER_KB.toNat ∧ walletFeePerKb < rate

/-
  The second fee is the second largest rate, and the rate of
  the wallet stays or rises to one and a half of that, in the
  range.
-/
structure Lawful
    (connectedPeers : List FeePeer)
    (walletFeePerKb : UInt64) :
    Prop where
  second :
    (highestFees connectedPeers).secondFeePerKb.toNat =
      secondLargest (connectedRates connectedPeers)
  raised :
    _peerSetFeePerKb connectedPeers walletFeePerKb =
        walletFeePerKb ∨
      (_peerSetFeePerKb connectedPeers
            walletFeePerKb).toNat =
          secondLargest (connectedRates connectedPeers) *
            3 / 2 ∧
        InRange walletFeePerKb.toNat
          (secondLargest (connectedRates connectedPeers) *
            3 / 2)

/- A product of 64 bits that wraps does not get into the
   range. -/
def NoWrappedRaise (walletFeePerKb second : Nat) : Prop :=
  2 ^ 64 ≤ second * 3 →
    ¬ InRange walletFeePerKb (second * 3 % 2 ^ 64 / 2)

theorem raised_toNat (secondFeePerKb : UInt64) :
    (secondFeePerKb * 3 / 2).toNat =
      secondFeePerKb.toNat * 3 % 2 ^ 64 / 2 := by
  rw [UInt64.toNat_div, UInt64.toNat_mul]
  rfl

theorem peerSetFeePerKb_cases
    (connectedPeers : List FeePeer)
    (walletFeePerKb : UInt64) :
    (InRange walletFeePerKb.toNat
        ((highestFees connectedPeers).secondFeePerKb.toNat *
          3 % 2 ^ 64 / 2) ∧
      (_peerSetFeePerKb connectedPeers
          walletFeePerKb).toNat =
        (highestFees connectedPeers).secondFeePerKb.toNat *
          3 % 2 ^ 64 / 2) ∨
    (¬ InRange walletFeePerKb.toNat
        ((highestFees connectedPeers).secondFeePerKb.toNat *
          3 % 2 ^ 64 / 2) ∧
      _peerSetFeePerKb connectedPeers walletFeePerKb =
        walletFeePerKb) := by
  rw [← raised_toNat]
  unfold _peerSetFeePerKb InRange
  simp only [gt_iff_lt, UInt64.lt_iff_toNat_lt,
    UInt64.le_iff_toNat_le]
  split
  case isTrue hRange => exact Or.inl ⟨hRange, rfl⟩
  case isFalse hRange => exact Or.inr ⟨hRange, rfl⟩

/-
  The second fee and the new rate are lawful if and only if no
  rate in front of the last maximum is above all those behind
  it, and no wrapped product gets into the range.
-/
theorem peerSetFeePerKb_lawful_iff
    (connectedPeers : List FeePeer)
    (walletFeePerKb : UInt64) :
    (Lawful connectedPeers walletFeePerKb ↔
      RunnerUpFirst (connectedRates connectedPeers) ∧
        NoWrappedRaise walletFeePerKb.toNat
          (secondLargest
            (connectedRates connectedPeers))) ∧
    ((∀ other,
        connectedPeers.Perm other →
          (highestFees other).secondFeePerKb =
            (highestFees connectedPeers).secondFeePerKb) ↔
      ∀ rate ∈ connectedRates connectedPeers,
        ∀ other ∈ connectedRates connectedPeers,
          0 < rate → 0 < other → rate = other) := by
  refine ⟨?_, secondFeePerKb_perm_iff connectedPeers⟩
  rw [← secondFeePerKb_eq_iff]
  have hCases :=
    peerSetFeePerKb_cases connectedPeers walletFeePerKb
  constructor
  · intro hLawful
    rcases hLawful with ⟨hSecond, hRaised⟩
    refine ⟨hSecond, ?_⟩
    rw [hSecond] at hCases
    intro hWraps hRange
    rcases hCases with ⟨_, hNew⟩ | ⟨hNot, _⟩
    case inr => exact hNot hRange
    case inl =>
      have hMax : MAX_FEE_PER_KB.toNat < 2 ^ 63 := by decide
      rcases hRaised with hStays | ⟨_, hWhole⟩
      · rw [hStays] at hNew
        exact absurd hRange.2.2 (hNew ▸ Nat.lt_irrefl _)
      · have hLe := hWhole.2.1
        omega
  · rintro ⟨hSecond, hNoWrap⟩
    refine ⟨hSecond, ?_⟩
    rw [hSecond] at hCases
    rcases hCases with ⟨hRange, hNew⟩ | ⟨_, hStays⟩
    case inr => exact Or.inl hStays
    case inl =>
      right
      rcases Nat.lt_or_ge
          (secondLargest (connectedRates connectedPeers) * 3)
          (2 ^ 64) with hFits | hWraps
      · rw [Nat.mod_eq_of_lt hFits] at hNew hRange
        exact ⟨hNew, hRange⟩
      · exact absurd hRange (hNoWrap hWraps)

/- Two peers with rates of 30000 and 20000, the higher one
   last: the second fee stays 0. -/
theorem peerSetFeePerKb_not_lawful :
    ¬ Lawful
      [⟨.Connected, 20000⟩, ⟨.Connected, 30000⟩] 10000 := by
  intro hLawful
  have hSecond := hLawful.second
  have hRates :
      connectedRates
          [⟨.Connected, 20000⟩, ⟨.Connected, 30000⟩] =
        [20000, 30000] := by
    decide
  have hLargest : secondLargest [20000, 30000] = 20000 :=
    @secondLargest_split [20000] [] 30000
      (by decide) (by decide)
  rw [hRates, hLargest] at hSecond
  exact absurd hSecond (by decide)

end FeeFilter

end PlusWallet
