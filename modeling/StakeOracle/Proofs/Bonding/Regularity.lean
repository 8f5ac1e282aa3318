import StakeOracle.Proofs.Bonding.Shares

/-!
# The bonding curve is regular

A part of an amount that is rounded down grows with the amount, and by no more than the amount does.
Both roundings of the curve are of this kind, so the depositors' share follows the balance without a
jump, wei by wei at most, across the balances at which losses reach the depositors and at which
rewards begin. A greater commission never raises the share, and whatever is computed at some balance
and commission is computed at every smaller one.
-/

namespace StakeOracle

/-! ## Parts that are rounded down -/

variable {amount amount' : Nat}

/-- A part of a greater amount is greater, but by no more than the amount is. -/
theorem mul_div_regular {part whole : Nat} (hpart : part ≤ whole) (h : amount ≤ amount') :
    amount * part / whole ≤ amount' * part / whole ∧
      amount' * part / whole + amount ≤ amount * part / whole + amount' := by
  refine ⟨Nat.div_le_div_right (Nat.mul_le_mul_right part h), ?_⟩
  obtain ⟨growth, rfl⟩ := Nat.exists_eq_add_of_le h
  rcases Nat.eq_zero_or_pos whole with rfl | hwhole
  · simp
  · have hgrown : (amount + growth) * part / whole ≤ amount * part / whole + growth :=
      calc (amount + growth) * part / whole
          = (amount * part + growth * part) / whole := by rw [Nat.add_mul]
        _ ≤ (amount * part + growth * whole) / whole :=
          Nat.div_le_div_right (Nat.add_le_add_left (Nat.mul_le_mul_left growth hpart) _)
        _ = amount * part / whole + growth := Nat.add_mul_div_right _ _ hwhole
    omega

/-- So is what a commission leaves of it. -/
theorem less_commission_regular (fee : Nat) (h : amount ≤ amount') :
    amount - amount * min fee (10 ^ 18) / 10 ^ 18 ≤
        amount' - amount' * min fee (10 ^ 18) / 10 ^ 18 ∧
      amount' - amount' * min fee (10 ^ 18) / 10 ^ 18 + amount ≤
        amount - amount * min fee (10 ^ 18) / 10 ^ 18 + amount' := by
  obtain ⟨hmono, hgrowth⟩ := mul_div_regular (Nat.min_le_right fee (10 ^ 18)) h
  have hcharged := commission_le amount fee
  have hcharged' := commission_le amount' fee
  omega

/-- A greater commission charges more. -/
theorem commission_mono {fee fee' : Nat} (h : fee ≤ fee') (rewards : Nat) :
    rewards * min fee (10 ^ 18) ≤ rewards * min fee' (10 ^ 18) :=
  Nat.mul_le_mul_left rewards (by omega)

/-! ## The curve in natural numbers -/

variable {balance balance' user node fee fee' : Nat}

/-- Without rewards the share is as much of the depositors' capital as there is. -/
theorem naturalShare_of_covered (h : balance < user + node) :
    naturalShare balance user node fee = min balance user := by
  unfold naturalShare
  split
  · omega
  · omega

/-- With rewards it is their capital and what is kept of their rewards. -/
theorem naturalShare_of_rewards (h : user + node ≤ balance) :
    let rewards := (balance - (user + node)) * user / (user + node)
    naturalShare balance user node fee =
      user + (rewards - rewards * min fee (10 ^ 18) / 10 ^ 18) := by
  intro rewards
  rw [naturalShare, if_neg (by omega), if_neg (by omega)]
  exact Nat.add_sub_assoc (commission_le rewards fee) user

/-- The depositors get back their capital, as far as the balance reaches. -/
theorem min_le_naturalShare (balance user node fee : Nat) :
    min balance user ≤ naturalShare balance user node fee := by
  by_cases h : balance < user + node
  · exact Nat.le_of_eq (naturalShare_of_covered h).symm
  · rw [naturalShare_of_rewards (Nat.not_lt.mp h)]
    omega

/-- With all rewards as commission they get no more than that. -/
theorem naturalShare_of_full_fee (hfee : 10 ^ 18 ≤ fee) :
    naturalShare balance user node fee = min balance user := by
  by_cases h : balance < user + node
  · exact naturalShare_of_covered h
  · rw [naturalShare_of_rewards (Nat.not_lt.mp h), Nat.min_eq_right hfee,
      Nat.mul_div_cancel _ (by decide)]
    omega

/-- A greater balance gives a greater share, but by no more than the balance grows. -/
theorem naturalShare_regular (user node fee : Nat) (h : balance ≤ balance') :
    naturalShare balance user node fee ≤ naturalShare balance' user node fee ∧
      naturalShare balance' user node fee + balance ≤
        naturalShare balance user node fee + balance' := by
  by_cases hcovered : balance < user + node
  · rw [naturalShare_of_covered hcovered]
    by_cases hcovered' : balance' < user + node
    · rw [naturalShare_of_covered hcovered']
      omega
    · -- All that the greater share has above the capital comes from rewards.
      have hrewards := rewards_le (balance' - (user + node)) user node
      rw [naturalShare_of_rewards (Nat.not_lt.mp hcovered')]
      omega
  · -- With rewards at both balances both roundings are regular.
    have hcapital : user + node ≤ balance := Nat.not_lt.mp hcovered
    rw [naturalShare_of_rewards hcapital, naturalShare_of_rewards (Nat.le_trans hcapital h)]
    obtain ⟨hmono, hgrowth⟩ := mul_div_regular (Nat.le_add_right user node)
      (Nat.sub_le_sub_right h (user + node))
    obtain ⟨hkept, hkept'⟩ := less_commission_regular fee hmono
    omega

/-- A greater commission gives a smaller share. -/
theorem naturalShare_antitone (h : fee ≤ fee') :
    naturalShare balance user node fee' ≤ naturalShare balance user node fee := by
  unfold naturalShare
  split
  · exact Nat.le_refl _
  · split
    · exact Nat.le_refl _
    · have hcharged := Nat.div_le_div_right (c := 10 ^ 18)
        (commission_mono h ((balance - (user + node)) * user / (user + node)))
      dsimp only
      omega

/-! ## Shares that can be computed -/

/-- Whether the capital fits into a word, and with rewards both products on the way to a share. -/
def ShareFits (balance user node fee : Nat) : Prop :=
  user + node < Word.bound ∧
    (user + node ≤ balance →
      (balance - (user + node)) * user < Word.bound ∧
        (balance - (user + node)) * user / (user + node) * min fee (10 ^ 18) < Word.bound)

/-- What fits at a balance and a commission fits at smaller ones. -/
theorem ShareFits.mono (h : ShareFits balance' user node fee') (hbalance : balance ≤ balance')
    (hfee : fee ≤ fee') : ShareFits balance user node fee := by
  refine ⟨h.1, fun hcapital => ?_⟩
  obtain ⟨hproduct, hscaled⟩ := h.2 (Nat.le_trans hcapital hbalance)
  have hrewards : (balance - (user + node)) * user ≤ (balance' - (user + node)) * user :=
    Nat.mul_le_mul_right user (Nat.sub_le_sub_right hbalance _)
  refine ⟨Nat.lt_of_le_of_lt hrewards hproduct, Nat.lt_of_le_of_lt ?_ hscaled⟩
  exact Nat.le_trans (commission_mono hfee _)
    (Nat.mul_le_mul_right _ (Nat.div_le_div_right hrewards))

/-- A product passes its check exactly where it fits into a word. -/
theorem exists_mul?_iff {a b : Word} :
    (∃ product, a.mul? b = some product) ↔ a.toNat * b.toNat < Word.bound := by
  cases hproduct : a.mul? b with
  | none => simpa using Word.fit?_eq_none_iff.mp hproduct
  | some product =>
    have hexact : product.toNat = a.toNat * b.toNat := Word.fit?_eq_some_iff.mp hproduct
    simpa [← hexact] using Word.toNat_lt product

/-- A share is computed exactly where everything on the way to it fits. -/
theorem exists_userShare_iff {balance user node fee : Word} :
    (∃ share, userShare balance user node fee = .ok share) ↔
      ShareFits balance.toNat user.toNat node.toNat fee.toNat := by
  unfold ShareFits
  cases hcapital : user.add? node with
  | none =>
    have hoverflow : Word.bound ≤ user.toNat + node.toNat := Word.fit?_eq_none_iff.mp hcapital
    simp [userShare, hcapital, Nat.not_lt.mpr hoverflow]
  | some capital =>
    have hsum : capital.toNat = user.toNat + node.toNat := Word.fit?_eq_some_iff.mp hcapital
    rw [← hsum, and_iff_right (Word.toNat_lt capital)]
    by_cases hcovered : balance < capital
    · rw [userShare_of_covered hcapital hcovered]
      exact ⟨fun _ hle => absurd hle (Nat.not_le.mpr (BitVec.lt_def.mp hcovered)),
        fun _ => ⟨_, rfl⟩⟩
    · have hle : capital ≤ balance := BitVec.not_lt.mp hcovered
      have hrewards : (balance - capital).toNat = balance.toNat - capital.toNat :=
        BitVec.toNat_sub_of_le hle
      rw [forall_prop_of_true (BitVec.le_def.mp hle), ← hrewards]
      simp only [userShare_of_rewards_eq_ok_iff hcapital hle]
      constructor
      · rintro ⟨share, product, scaled, hproduct, hscaled, -⟩
        have hexact := exactRewards_of_checks hcapital hle hproduct hscaled
        refine ⟨exists_mul?_iff.mp ⟨product, hproduct⟩, ?_⟩
        rw [← hexact.toNat_product, ← BitVec.toNat_udiv, ← hexact.toNat_scaled]
        exact Word.toNat_lt scaled
      · rintro ⟨hfits, hscaledFits⟩
        obtain ⟨product, hproduct⟩ := exists_mul?_iff.mpr hfits
        rw [← Word.fit?_eq_some_iff.mp hproduct, ← BitVec.toNat_udiv, ← toNat_cappedFee] at hscaledFits
        obtain ⟨scaled, hscaled⟩ := exists_mul?_iff.mpr hscaledFits
        exact ⟨_, product, scaled, hproduct, hscaled, rfl⟩

/-! ## The curve on words -/

/-- A share that is computed with rewards is computed through exact words. -/
theorem exists_exactRewards {balance user node fee share : Word}
    (h : userShare balance user node fee = .ok share)
    (hrewards : user.toNat + node.toNat ≤ balance.toNat) :
    ∃ capital product scaled, ExactRewards balance user node fee capital product scaled ∧
      share = user + product / capital - scaled / weiPerEth := by
  cases hcapital : user.add? node with
  | none =>
    rw [userShare, hcapital] at h
    cases h
  | some capital =>
    have hsum : capital.toNat = user.toNat + node.toNat := Word.fit?_eq_some_iff.mp hcapital
    have hle : capital ≤ balance := BitVec.le_def.mpr (by omega)
    obtain ⟨product, scaled, hproduct, hscaled, hshare⟩ :=
      (userShare_of_rewards_eq_ok_iff hcapital hle).mp h
    exact ⟨capital, product, scaled, exactRewards_of_checks hcapital hle hproduct hscaled,
      hshare.symm⟩

/-- The bonding curve is regular for any capital. A share that is computed at some balance and
commission is computed at all smaller ones. It lies between the smaller of balance and depositors'
capital, where it is if the commission takes all rewards, and the balance. It grows with the balance,
but by no more than the balance does, so that what is left for the node grows too, and it falls as the
commission grows. The words that make it up are exact. -/
theorem userShare_regular (user node : Word) :
    (∀ balance balance' fee fee' : Word, balance ≤ balance' → fee ≤ fee' →
      (∃ share, userShare balance' user node fee' = .ok share) →
        ∃ share, userShare balance user node fee = .ok share) ∧
    (∀ balance fee share, userShare balance user node fee = .ok share →
      min balance.toNat user.toNat ≤ share.toNat ∧ share ≤ balance ∧
        (weiPerEth ≤ fee → share.toNat = min balance.toNat user.toNat)) ∧
    (∀ balance balance' fee share share', balance ≤ balance' →
      userShare balance user node fee = .ok share → userShare balance' user node fee = .ok share' →
      share ≤ share' ∧ share'.toNat - share.toNat ≤ balance'.toNat - balance.toNat ∧
        balance.toNat - share.toNat ≤ balance'.toNat - share'.toNat) ∧
    (∀ balance fee fee' share share', fee ≤ fee' →
      userShare balance user node fee = .ok share → userShare balance user node fee' = .ok share' →
      share' ≤ share) ∧
    ∀ balance fee share, userShare balance user node fee = .ok share →
      user.toNat + node.toNat < Word.bound ∧ (user.toNat + node.toNat ≤ balance.toNat →
        ∃ capital product scaled, ExactRewards balance user node fee capital product scaled ∧
          share = user + product / capital - scaled / weiPerEth) := by
  refine ⟨?_, ?_, ?_, ?_, fun balance fee share hshare =>
    ⟨(exists_userShare_iff.mp ⟨share, hshare⟩).1, exists_exactRewards hshare⟩⟩
  · intro balance balance' fee fee' hbalance hfee hshare
    rw [exists_userShare_iff] at hshare ⊢
    exact hshare.mono (BitVec.le_def.mp hbalance) (BitVec.le_def.mp hfee)
  · intro balance fee share hshare
    refine ⟨?_, BitVec.le_def.mpr (userShare_le hshare), fun hfee => ?_⟩
    · rw [toNat_userShare hshare]
      exact min_le_naturalShare _ _ _ _
    · rw [toNat_userShare hshare]
      exact naturalShare_of_full_fee (BitVec.le_def.mp hfee)
  · intro balance balance' fee share share' hbalance hshare hshare'
    have hle := userShare_le hshare
    obtain ⟨hmono, hgrowth⟩ := naturalShare_regular user.toNat node.toNat fee.toNat
      (BitVec.le_def.mp hbalance)
    rw [← toNat_userShare hshare, ← toNat_userShare hshare'] at hmono hgrowth
    exact ⟨BitVec.le_def.mpr hmono, by omega, by omega⟩
  · intro balance fee fee' share share' hfee hshare hshare'
    rw [BitVec.le_def, toNat_userShare hshare, toNat_userShare hshare']
    exact naturalShare_antitone (BitVec.le_def.mp hfee)

/-- With three quarters of the capital from depositors and a commission of 15 %, seven wei more of
rewards are worth five wei more to them. -/
theorem userShare_seven_wei_later :
    let share := userShare (ethToWei 36) (ethToWei 24) (ethToWei 8) 150000000000000000
    let later := userShare (ethToWei 36 + 7) (ethToWei 24) (ethToWei 8) 150000000000000000
    share = .ok 26550000000000000000 ∧ later = .ok 26550000000000000005 ∧
      (26550000000000000005 : Word).toNat - (26550000000000000000 : Word).toNat ≤
        (ethToWei 36 + 7).toNat - (ethToWei 36).toNat := by
  intro share later
  have hshare : share = .ok 26550000000000000000 := rfl
  have hlater : later = .ok 26550000000000000005 := rfl
  obtain ⟨-, -, hgrowth, -⟩ := userShare_regular (ethToWei 24) (ethToWei 8)
  exact ⟨hshare, hlater, (hgrowth _ _ _ _ _ (by decide) hshare hlater).2.1⟩

end StakeOracle
