import StakeOracle.Bonding
import StakeOracle.Commission

/-!
# Shares in natural numbers

A share that is computed on words is the share of the exact balances: what does not fit is refused,
and nothing wraps. In natural numbers it is plain that the depositors' share is never above the
balance that is shared, and at most half of it in the case of a fee distributor.
-/

namespace StakeOracle

/-- The depositors' share of a balance in natural numbers. The commission is at most `10 ^ 18`. -/
def naturalShare (balance user node fee : Nat) : Nat :=
  if balance < user then balance
  else if balance < user + node then user
  else
    let rewards := (balance - (user + node)) * user / (user + node)
    user + rewards - rewards * min fee (10 ^ 18) / 10 ^ 18

/-- The depositors' part of the rewards is not above the rewards. -/
theorem rewards_le (rewards user node : Nat) : rewards * user / (user + node) ≤ rewards := by
  apply Nat.div_le_of_le_mul
  rw [Nat.mul_comm (user + node)]
  exact Nat.mul_le_mul_left _ (Nat.le_add_right user node)

/-- A commission is not above what it is charged on. -/
theorem commission_le (rewards fee : Nat) : rewards * min fee (10 ^ 18) / 10 ^ 18 ≤ rewards := by
  apply Nat.div_le_of_le_mul
  rw [Nat.mul_comm (10 ^ 18)]
  exact Nat.mul_le_mul_left _ (Nat.min_le_right _ _)

/-- A share is not above the balance. -/
theorem naturalShare_le (balance user node fee : Nat) :
    naturalShare balance user node fee ≤ balance := by
  unfold naturalShare
  split
  · exact Nat.le_refl _
  · split
    · omega
    · have hrewards := rewards_le (balance - (user + node)) user node
      dsimp only
      omega

/-- A commission in words, capped at `10 ^ 18`. -/
theorem toNat_cappedFee (fee : Word) :
    (if fee < weiPerEth then fee else weiPerEth).toNat = min fee.toNat (10 ^ 18) := by
  split
  · rename_i h
    have hlt : fee.toNat < 10 ^ 18 := h
    omega
  · rename_i h
    have hle : 10 ^ 18 ≤ fee.toNat := Nat.not_lt.mp h
    rw [toNat_weiPerEth]
    omega

variable {balance user node fee share capital : Word}

/-- Without rewards the share is as much of the depositors' capital as there is. -/
theorem userShare_of_covered (hcapital : user.add? node = some capital) (h : balance < capital) :
    userShare balance user node fee = .ok (if balance < user then balance else user) := by
  simp only [userShare, hcapital, if_pos h]
  split
  · rfl
  · rfl

/-- With rewards both products on the way to the share are checked. That capital may be missing is no
case of its own: then there is nothing to multiply. -/
theorem userShare_of_rewards (hcapital : user.add? node = some capital) (h : capital ≤ balance) :
    userShare balance user node fee =
      match (balance - capital).mul? user with
      | none => .error (.overflow "bonding rewards")
      | some product =>
        match (product / capital).mul? (if fee < weiPerEth then fee else weiPerEth) with
        | none => .error (.overflow "bonding commission")
        | some scaled => .ok (user + product / capital - scaled / weiPerEth) := by
  have hsum : capital.toNat = user.toNat + node.toNat := Word.fit?_eq_some_iff.mp hcapital
  have hcovered : ¬ balance < capital := BitVec.not_lt.mpr h
  have hloss : ¬ balance < user := by
    rw [BitVec.lt_def] at hcovered ⊢
    omega
  simp only [userShare, hcapital, if_neg hloss, if_neg hcovered]
  split
  · rename_i hzero
    obtain rfl : user = 0 := BitVec.eq_of_toNat_eq (by simp [hzero] at hsum ⊢; omega)
    simp [hzero, Word.mul?, Word.fit?]
  · rfl

/-- The words on the way to a share of rewards stand for the exact amounts: no sum or difference of
theirs wraps. -/
structure ExactRewards (balance user node fee capital product scaled : Word) : Prop where
  toNat_capital : capital.toNat = user.toNat + node.toNat
  toNat_rewards : (balance - capital).toNat + capital.toNat = balance.toNat
  toNat_product : product.toNat = (balance - capital).toNat * user.toNat
  toNat_scaled : scaled.toNat = (product / capital).toNat * min fee.toNat (10 ^ 18)
  toNat_sum : (user + product / capital).toNat = user.toNat + (product / capital).toNat
  toNat_difference :
    (user + product / capital - scaled / weiPerEth).toNat + (scaled / weiPerEth).toNat =
      (user + product / capital).toNat

/-- With the checks on the way, every word is exact. -/
theorem exactRewards_of_checks {product scaled : Word} (hcapital : user.add? node = some capital)
    (h : capital ≤ balance) (hproduct : (balance - capital).mul? user = some product)
    (hscaled : (product / capital).mul? (if fee < weiPerEth then fee else weiPerEth) =
      some scaled) : ExactRewards balance user node fee capital product scaled := by
  have hsum : capital.toNat = user.toNat + node.toNat := Word.fit?_eq_some_iff.mp hcapital
  have hrewards : (balance - capital).toNat = balance.toNat - capital.toNat :=
    BitVec.toNat_sub_of_le h
  have hle := BitVec.le_def.mp h
  have hbalance := Word.toNat_lt balance
  have hproduct := Word.fit?_eq_some_iff.mp hproduct
  have hscaled := Word.fit?_eq_some_iff.mp hscaled
  rw [toNat_cappedFee] at hscaled
  -- The depositors' rewards are not above all rewards, and the commission is not above theirs.
  have hbounded := rewards_le (balance - capital).toNat user.toNat node.toNat
  rw [← hsum, ← hproduct, ← BitVec.toNat_udiv] at hbounded
  have hcharged := commission_le (product / capital).toNat fee.toNat
  rw [← hscaled, ← toNat_weiPerEth, ← BitVec.toNat_udiv] at hcharged
  have hadded : (user + product / capital).toNat = user.toNat + (product / capital).toNat :=
    BitVec.toNat_add_of_lt (by omega)
  have hleft : (user + product / capital - scaled / weiPerEth).toNat =
      (user + product / capital).toNat - (scaled / weiPerEth).toNat :=
    BitVec.toNat_sub_of_le (BitVec.le_def.mpr (by omega))
  exact ⟨hsum, by omega, hproduct, hscaled, hadded, by omega⟩

/-- A share is computed with rewards exactly when both products pass their checks, and is then what is
kept of the rewards on top of the depositors' capital. -/
theorem userShare_of_rewards_eq_ok_iff (hcapital : user.add? node = some capital)
    (h : capital ≤ balance) : userShare balance user node fee = .ok share ↔
      ∃ product scaled, (balance - capital).mul? user = some product ∧
        (product / capital).mul? (if fee < weiPerEth then fee else weiPerEth) = some scaled ∧
        user + product / capital - scaled / weiPerEth = share := by
  rw [userShare_of_rewards hcapital h]
  cases (balance - capital).mul? user with
  | none => simp
  | some product =>
    cases hscaled : (product / capital).mul? (if fee < weiPerEth then fee else weiPerEth) with
    | none => simp [hscaled]
    | some scaled => simp [hscaled]

/-- A share that is computed is the one in natural numbers. -/
theorem toNat_userShare (h : userShare balance user node fee = .ok share) :
    share.toNat = naturalShare balance.toNat user.toNat node.toNat fee.toNat := by
  cases hcapital : user.add? node with
  | none =>
    rw [userShare, hcapital] at h
    cases h
  | some capital =>
    have hsum : capital.toNat = user.toNat + node.toNat := Word.fit?_eq_some_iff.mp hcapital
    unfold naturalShare
    rw [← hsum]
    by_cases hcovered : balance < capital
    · rw [userShare_of_covered hcapital hcovered] at h
      rw [if_pos (BitVec.lt_def.mp hcovered), ← Except.ok.inj h]
      exact apply_ite BitVec.toNat (balance < user) balance user
    · have hle : capital ≤ balance := BitVec.not_lt.mp hcovered
      obtain ⟨product, scaled, hproduct, hscaled, rfl⟩ :=
        (userShare_of_rewards_eq_ok_iff hcapital hle).mp h
      have hexact := exactRewards_of_checks hcapital hle hproduct hscaled
      have hrewards := hexact.toNat_rewards
      have huser : (product / capital).toNat =
          (balance.toNat - capital.toNat) * user.toNat / capital.toNat := by
        rw [BitVec.toNat_udiv, hexact.toNat_product, ← hrewards, Nat.add_sub_cancel]
      have hcommission : (scaled / weiPerEth).toNat =
          (product / capital).toNat * min fee.toNat (10 ^ 18) / 10 ^ 18 := by
        rw [BitVec.toNat_udiv, hexact.toNat_scaled, toNat_weiPerEth]
      have hsummed := hexact.toNat_sum
      have hdifference := hexact.toNat_difference
      rw [if_neg (by omega), if_neg (by omega), ← huser]
      dsimp only
      rw [← hcommission]
      omega

/-- The depositors' share of a balance is not above the balance. -/
theorem userShare_le {balance user node fee share : Word}
    (h : userShare balance user node fee = .ok share) : share.toNat ≤ balance.toNat := by
  rw [toNat_userShare h]
  exact naturalShare_le _ _ _ _

/-- Nor is the depositors' share of a minipool's balance: a refund only lowers it. -/
theorem minipoolShare_le {curve : BondingCurve} {minipool : Minipool} {balance share : Word}
    (h : curve.minipoolShare minipool balance = .ok share) : share.toNat ≤ balance.toNat := by
  unfold BondingCurve.minipoolShare at h
  dsimp only at h
  cases hshare : userShare balance (curve.capitalSplit minipool).1 (curve.capitalSplit minipool).2
      minipool.nodeFee with
  | error failure =>
    rw [hshare] at h
    cases h
  | ok whole =>
    have hwhole := userShare_le hshare
    rw [hshare] at h
    change (if minipool.depositType = .full ∧ minipool.userDeposit = 0 then
      Except.ok (whole.subSat curve.fullRefund) else Except.ok whole) = .ok share at h
    split at h
    · rw [← Except.ok.inj h, Word.toNat_subSat]
      omega
    · rw [← Except.ok.inj h]
      exact hwhole

/-- A commission leaves the rest of `10 ^ 18`, if there is any. -/
theorem toNat_kept (fee : Word) :
    (weiPerEth - if fee < weiPerEth then fee else weiPerEth).toNat = 10 ^ 18 - fee.toNat := by
  have hcapped := toNat_cappedFee fee
  rw [BitVec.toNat_sub_of_le (BitVec.le_def.mpr (by rw [hcapped, toNat_weiPerEth]; omega)),
    toNat_weiPerEth]
  omega

/-- The depositors' share of a fee distributor is at most half of its balance. -/
theorem distributorShare_le (balance : Word) (fee : Option Word) :
    (distributorShare balance fee).toNat ≤ balance.toNat / 2 := by
  unfold distributorShare
  split
  · simp
  · have hdivisor : (weiPerEth * 2 : Word).toNat = 10 ^ 18 * 2 := rfl
    dsimp only
    rw [BitVec.toNat_udiv, Word.toNat_mulSat, hdivisor, ← Nat.div_div_eq_div_mul]
    apply Nat.div_le_div_right
    apply Nat.div_le_of_le_mul
    calc min _ _ ≤ balance.toNat * _ := Nat.min_le_left _ _
      _ ≤ balance.toNat * 10 ^ 18 := Nat.mul_le_mul_left _ (toNat_kept _ ▸ Nat.sub_le _ _)
      _ = 10 ^ 18 * balance.toNat := Nat.mul_comm _ _

end StakeOracle
