import Mathlib.Tactic
import RvBackend.Lower.Frame

/-! # Rounding up to a multiple

`alignUp` adds a mask and cuts the low bits off. In two's complement that is the least multiple of a
power of two that is not below the address, also for negative addresses, as long as the sum stays in
64 bits.

* `roundUp_least`: rounding up an integer gives the least multiple.
* `toInt_and_not_mask`: to cut the low bits off is to take the remainder away.
* `toInt_alignUp_bmod`: `alignUp` rounds up, and keeps of the result what 64 bits hold.
* `toInt_alignUp`: the value of `alignUp` if the sum stays in 64 bits.
* `alignUp_rounds_up`: so it is the least multiple, and `alignUp` is idempotent and monotone. -/

namespace RvBackend.Lower

/-- The least multiple of `m` that is not below `n`. -/
def roundUp (m n : ℤ) : ℤ := n + (-n) % m

theorem le_roundUp {m : ℤ} (hm : 0 < m) (n : ℤ) : n ≤ roundUp m n := by
  have := Int.emod_nonneg (-n) hm.ne'
  unfold roundUp
  omega

theorem dvd_roundUp (m n : ℤ) : m ∣ roundUp m n := by
  unfold roundUp
  have h : m ∣ -n - (-n) % m := Int.dvd_self_sub_emod
  have : n + (-n) % m = -(-n - (-n) % m) := by ring
  rw [this]
  exact (Int.dvd_neg).mpr h

/-- **The least multiple**: no multiple lies between a number and its rounding. -/
theorem roundUp_least {m : ℤ} (hm : 0 < m) {n a : ℤ} (hdvd : m ∣ a) (ha : n ≤ a) :
    roundUp m n ≤ a := by
  by_contra hlt
  have hmod : (-n) % m < m := Int.emod_lt_of_pos _ hm
  have hpos : 0 < roundUp m n - a := by omega
  have hle : m ≤ roundUp m n - a := Int.le_of_dvd hpos (Int.dvd_sub (dvd_roundUp m n) hdvd)
  unfold roundUp at hle
  omega

theorem roundUp_lt {m : ℤ} (hm : 0 < m) (n : ℤ) : roundUp m n < n + m := by
  have := Int.emod_lt_of_pos (-n) hm
  unfold roundUp
  omega

theorem isLeast_roundUp {m : ℤ} (hm : 0 < m) (n : ℤ) :
    IsLeast {a : ℤ | m ∣ a ∧ n ≤ a} (roundUp m n) :=
  ⟨⟨dvd_roundUp m n, le_roundUp hm n⟩, fun _ h => roundUp_least hm h.1 h.2⟩

theorem roundUp_mono {m : ℤ} (hm : 0 < m) {n n' : ℤ} (h : n ≤ n') : roundUp m n ≤ roundUp m n' :=
  roundUp_least hm (dvd_roundUp m n') (h.trans (le_roundUp hm n'))

/-- A multiple stays what it is. -/
theorem roundUp_of_dvd {m n : ℤ} (h : m ∣ n) : roundUp m n = n := by
  rw [roundUp, Int.emod_eq_zero_of_dvd ((Int.dvd_neg).mpr h), add_zero]

theorem sub_emod_eq_roundUp {m : ℤ} (hm : 0 < m) (n : ℤ) :
    n + m - 1 - (n + m - 1) % m = roundUp m n := by
  have hlt := Int.emod_lt_of_pos (n + m - 1) hm
  have hnn := Int.emod_nonneg (n + m - 1) hm.ne'
  have hdvd : m ∣ n + m - 1 - (n + m - 1) % m := Int.dvd_self_sub_emod
  have hle : roundUp m n ≤ n + m - 1 - (n + m - 1) % m := roundUp_least hm hdvd (by omega)
  have hge := le_roundUp hm n
  by_contra hne
  have := Int.le_of_dvd (by omega) (Int.dvd_sub hdvd (dvd_roundUp m n))
  omega

/-! ### Masks -/

theorem bitVec_and_add_and_not {w : ℕ} (x m : BitVec w) : (x &&& m) + (x &&& ~~~m) = x := by
  rw [BitVec.add_eq_or_of_and_eq_zero]
  · ext i hi
    simp only [BitVec.getElem_or, BitVec.getElem_and, BitVec.getElem_not]
    cases x[i] <;> cases m[i] <;> rfl
  · ext i hi
    simp only [BitVec.getElem_and, BitVec.getElem_not, BitVec.getElem_zero]
    cases x[i] <;> cases m[i] <;> rfl

theorem toNat_and_mask {w : ℕ} (x : BitVec w) {k : ℕ} (hk : k ≤ w) :
    (x &&& BitVec.ofNat w (2 ^ k - 1)).toNat = x.toNat % 2 ^ k := by
  have hlt : 2 ^ k - 1 < 2 ^ w := by
    have h1 : 2 ^ k ≤ 2 ^ w := Nat.pow_le_pow_right (by norm_num) hk
    have h2 : 0 < 2 ^ k := Nat.two_pow_pos k
    omega
  rw [BitVec.toNat_and, BitVec.toNat_ofNat, Nat.mod_eq_of_lt hlt, Nat.and_two_pow_sub_one_eq_mod]

/-- What a word holds of a number has the remainders of the number. -/
theorem bmod_emod_two_pow (n : ℤ) {w k : ℕ} (hk : k ≤ w) :
    n.bmod (2 ^ w) % (2 ^ k : ℕ) = n % (2 ^ k : ℕ) := by
  have hdvd : ((2 ^ k : ℕ) : ℤ) ∣ ((2 ^ w : ℕ) : ℤ) :=
    Int.natCast_dvd_natCast.mpr (pow_dvd_pow 2 hk)
  rw [← Int.emod_emod_of_dvd (n.bmod _) hdvd, Int.bmod_emod, Int.emod_emod_of_dvd n hdvd]

theorem toInt_emod_two_pow {w : ℕ} (x : BitVec w) {k : ℕ} (hk : k ≤ w) :
    x.toInt % (2 ^ k : ℕ) = (x.toNat % 2 ^ k : ℕ) := by
  rw [BitVec.toInt_eq_toNat_bmod, bmod_emod_two_pow _ hk, Int.natCast_mod]

/-- **Cutting the low bits off** takes the remainder away, in 64 bits. -/
theorem toInt_and_not_mask (x : Int64) {k : ℕ} (hk : k ≤ 64) :
    (x &&& ~~~(Int64.ofNat (2 ^ k) - 1)).toInt =
      (x.toInt - x.toInt % (2 ^ k : ℕ)).bmod (2 ^ 64) := by
  have hmask : (Int64.ofNat (2 ^ k) - 1).toBitVec = BitVec.ofNat 64 (2 ^ k - 1) := by
    have hone : (1 : Int64).toBitVec = BitVec.ofNat 64 1 := rfl
    rw [Int64.toBitVec_sub, hone, Int64.toBitVec_ofNat',
      BitVec.ofNat_sub_ofNat_of_le _ _ (by norm_num) Nat.one_le_two_pow]
  set lo := x.toBitVec &&& BitVec.ofNat 64 (2 ^ k - 1) with hlo
  set hi := x.toBitVec &&& ~~~BitVec.ofNat 64 (2 ^ k - 1) with hhi
  have hsum : hi = x.toBitVec - lo := by
    have h := bitVec_and_add_and_not x.toBitVec (BitVec.ofNat 64 (2 ^ k - 1))
    rw [← hlo, ← hhi] at h
    rw [← h, BitVec.add_comm, BitVec.add_sub_cancel]
  have hrem : x.toInt % (2 ^ k : ℕ) = (lo.toNat : ℤ) := by
    rw [hlo, toNat_and_mask _ hk]
    exact toInt_emod_two_pow x.toBitVec hk
  calc (x &&& ~~~(Int64.ofNat (2 ^ k) - 1)).toInt = hi.toInt := by
        rw [hhi, ← hmask]; rfl
    _ = (x.toInt - lo.toInt).bmod (2 ^ 64) := by rw [hsum, BitVec.toInt_sub]; rfl
    _ = (x.toInt - lo.toNat).bmod (2 ^ 64) := by
      rw [BitVec.toInt_eq_toNat_bmod lo, Int.sub_bmod_bmod]
    _ = (x.toInt - x.toInt % (2 ^ k : ℕ)).bmod (2 ^ 64) := by rw [hrem]

/-! ### Rounding in 64 bits -/

/-- **The value of `alignUp`** for a power of two: the address is rounded up, and the result kept in
64 bits. -/
theorem toInt_alignUp_bmod (addr : Int64) {k : ℕ} (hk : k ≤ 64) :
    (alignUp addr (Int64.ofNat (2 ^ k))).toInt = (roundUp (2 ^ k) addr.toInt).bmod (2 ^ 64) := by
  have hpos : (0 : ℤ) < 2 ^ k := by positivity
  have hsize : (Int64.ofNat (2 ^ k)).toInt = ((2 : ℤ) ^ k).bmod (2 ^ 64) := by
    rw [Int64.toInt_ofNat', Nat.cast_pow, Nat.cast_ofNat]
    rfl
  have hsum : (addr + Int64.ofNat (2 ^ k) - 1).toInt = (addr.toInt + 2 ^ k - 1).bmod (2 ^ 64) := by
    have hone : (1 : Int64).toInt = 1 := by decide
    rw [Int64.toInt_sub, Int64.toInt_add, hsize, hone, Int.bmod_sub_bmod, add_sub_right_comm,
      Int.add_bmod_bmod, ← add_sub_right_comm]
  unfold alignUp
  rw [toInt_and_not_mask _ hk, hsum, bmod_emod_two_pow _ hk, Int.bmod_sub_bmod, Nat.cast_pow,
    Nat.cast_ofNat, sub_emod_eq_roundUp hpos]

section

variable {addr : Int64} {k : ℕ}

/-- Even from the least address the sum for an exponent above 64 does not fit. -/
theorem exponent_le (hfit : addr.toInt + 2 ^ k - 1 < 2 ^ 63) : k ≤ 64 := by
  have hlow := addr.le_toInt
  have hpow : (2 : ℤ) ^ k ≤ 2 ^ 64 := by omega
  exact (pow_le_pow_iff_right₀ (by norm_num)).mp hpow

/-- If the sum fits 64 bits, so does the rounded address. -/
theorem toInt_alignUp (hfit : addr.toInt + 2 ^ k - 1 < 2 ^ 63) :
    (alignUp addr (Int64.ofNat (2 ^ k))).toInt = roundUp (2 ^ k) addr.toInt := by
  have hpos : (0 : ℤ) < 2 ^ k := by positivity
  have hlow := addr.le_toInt
  have hle := le_roundUp hpos addr.toInt
  have hlt := roundUp_lt hpos addr.toInt
  rw [toInt_alignUp_bmod addr (exponent_le hfit)]
  exact Int.bmod_eq_of_le (by omega) (by omega)

/-- A sum that does not fit leaves a multiple all the same. -/
theorem dvd_toInt_alignUp (addr : Int64) (hk : k ≤ 64) :
    2 ^ k ∣ (alignUp addr (Int64.ofNat (2 ^ k))).toInt := by
  have hmod := bmod_emod_two_pow (roundUp (2 ^ k) addr.toInt) hk
  rw [← toInt_alignUp_bmod addr hk, Nat.cast_pow, Nat.cast_ofNat,
    Int.emod_eq_zero_of_dvd (dvd_roundUp _ _)] at hmod
  exact Int.dvd_of_emod_eq_zero hmod

theorem alignUp_of_dvd (hk : k ≤ 64) (h : 2 ^ k ∣ addr.toInt) :
    alignUp addr (Int64.ofNat (2 ^ k)) = addr := by
  have hlow := addr.le_toInt
  have hlt := addr.toInt_lt
  rw [← Int64.toInt_inj, toInt_alignUp_bmod addr hk, roundUp_of_dvd h]
  exact Int.bmod_eq_of_le (by omega) (by omega)

theorem alignUp_le_alignUp {lower : Int64} (hfit : addr.toInt + 2 ^ k - 1 < 2 ^ 63)
    (h : lower ≤ addr) :
    alignUp lower (Int64.ofNat (2 ^ k)) ≤ alignUp addr (Int64.ofNat (2 ^ k)) := by
  have hle : lower.toInt ≤ addr.toInt := Int64.le_iff_toInt_le.mp h
  rw [Int64.le_iff_toInt_le, @toInt_alignUp lower k (by omega), toInt_alignUp hfit]
  exact roundUp_mono (by positivity) hle

end

/-- **Rounding up**: if the sum fits 64 bits, the result is the least multiple that is not below the
address, rounding again changes nothing, and lower addresses are not rounded higher. Nothing is
asked of the exponent: 63 and 64, whose powers are no 64-bit numbers, round the few addresses with a
sum that fits as they should. -/
theorem alignUp_rounds_up (k : ℕ) (addr : Int64) (hfit : addr.toInt + 2 ^ k - 1 < 2 ^ 63) :
    IsLeast {m : ℤ | 2 ^ k ∣ m ∧ addr.toInt ≤ m} (alignUp addr (Int64.ofNat (2 ^ k))).toInt ∧
      alignUp (alignUp addr (Int64.ofNat (2 ^ k))) (Int64.ofNat (2 ^ k)) =
      alignUp addr (Int64.ofNat (2 ^ k)) ∧
      ∀ lower ≤ addr, alignUp lower (Int64.ofNat (2 ^ k)) ≤ alignUp addr (Int64.ofNat (2 ^ k)) := by
  have hk := exponent_le hfit
  refine ⟨?_, alignUp_of_dvd hk (dvd_toInt_alignUp addr hk),
    fun lower h => alignUp_le_alignUp hfit h⟩
  rw [toInt_alignUp hfit]
  exact isLeast_roundUp (by positivity) addr.toInt

/-- An address below zero is rounded towards zero, and the last multiple of 16 to itself. -/
theorem alignUp_rounds_up_at_ends :
    ((-13 : Int64).toInt + 2 ^ 3 - 1 < 2 ^ 63 ∧ alignUp (-13) 8 = -8 ∧
      IsLeast {m : ℤ | 2 ^ 3 ∣ m ∧ -13 ≤ m} (alignUp (-13) 8).toInt ∧
      alignUp (alignUp (-13) 8) 8 = alignUp (-13) 8 ∧ (-16 : Int64) ≤ -13 ∧
      alignUp (-16) 8 ≤ alignUp (-13) 8) ∧
    (Int64.maxValue - 15).toInt + 2 ^ 4 - 1 < 2 ^ 63 ∧
      alignUp (Int64.maxValue - 15) 16 = Int64.maxValue - 15 ∧
      IsLeast {m : ℤ | 2 ^ 4 ∣ m ∧ 2 ^ 63 - 16 ≤ m} (alignUp (Int64.maxValue - 15) 16).toInt := by
  have hnegative : (-13 : Int64).toInt + 2 ^ 3 - 1 < 2 ^ 63 := by decide
  have hlower : (-16 : Int64) ≤ -13 := by decide
  have hlast : (Int64.maxValue - 15).toInt + 2 ^ 4 - 1 < 2 ^ 63 := by decide
  obtain ⟨hleast, hidem, hmono⟩ := alignUp_rounds_up 3 (-13) hnegative
  obtain ⟨hleast', -, -⟩ := alignUp_rounds_up 4 (Int64.maxValue - 15) hlast
  exact ⟨⟨hnegative, by decide, hleast, hidem, hlower, hmono (-16) hlower⟩, hlast, by decide,
    hleast'⟩

theorem toInt_max (a b : Int64) : (max a b).toInt = max a.toInt b.toInt := by
  show (if a ≤ b then b else a).toInt = _
  split
  · next h => rw [max_eq_right (Int64.le_iff_toInt_le.mp h)]
  · next h => rw [max_eq_left (le_of_not_ge fun h' => h (Int64.le_iff_toInt_le.mpr h'))]

end RvBackend.Lower
