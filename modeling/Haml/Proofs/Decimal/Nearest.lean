import Haml.Decimal.Read
import Haml.Proofs.Decimal.Binary

/-! Whole numbers rounded to floats. A number of more than 53 bits is cut to a whole number of its
last places, which is the nearest number of the format, and an even one if two are equally near. -/

namespace Haml.Decimal

namespace Ratio

variable {den : Nat}

theorem roundEven_eq (num den : Nat) : roundEven ⟨num, den⟩ =
    if 2 * (num % den) < den ∨ (2 * (num % den) = den ∧ num / den % 2 = 0) then num / den
    else num / den + 1 := rfl

/-- Rounding moves by half a place at most, and by half a place only to an even number. -/
theorem roundEven_error (num : Nat) (hden : 0 < den) :
    2 * |(num : ℤ) - roundEven ⟨num, den⟩ * den| ≤ den ∧
      (2 * |(num : ℤ) - roundEven ⟨num, den⟩ * den| = den → roundEven ⟨num, den⟩ % 2 = 0) := by
  have hlt : num % den < den := Nat.mod_lt num hden
  have hnum : (num : ℤ) = (num / den : ℕ) * den + (num % den : ℕ) := by
    rw [mul_comm]
    exact_mod_cast (Nat.div_add_mod num den).symm
  have hbelow : |(num : ℤ) - (num / den : ℕ) * den| = (num % den : ℕ) := by
    rw [hnum, add_sub_cancel_left]
    exact abs_of_nonneg (Int.natCast_nonneg _)
  have habove : |(num : ℤ) - ((num / den + 1 : ℕ) : ℤ) * den| = den - (num % den : ℕ) := by
    have hneg : (num : ℤ) - ((num / den + 1 : ℕ) : ℤ) * den = -(den - (num % den : ℕ)) := by
      rw [Nat.cast_succ, add_mul, one_mul]
      omega
    rw [hneg, abs_neg]
    exact abs_of_nonneg (by omega)
  rw [roundEven_eq]
  split_ifs with hround
  · rw [hbelow]
    omega
  · rw [habove]
    omega

/-- No whole number of places is nearer, and one that is as near is another one only if the chosen
one is even. -/
theorem roundEven_nearest (num : Nat) (hden : 0 < den) (k : ℤ) :
    |(num : ℤ) - roundEven ⟨num, den⟩ * den| ≤ |(num : ℤ) - k * den| ∧
      (|(num : ℤ) - roundEven ⟨num, den⟩ * den| = |(num : ℤ) - k * den| →
        k = roundEven ⟨num, den⟩ ∨ roundEven ⟨num, den⟩ % 2 = 0) := by
  obtain ⟨herror, heven⟩ := roundEven_error num hden
  generalize roundEven ⟨num, den⟩ = m at herror heven ⊢
  by_cases hk : k = m
  · exact ⟨(congrArg (fun k : ℤ => |(num : ℤ) - k * den|) hk).ge, fun _ => .inl hk⟩
  -- Another number of places is a whole place away at least.
  have hplace : (den : ℤ) ≤ |(k - m) * den| := by
    rw [abs_mul, abs_of_nonneg (Int.natCast_nonneg den)]
    exact le_mul_of_one_le_left (Int.natCast_nonneg den) (Int.one_le_abs (sub_ne_zero.mpr hk))
  have htriangle : |((k : ℤ) - m) * den| ≤
      |(num : ℤ) - m * den| + |(num : ℤ) - k * den| := by
    have hsplit : (k - m) * (den : ℤ) = (num - m * den) - (num - k * den) := by ring
    rw [hsplit]
    exact abs_sub _ _
  exact ⟨by omega, fun heq => .inr (heven (by omega))⟩

/-- The exponent of the last place that is kept of a number, and how many of these places it has. -/
def place (n : Nat) : Nat := n.log2 - 52

def places (n : Nat) : Nat := roundEven ⟨n, 2 ^ place n⟩

variable {n : Nat}

theorem place_bounds (hn : 2 ^ 52 ≤ n) : 2 ^ 52 * 2 ^ place n ≤ n ∧ n < 2 ^ 53 * 2 ^ place n := by
  have hne : n ≠ 0 := Nat.ne_of_gt (Nat.lt_of_lt_of_le (by positivity) hn)
  have hlog : 52 ≤ n.log2 := (Nat.le_log2 hne).mpr hn
  rw [← Nat.pow_add, ← Nat.pow_add, place, Nat.add_sub_of_le hlog,
    show 53 + (n.log2 - 52) = n.log2 + 1 by omega]
  exact ⟨Nat.log2_self_le hne, Nat.lt_log2_self⟩

theorem places_bounds (hn : 2 ^ 52 ≤ n) : 2 ^ 52 ≤ places n ∧ places n ≤ 2 ^ 53 := by
  obtain ⟨hlow, hhigh⟩ := place_bounds hn
  have hpos : 0 < 2 ^ place n := by positivity
  have hfloor : 2 ^ 52 ≤ n / 2 ^ place n := (Nat.le_div_iff_mul_le hpos).mpr hlow
  have hceil : n / 2 ^ place n < 2 ^ 53 := (Nat.div_lt_iff_lt_mul hpos).mpr hhigh
  rw [places, roundEven_eq]
  split <;> omega

/-- Below the middle between the greatest number of the format and the power of two behind it, no
number is rounded up to that power. -/
theorem places_lt (hn : 2 ^ 52 ≤ n) (hrange : n + 2 ^ 970 < 2 ^ 1024) :
    place n ≤ 971 ∧ (place n = 971 → places n < 2 ^ 53) := by
  have hne : n ≠ 0 := Nat.ne_of_gt (Nat.lt_of_lt_of_le (by positivity) hn)
  have hlog : n.log2 < 1024 := by
    rw [Nat.log2_lt hne]
    omega
  refine ⟨by rw [place]; omega, fun hplace => ?_⟩
  rw [places, roundEven_eq, hplace]
  have hmod := Nat.div_add_mod n (2 ^ 971)
  have hlt : n % 2 ^ 971 < 2 ^ 971 := Nat.mod_lt n (by positivity)
  split <;> omega

/-- The bits of a whole number are those of its places. -/
theorem bits64_whole (hn : 2 ^ 52 ≤ n) (hrange : n + 2 ^ 970 < 2 ^ 1024) :
    bits64 ⟨n, 1⟩ = (place n + 1074) * 2 ^ 52 + places n := by
  have hne : n ≠ 0 := Nat.ne_of_gt (Nat.lt_of_lt_of_le (by positivity) hn)
  have hlog : 52 ≤ n.log2 := (Nat.le_log2 hne).mpr hn
  have hguess : (n.log2 : Int) - (1 : Nat).log2 - 52 = place n := by
    rw [place, Nat.cast_sub hlog]
    rfl
  have hscale : scale ⟨n, 1⟩ 2 (-(place n : Int)) = ⟨n, 2 ^ place n⟩ := by
    rw [scale]
    split
    · next hle =>
      have hzero : place n = 0 := by omega
      simp [hzero]
    · rw [neg_neg, Int.toNat_natCast, one_mul]
      rfl
  have hexponent : exponent64 ⟨n, 1⟩ = place n := by
    have hfloor : ¬floor ⟨n, 2 ^ place n⟩ < twoTo 52 :=
      not_lt.mpr ((Nat.le_div_iff_mul_le (by positivity)).mpr (place_bounds hn).1)
    rw [exponent64]
    dsimp only
    rw [hguess, hscale, if_neg hfloor]
    omega
  obtain ⟨hplace, hlast⟩ := places_lt hn hrange
  obtain ⟨-, hplaces⟩ := places_bounds hn
  rw [bits64, if_neg hne, hexponent, hscale]
  dsimp only
  have hnat : ((place n : Int) + 1074).toNat = place n + 1074 := by omega
  rw [hnat, twoTo_eq, ← places]
  omega

/-- No other whole number of places is nearer. -/
theorem places_nearest_multiple (n : ℕ) (j : ℤ) :
    |(n : ℚ) - places n * 2 ^ place n| ≤ |(n : ℚ) - j * 2 ^ place n| ∧
      (|(n : ℚ) - places n * 2 ^ place n| = |(n : ℚ) - j * 2 ^ place n| →
        j = places n ∨ places n % 2 = 0) := by
  have hpos : 0 < 2 ^ place n := by positivity
  have h := roundEven_nearest n hpos j
  rw [← places] at h
  exact_mod_cast h

/-- A number with a smaller last place is below the first that has 53 bits with this one. -/
theorem places_nearer (hn : 2 ^ 52 ≤ n) {k : ℤ} (hk : |k| < 2 ^ 53) {exponent : ℤ}
    (hlt : exponent < place n) :
    |(n : ℚ) - places n * 2 ^ place n| < |(n : ℚ) - k * 2 ^ exponent| := by
  have hlow : (2 : ℚ) ^ 52 * 2 ^ place n ≤ n := by exact_mod_cast (place_bounds hn).1
  have hsmall : (k : ℚ) * 2 ^ exponent < 2 ^ 52 * 2 ^ place n := by
    have hpower : (2 : ℚ) ^ exponent ≤ 2 ^ ((place n : ℤ) - 1) :=
      zpow_le_zpow_right₀ one_le_two (by omega)
    have hk' : (k : ℚ) < 2 ^ 53 := by exact_mod_cast (abs_lt.mp hk).2
    have hpos : (0 : ℚ) < 2 ^ exponent := zpow_pos two_pos exponent
    calc (k : ℚ) * 2 ^ exponent < 2 ^ 53 * 2 ^ exponent := mul_lt_mul_of_pos_right hk' hpos
      _ ≤ 2 ^ 53 * 2 ^ ((place n : ℤ) - 1) := by gcongr
      _ = 2 ^ 52 * 2 ^ place n := by
        rw [zpow_sub_one₀ two_ne_zero, zpow_natCast]
        ring
  refine lt_of_le_of_lt (places_nearest_multiple n (2 ^ 52)).1 ?_
  rw [Int.cast_pow, Int.cast_ofNat, abs_of_nonneg (sub_nonneg.mpr hlow),
    abs_of_pos (sub_pos.mpr (lt_of_lt_of_le hsmall hlow))]
  exact sub_lt_sub_left hsmall _

/-- No number of 53 bits times a power of two is nearer to a whole number than its places. -/
theorem places_nearest (hn : 2 ^ 52 ≤ n) {k : ℤ} (hk : |k| < 2 ^ 53) (exponent : ℤ) :
    |(n : ℚ) - places n * 2 ^ place n| ≤ |(n : ℚ) - k * 2 ^ exponent| ∧
      (|(n : ℚ) - places n * 2 ^ place n| = |(n : ℚ) - k * 2 ^ exponent| →
        (places n : ℚ) * 2 ^ place n = k * 2 ^ exponent ∨ places n % 2 = 0) := by
  rcases le_or_gt (place n : ℤ) exponent with hle | hlt
  · -- The other number is a whole number of places, too.
    obtain ⟨more, rfl⟩ : ∃ more : ℕ, exponent = more + place n :=
      ⟨(exponent - place n).toNat, by omega⟩
    have hplaces : (k : ℚ) * 2 ^ ((more : ℤ) + place n) = (k * 2 ^ more : ℤ) * 2 ^ place n := by
      rw [zpow_add₀ two_ne_zero, zpow_natCast, zpow_natCast]
      push_cast
      ring
    rw [hplaces]
    obtain ⟨hnearest, htie⟩ := places_nearest_multiple n (k * 2 ^ more)
    refine ⟨hnearest, fun heq => (htie heq).imp_left fun hj => ?_⟩
    rw [hj]
    rfl
  · have hfar := places_nearer hn hk hlt
    exact ⟨hfar.le, fun heq => absurd heq hfar.ne⟩

/-- The places as a normal number of the format. If rounding fills a further bit, the exponent is
one greater. -/
theorem exists_normal (hn : 2 ^ 52 ≤ n) (hrange : n + 2 ^ 970 < 2 ^ 1024) :
    ∃ field fraction : ℕ, 0 < field ∧ field < 2047 ∧ fraction < 2 ^ 52 ∧
      bits64 ⟨n, 1⟩ = field * 2 ^ 52 + fraction ∧ fraction % 2 = places n % 2 ∧
      ((2 ^ 52 + fraction : ℕ) : ℚ) * 2 ^ ((field : ℤ) - 1075) = places n * 2 ^ place n := by
  obtain ⟨hplace, hlast⟩ := places_lt hn hrange
  obtain ⟨hlow, hhigh⟩ := places_bounds hn
  rw [bits64_whole hn hrange]
  rcases hhigh.lt_or_eq with hlt | heq
  · refine ⟨place n + 1075, places n - 2 ^ 52, by omega, by omega, by omega, by omega, by omega, ?_⟩
    rw [Nat.add_sub_of_le hlow, Nat.cast_add, Nat.cast_ofNat, add_sub_cancel_right, zpow_natCast]
  · have hne : place n ≠ 971 := fun h => (hlast h).ne heq
    refine ⟨place n + 1076, 0, by omega, by omega, by omega, by omega, by omega, ?_⟩
    have hexponent : ((place n + 1076 : ℕ) : ℤ) - 1075 = place n + 1 := by omega
    rw [heq, hexponent, zpow_add_one₀ two_ne_zero, zpow_natCast]
    norm_num
    ring

end Ratio

/-- The float is the nearest finite one to a number, and of two that are equally near the one with
the even mantissa. -/
def IsNearest (q : ℚ) (x : Float) : Prop :=
  ∃ v, (Binary64.ofFloat x).value? = some v ∧
    ∀ (y : Float) (w : ℚ), (Binary64.ofFloat y).value? = some w →
      |q - v| ≤ |q - w| ∧ (|q - v| = |q - w| → v = w ∨ x.toBits.toNat % 2 = 0)

/-- A number of the format is a whole number of 53 bits times a power of two. -/
theorem Binary64.exists_of_value? {x : Float} {v : ℚ} (h : (ofFloat x).value? = some v) :
    ∃ (k : ℤ) (exponent : ℤ), |k| < 2 ^ 53 ∧ v = k * 2 ^ exponent := by
  cases hx : ofFloat x with
  | nan =>
    rw [hx] at h
    cases h
  | infinite negative =>
    rw [hx] at h
    cases h
  | finite negative mantissa exponent =>
    obtain ⟨hmantissa, -⟩ := bounds_of_ofBits hx
    rw [hx] at h
    obtain rfl := Option.some.inj h
    refine ⟨(if negative then -1 else 1) * mantissa, exponent, ?_, by push_cast; rfl⟩
    have hsign : |(if negative then -1 else 1 : ℤ)| = 1 := by cases negative <;> rfl
    rw [abs_mul, hsign, one_mul, Nat.abs_cast]
    exact_mod_cast hmantissa

/-- A whole number's bits with a sign in front make the float that is nearest to it. -/
theorem isNearest_whole (negative : Bool) {n : Nat} (hn : 2 ^ 52 ≤ n)
    (hrange : n + 2 ^ 970 < 2 ^ 1024) :
    IsNearest ((if negative then -1 else 1) * n)
      (Float.ofBits ((if negative then 2 ^ 63 else 0) + Ratio.bits64 ⟨n, 1⟩).toUInt64) := by
  obtain ⟨field, fraction, hpos, hfield, hfraction, hbits, hparity, hvalue⟩ :=
    Ratio.exists_normal hn hrange
  have hfloat := toNat_toBits_ofBits negative hfield hfraction
  rw [hbits, ← normalBits]
  refine ⟨(if negative then -1 else 1) * (Ratio.places n * 2 ^ Ratio.place n), ?_, fun y w hw => ?_⟩
  · rw [Binary64.ofFloat, hfloat, Binary64.ofBits_normal negative hpos hfield hfraction,
      Binary64.value?, mul_assoc, hvalue]
  · obtain ⟨k, exponent, hk, rfl⟩ := Binary64.exists_of_value? hw
    have heven : (Float.ofBits (normalBits negative field fraction).toUInt64).toBits.toNat % 2 =
        Ratio.places n % 2 := by
      rw [hfloat, normalBits]
      cases negative <;> simp only [Bool.false_eq_true, if_true, if_false] <;> omega
    rw [heven]
    -- A sign in front of everything changes no distance.
    cases negative with
    | false =>
      simp only [Bool.false_eq_true, if_false, one_mul]
      exact Ratio.places_nearest hn hk exponent
    | true =>
      have hk' : |(-k)| < 2 ^ 53 := by rwa [abs_neg]
      have hmirror (a b : ℚ) : |-a - b| = |a - -b| := by rw [← abs_neg, neg_sub, sub_neg_eq_add,
        sub_neg_eq_add, add_comm]
      have hnearest := Ratio.places_nearest hn hk' exponent
      push_cast at hnearest
      simp only [if_true, neg_mul, one_mul, hmirror, neg_neg] at hnearest ⊢
      exact ⟨hnearest.1, fun heq => (hnearest.2 heq).imp_left fun h => by rw [h, neg_neg]⟩

end Haml.Decimal
