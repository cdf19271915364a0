import Descent.Binary64.Rounding
import Mathlib

/-!
The double that a decimal number is read as is the nearest one. Of two that are as near it is the
one with an even significand, and from half a unit past the largest double on it is infinite.
-/
namespace Descent.Binary64

variable {num den significand s k : Nat} {place e : Int} {q r x : ℚ} {y : Binary64}

/-- A nearest integer, an even one if there are two. -/
structure RoundsTo (x : ℚ) (k : Nat) : Prop where
  near : |(k : ℚ) - x| ≤ 1 / 2
  tie : |(k : ℚ) - x| = 1 / 2 → k % 2 = 0

theorem roundsTo_down (n : Nat) (hf : 0 ≤ x) (hx : x < 1 / 2) : RoundsTo (n + x) n := by
  have habs : |(n : ℚ) - (n + x)| = x := by rw [sub_add_cancel_left, abs_neg, abs_of_nonneg hf]
  refine ⟨by linarith, fun h => ?_⟩
  linarith

theorem roundsTo_up (n : Nat) (hx : 1 / 2 < x) (hf : x < 1) : RoundsTo (n + x) (n + 1) := by
  have habs : |((n + 1 : ℕ) : ℚ) - (n + x)| = 1 - x := by
    rw [Nat.cast_add_one, add_sub_add_left_eq_sub, abs_of_pos (by linarith)]
  refine ⟨by linarith, fun h => ?_⟩
  linarith

theorem roundsTo_half (n : Nat) : RoundsTo (n + 1 / 2) (n + n % 2) := by
  refine ⟨?_, fun _ => by omega⟩
  rcases Nat.mod_two_eq_zero_or_one n with h | h <;> rw [h] <;> push_cast
  · rw [abs_le]
    constructor <;> linarith
  · rw [abs_le]
    constructor <;> linarith

theorem roundsTo_roundDiv (num : Nat) (hd : 0 < den) :
    RoundsTo ((num : ℚ) / den) (roundDiv num den) := by
  have hden : (0 : ℚ) < den := Nat.cast_pos.mpr hd
  have hx : (num : ℚ) / den = (num / den : ℕ) + ((num % den : ℕ) : ℚ) / den := by
    have hnum : (num : ℚ) = den * (num / den : ℕ) + (num % den : ℕ) := by
      exact_mod_cast (Nat.div_add_mod num den).symm
    field_simp
    linarith
  have hrest : num % den < den := Nat.mod_lt num hd
  rw [hx]
  unfold roundDiv
  dsimp only
  generalize num % den = rest at hrest
  split_ifs with hup htie
  · apply roundsTo_up
    · rw [lt_div_iff₀ hden]
      have : (den : ℚ) < 2 * rest := by exact_mod_cast hup
      linarith
    · rw [div_lt_one hden]
      exact_mod_cast hrest
  · have hhalf : (rest : ℚ) / den = 1 / 2 := by
      rw [div_eq_iff hden.ne']
      have : (2 : ℚ) * rest = den := by exact_mod_cast htie
      linarith
    rw [hhalf]
    exact roundsTo_half _
  · apply roundsTo_down
    · positivity
    · rw [div_lt_iff₀ hden]
      have : (2 : ℚ) * rest < den := by
        exact_mod_cast lt_of_le_of_ne (Nat.not_lt.mp hup) htie
      linarith

/-- Any other integer is at least as far away as one half. -/
theorem RoundsTo.half_le (h : RoundsTo x k) {j : Int} (hj : j ≠ k) : 1 / 2 ≤ |(j : ℚ) - x| := by
  have hdist : (1 : ℚ) ≤ |(j : ℚ) - k| := by
    have : (1 : Int) ≤ |j - k| := Int.one_le_abs (sub_ne_zero.mpr hj)
    exact_mod_cast this
  have htri : |(j : ℚ) - k| ≤ |(j : ℚ) - x| + |(k : ℚ) - x| := by
    rw [abs_sub_comm (k : ℚ) x]
    exact abs_sub_le _ _ _
  have hnear := h.near
  linarith

theorem zpow_of_nonneg {b : Nat} [b.AtLeastTwo] (he : 0 ≤ e) :
    (OfNat.ofNat b : ℚ) ^ e = (Nat.pow (OfNat.ofNat b) e.toNat : ℕ) := by
  conv_lhs => rw [← Int.toNat_of_nonneg he]
  rw [zpow_natCast, ← Nat.cast_ofNat]
  exact (Nat.cast_pow b e.toNat).symm

theorem zpow_of_neg {b : Nat} [b.AtLeastTwo] (he : ¬ 0 ≤ e) :
    (OfNat.ofNat b : ℚ) ^ e = ((Nat.pow (OfNat.ofNat b) (-e).toNat : ℕ) : ℚ)⁻¹ := by
  rw [← zpow_of_nonneg (by omega : 0 ≤ -e), zpow_neg, inv_inv]

/-- The quotient over a power of two, as one of natural numbers. -/
theorem div_zpow (num den : Nat) (e : Int) : (num : ℚ) / den / 2 ^ e =
    if 0 ≤ e then (num : ℚ) / (den * Nat.pow 2 e.toNat : ℕ)
    else ((num * Nat.pow 2 (-e).toNat : ℕ) : ℚ) / den := by
  split_ifs with he
  · rw [zpow_of_nonneg he, div_div, Nat.cast_mul]
  · rw [zpow_of_neg he, div_inv_eq_mul, div_mul_eq_mul_div, Nat.cast_mul]

/-- A quotient is compared with a power of two in natural numbers. -/
theorem reached_iff (num : Nat) (hd : 0 < den) (e : Int) :
    (if 0 ≤ e then den * Nat.pow 2 e.toNat ≤ num else den ≤ num * Nat.pow 2 (-e).toNat) ↔
      (2 : ℚ) ^ e ≤ (num : ℚ) / den := by
  have hden : (0 : ℚ) < den := Nat.cast_pos.mpr hd
  rw [← one_le_div₀ (by positivity : (0 : ℚ) < 2 ^ e), div_zpow]
  split_ifs with h
  · have hpos : 0 < den * Nat.pow 2 e.toNat := Nat.mul_pos hd (Nat.pow_pos Nat.two_pos)
    rw [one_le_div₀ (Nat.cast_pos.mpr hpos), Nat.cast_le]
  · rw [one_le_div₀ hden, Nat.cast_le]

theorem log2_bounds (hn : 0 < num) :
    (2 : ℚ) ^ (Nat.log2 num : Int) ≤ num ∧ (num : ℚ) < 2 ^ ((Nat.log2 num : Int) + 1) := by
  constructor
  · rw [zpow_natCast]
    exact_mod_cast Nat.log2_self_le hn.ne'
  · have h : (num : ℚ) < 2 ^ (Nat.log2 num + 1) := by exact_mod_cast Nat.lt_log2_self
    exact_mod_cast h

/-- Powers of two around the quotient, the lower of which is right above the last place, unless that
is held up by the least exponent. -/
theorem exists_binade (hn : 0 < num) (hd : 0 < den) :
    ∃ b : Int, lastPlace num den = max leastExponent (b - 52) ∧
      (2 : ℚ) ^ b ≤ (num : ℚ) / den ∧ (num : ℚ) / den < 2 ^ (b + 1) := by
  have hden : (0 : ℚ) < den := Nat.cast_pos.mpr hd
  obtain ⟨hnlow, hnhigh⟩ := log2_bounds hn
  obtain ⟨hdlow, hdhigh⟩ := log2_bounds hd
  generalize hg : (Nat.log2 num : Int) - Nat.log2 den = guess
  have hlow : (2 : ℚ) ^ (guess - 1) ≤ (num : ℚ) / den := by
    rw [le_div_iff₀ hden]
    calc (2 : ℚ) ^ (guess - 1) * den
        ≤ 2 ^ (guess - 1) * 2 ^ ((Nat.log2 den : Int) + 1) := by gcongr
      _ = 2 ^ (Nat.log2 num : Int) := by
        rw [← zpow_add₀ two_ne_zero]
        congr 1
        omega
      _ ≤ num := hnlow
  have hhigh : (num : ℚ) / den < 2 ^ (guess + 1) := by
    rw [div_lt_iff₀ hden]
    calc (num : ℚ) < 2 ^ ((Nat.log2 num : Int) + 1) := hnhigh
      _ = 2 ^ (guess + 1) * 2 ^ (Nat.log2 den : Int) := by
        rw [← zpow_add₀ two_ne_zero]
        congr 1
        omega
      _ ≤ 2 ^ (guess + 1) * den := by gcongr
  unfold lastPlace
  dsimp only
  rw [hg]
  by_cases h : (2 : ℚ) ^ guess ≤ (num : ℚ) / den
  · refine ⟨guess, ?_, h, hhigh⟩
    rw [if_pos ((reached_iff num hd guess).mpr h)]
  · refine ⟨guess - 1, ?_, hlow, ?_⟩
    · rw [if_neg (mt (reached_iff num hd guess).mp h)]
    · simpa using not_le.mp h

/-- The bounds of the quotient in units of the last place. -/
theorem lastPlace_bounds (hn : 0 < num) (hd : 0 < den) :
    leastExponent ≤ lastPlace num den ∧
      (num : ℚ) / den < 2 ^ (53 : Nat) * 2 ^ lastPlace num den ∧
      (lastPlace num den = leastExponent ∨
        2 ^ (52 : Nat) * 2 ^ lastPlace num den ≤ (num : ℚ) / den) := by
  obtain ⟨b, hb, hlow, hhigh⟩ := exists_binade hn hd
  rw [hb]
  refine ⟨le_max_left _ _, ?_, ?_⟩
  · calc (num : ℚ) / den < 2 ^ (b + 1) := hhigh
      _ ≤ 2 ^ (53 + max leastExponent (b - 52)) := by
        have := le_max_right leastExponent (b - 52)
        exact zpow_le_zpow_right₀ one_le_two (by omega)
      _ = 2 ^ (53 : Nat) * 2 ^ max leastExponent (b - 52) := by
        rw [zpow_add₀ two_ne_zero]
        rfl
  · rcases max_choice leastExponent (b - 52) with h | h <;> rw [h]
    · exact Or.inl rfl
    · right
      calc (2 : ℚ) ^ (52 : Nat) * 2 ^ (b - 52) = 2 ^ (52 + (b - 52)) := by
            rw [zpow_add₀ two_ne_zero]
            rfl
        _ = 2 ^ b := by
          congr 1
          omega
        _ ≤ (num : ℚ) / den := hlow

/-- The number that a finite double is. -/
def Value.toRat? : Value → Option ℚ
  | .finite negative significand exponent =>
    some ((if negative then -1 else 1) * significand * 2 ^ exponent)
  | .nan | .infinite _ => none

theorem bounds_of_finite {negative : Bool} (h : y.value = .finite negative s e) :
    s < 2 ^ 53 ∧ leastExponent ≤ e := by
  have hfraction : y.bits.toNat % unit < 2 ^ 52 := Nat.mod_lt _ (by decide)
  have hunit : unit = 2 ^ 52 := rfl
  unfold value at h
  dsimp only at h
  split_ifs at h with hspecial hfield
  · cases h
    exact ⟨by omega, le_rfl⟩
  · cases h
    exact ⟨by omega, by omega⟩

/-- A finite double is a multiple of a power of two from the least one on. -/
theorem exists_of_toRat? (h : y.value.toRat? = some r) :
    ∃ (j : Int) (e : Int), r = j * 2 ^ e ∧ |j| < 2 ^ 53 ∧ leastExponent ≤ e := by
  cases hv : y.value with
  | nan | infinite =>
    rw [hv] at h
    cases h
  | finite negative s e =>
    rw [hv] at h
    cases h
    obtain ⟨hs, he⟩ := bounds_of_finite hv
    refine ⟨(if negative then -1 else 1) * s, e, ?_, ?_, he⟩
    · cases negative <;> simp
    · cases negative <;> simp <;> omega

theorem value_ofNat {bits : Nat} (h : bits < 2047 * unit) :
    (⟨UInt64.ofNat bits⟩ : Binary64).value =
      if bits < unit then .finite false bits leastExponent
      else .finite false (unit + bits % unit) ((bits / unit : Nat) - 1 + leastExponent) := by
  have hunit : unit = 4503599627370496 := rfl
  have hbits : (UInt64.ofNat bits).toNat = bits := by
    apply UInt64.toNat_ofNat_of_lt'
    change bits < 18446744073709551616
    omega
  have hsign : (bits / Nat.pow 2 63 == 1) = false := by
    have hzero : bits / Nat.pow 2 63 = 0 := by
      apply Nat.div_eq_of_lt
      change bits < 9223372036854775808
      omega
    rw [hzero]
    rfl
  have hfield : bits / unit < 2047 := Nat.div_lt_of_lt_mul (mul_comm 2047 unit ▸ h)
  have hmod : bits / unit % 2048 = bits / unit := Nat.mod_eq_of_lt (by omega)
  unfold value
  dsimp only
  rw [hbits, hsign, hmod, if_neg hfield.ne]
  by_cases hlt : bits < unit
  · rw [if_pos (Nat.div_eq_of_lt hlt), if_pos hlt, Nat.mod_eq_of_lt hlt]
  · have hpos : 0 < bits / unit := Nat.div_pos (Nat.not_lt.mp hlt) (by decide)
    rw [if_neg hpos.ne', if_neg hlt]

/-- A significand in units of its last place becomes the bits of a double with the same value, and
stays even. -/
theorem value_of_significand (hp : leastExponent ≤ place) (hs : significand ≤ 2 ^ 53)
    (hlow : place = leastExponent ∨ unit ≤ significand) {bits : Nat}
    (hbits : bits = if significand < unit then significand
      else (place - leastExponent).toNat * unit + significand)
    (hlt : bits < infinity.bits.toNat) :
    ∃ s e, (⟨UInt64.ofNat bits⟩ : Binary64).value = .finite false s e ∧
      (s : ℚ) * 2 ^ e = significand * 2 ^ place ∧ (significand % 2 = 0 → s % 2 = 0) := by
  have hunit : unit = 2 ^ 52 := rfl
  have hmax : infinity.bits.toNat = 2047 * unit := rfl
  rw [hmax] at hlt
  have hvalue := value_ofNat hlt
  by_cases hsub : significand < unit
  · rw [if_pos hsub] at hbits
    rw [hbits, if_pos hsub] at hvalue
    have hplace : place = leastExponent := hlow.resolve_right (Nat.not_le.mpr hsub)
    exact ⟨significand, leastExponent, hbits ▸ hvalue, by rw [hplace], id⟩
  · rw [if_neg hsub] at hbits
    generalize hm : (place - leastExponent).toNat = m at hbits
    have hplace : place = m + leastExponent := by omega
    have hge : ¬ bits < unit := by omega
    rw [if_neg hge] at hvalue
    by_cases hcarry : significand = 2 * unit
    · have hsplit : bits = unit * (m + 2) := by
        rw [hbits, hcarry]
        ring
      have hdiv : bits / unit = m + 2 := by rw [hsplit, Nat.mul_div_cancel_left _ (by decide)]
      have hmod : bits % unit = 0 := by rw [hsplit, Nat.mul_mod_right]
      rw [hdiv, hmod] at hvalue
      refine ⟨_, _, hvalue, ?_, fun _ => by decide⟩
      have he : ((m + 2 : ℕ) : Int) - 1 + leastExponent = place + 1 := by
        rw [hplace]
        push_cast
        ring
      rw [he, hcarry, zpow_add_one₀ two_ne_zero]
      push_cast
      ring
    · have hsplit : bits = (significand - unit) + unit * (m + 1) := by
        obtain ⟨d, rfl⟩ := Nat.exists_eq_add_of_le (Nat.not_lt.mp hsub)
        rw [hbits, Nat.add_sub_cancel_left]
        ring
      have hlt : significand - unit < unit := by omega
      have hdiv : bits / unit = m + 1 := by
        rw [hsplit, Nat.add_mul_div_left _ _ (by decide), Nat.div_eq_of_lt hlt, Nat.zero_add]
      have hmod : bits % unit = significand - unit := by
        rw [hsplit, Nat.add_mul_mod_self_left, Nat.mod_eq_of_lt hlt]
      rw [hdiv, hmod, Nat.add_sub_cancel' (Nat.not_lt.mp hsub)] at hvalue
      refine ⟨_, _, hvalue, ?_, id⟩
      rw [hplace]
      push_cast
      rw [add_sub_cancel_right]

/-- Half a unit past the largest double. -/
def overflow : ℚ := 2 ^ 1024 - 2 ^ 970

/-- The double that is nearest to a number that is not negative. Of two that are as near it has the
even significand, and it is infinite for what is too large. -/
inductive IsNearest (q : ℚ) (x : Binary64) : Prop
  | infinite (hv : x.value = .infinite false) (hq : overflow ≤ q)
  | finite {s : Nat} {e : Int} (hv : x.value = .finite false s e) (hq : q < overflow)
      (near : ∀ y r, Value.toRat? (value y) = some r → |s * 2 ^ e - q| ≤ |r - q|)
      (even : ∀ y r, Value.toRat? (value y) = some r → |s * 2 ^ e - q| = |r - q| →
        r ≠ s * 2 ^ e → s % 2 = 0)

/-- Among the multiples of a power of two. -/
theorem RoundsTo.nearest_multiple (h : RoundsTo (q / 2 ^ place) k) (j : Int) :
    |k * 2 ^ place - q| ≤ |j * 2 ^ place - q| ∧
      (|k * 2 ^ place - q| = |j * 2 ^ place - q| → j ≠ k → k % 2 = 0) := by
  have hu : (0 : ℚ) < 2 ^ place := by positivity
  have hscale (a : ℚ) : |a * 2 ^ place - q| = |a - q / 2 ^ place| * 2 ^ place := by
    have ha : a * 2 ^ place - q = (a - q / 2 ^ place) * 2 ^ place := by field_simp
    rw [ha, abs_mul, abs_of_pos hu]
  rw [hscale, hscale]
  by_cases hj : j = k
  · rw [hj]
    exact ⟨le_rfl, fun _ hne => (hne rfl).elim⟩
  · have hnear := h.near
    have hhalf := h.half_le hj
    constructor
    · exact mul_le_mul_of_nonneg_right (hnear.trans hhalf) hu.le
    · intro heq _
      apply h.tie
      have hsame := mul_right_cancel₀ hu.ne' heq
      linarith

/-- No double is nearer than a rounded number of units of the last place, and none is as near if that
number is odd. -/
theorem RoundsTo.nearest (h : RoundsTo (q / 2 ^ place) k)
    (hp : place = leastExponent ∨ 2 ^ 52 * 2 ^ place ≤ q) (hr : y.value.toRat? = some r) :
    |k * 2 ^ place - q| ≤ |r - q| ∧
      (|k * 2 ^ place - q| = |r - q| → r ≠ k * 2 ^ place → k % 2 = 0) := by
  obtain ⟨j, e, rfl, hj, he⟩ := exists_of_toRat? hr
  by_cases hle : place ≤ e
  · have hmultiple : (j : ℚ) * 2 ^ e = (j * 2 ^ (e - place).toNat : Int) * 2 ^ place := by
      have hsplit : e = ((e - place).toNat : Int) + place := by omega
      conv_lhs => rw [hsplit, zpow_add₀ two_ne_zero, zpow_natCast]
      push_cast
      ring
    obtain ⟨hnear, htie⟩ := h.nearest_multiple (j * 2 ^ (e - place).toNat)
    rw [hmultiple]
    refine ⟨hnear, fun heq hne => htie heq fun hk => hne ?_⟩
    rw [hk, Int.cast_natCast]
  · have hlow : (2 : ℚ) ^ 52 * 2 ^ place ≤ q := hp.resolve_left (by omega)
    have hbelow : (j : ℚ) * 2 ^ e < 2 ^ 52 * 2 ^ place := by
      have hj' : (j : ℚ) < 2 ^ 53 := by exact_mod_cast (abs_lt.mp hj).2
      calc (j : ℚ) * 2 ^ e < 2 ^ 53 * 2 ^ e := by gcongr
        _ ≤ 2 ^ 53 * 2 ^ (place - 1) := by
          gcongr
          · norm_num
          · omega
        _ = 2 ^ 52 * 2 ^ place := by
          rw [zpow_sub_one₀ two_ne_zero]
          ring
    have hnear := (h.nearest_multiple (2 ^ 52)).1
    rw [Int.cast_pow, Int.cast_ofNat] at hnear
    have hstrict : |(k : ℚ) * 2 ^ place - q| < |j * 2 ^ e - q| := by
      rw [abs_of_nonpos (by linarith : (2 : ℚ) ^ 52 * 2 ^ place - q ≤ 0)] at hnear
      rw [abs_of_neg (by linarith : (j : ℚ) * 2 ^ e - q < 0)]
      linarith
    exact ⟨hstrict.le, fun heq => absurd heq hstrict.ne⟩

theorem overflow_eq : overflow = (2 ^ 53 - 1 / 2) * 2 ^ (971 : Int) := by
  have hfar : (2 : ℚ) ^ 1024 = 2 ^ 54 * 2 ^ 970 := by rw [← pow_add]
  have hplace : (2 : ℚ) ^ (971 : Int) = 2 * 2 ^ 970 := by
    rw [← pow_succ', show (971 : Int) = (971 : Nat) from rfl, zpow_natCast]
  rw [overflow, hfar, hplace]
  generalize (2 : ℚ) ^ 970 = u
  ring

theorem two_mul_zpow_le {e' : Int} (h : e < e') : (2 : ℚ) * 2 ^ e ≤ 2 ^ e' := by
  rw [← zpow_one_add₀ two_ne_zero]
  exact zpow_le_zpow_right₀ one_le_two (by omega)

/-- The bits stay below those of infinity exactly for what is not too large. -/
theorem RoundsTo.bits_lt_iff (h : RoundsTo (q / 2 ^ place) k) (hk : k ≤ 2 ^ 53)
    (hhigh : q < 2 ^ 53 * 2 ^ place)
    (hlow : place = leastExponent ∨ unit ≤ k ∧ 2 ^ 52 * 2 ^ place ≤ q) :
    (if k < unit then k else (place - leastExponent).toNat * unit + k) < infinity.bits.toNat ↔
      q < overflow := by
  have hmax : infinity.bits.toNat = 2047 * 2 ^ 52 := rfl
  have hunit : unit = 2 ^ 52 := rfl
  have hleast : leastExponent = -1074 := rfl
  have hu : (0 : ℚ) < 2 ^ (971 : Int) := by positivity
  rw [hmax, overflow_eq, hunit]
  rw [hunit] at hlow
  rcases lt_trichotomy place 971 with hlt | heq | hgt
  · apply iff_of_true
    · split_ifs <;> omega
    · have hle := two_mul_zpow_le hlt
      generalize (2 : ℚ) ^ (971 : Int) = u, (2 : ℚ) ^ place = v at *
      linarith
  · subst heq
    obtain ⟨hge, -⟩ := hlow.resolve_left (by decide)
    have hbits : (if k < 2 ^ 52 then k else ((971 : Int) - leastExponent).toNat * 2 ^ 52 + k) <
        2047 * 2 ^ 52 ↔ k < 2 ^ 53 := by
      rw [if_neg (Nat.not_lt.mpr hge)]
      omega
    rw [hbits, ← div_lt_iff₀ hu]
    generalize q / 2 ^ (971 : Int) = x at h
    obtain ⟨hbelow, habove⟩ := abs_le.mp h.near
    constructor
    · intro hlt
      have hmost : (k : ℚ) ≤ (2 ^ 53 - 1 : ℕ) := Nat.cast_le.mpr (by omega)
      by_contra hge
      have htie : |(k : ℚ) - x| = 1 / 2 := by
        rw [abs_of_nonpos (by push_cast at hmost; linarith)]
        push_cast at hmost
        linarith
      have hodd : (2 ^ 53 - 1 : ℕ) ≤ k := by
        have : ((2 ^ 53 - 1 : ℕ) : ℚ) ≤ k := by
          push_cast
          linarith
        exact_mod_cast this
      have heven := h.tie htie
      omega
    · intro hlt
      by_contra hge
      have hleast : ((2 ^ 53 : ℕ) : ℚ) ≤ k := Nat.cast_le.mpr (Nat.not_lt.mp hge)
      push_cast at hleast
      linarith
  · obtain ⟨hge, hq⟩ := hlow.resolve_left (by omega)
    apply iff_of_false
    · rw [if_neg (Nat.not_lt.mpr hge)]
      omega
    · have hle := two_mul_zpow_le hgt
      generalize (2 : ℚ) ^ (971 : Int) = u, (2 : ℚ) ^ place = v at *
      linarith

/-- The quotient of two natural numbers is rounded to the nearest double. -/
theorem isNearest_ofRatio (hn : 0 < num) (hd : 0 < den) :
    IsNearest ((num : ℚ) / den) (ofRatio num den) := by
  obtain ⟨hleast, hhigh, hlow⟩ := lastPlace_bounds hn hd
  unfold ofRatio
  dsimp only
  generalize lastPlace num den = place at *
  generalize hk : (if 0 ≤ place then roundDiv num (den * Nat.pow 2 place.toNat)
    else roundDiv (num * Nat.pow 2 (-place).toNat) den) = k
  have hround : RoundsTo ((num : ℚ) / den / 2 ^ place) k := by
    rw [div_zpow, ← hk]
    split_ifs with h
    · exact roundsTo_roundDiv num (Nat.mul_pos hd (Nat.pow_pos Nat.two_pos))
    · exact roundsTo_roundDiv _ hd
  generalize hq : (num : ℚ) / den = q at *
  have hu : (0 : ℚ) < 2 ^ place := by positivity
  obtain ⟨hbelow, habove⟩ := abs_le.mp hround.near
  have hmost : k ≤ 2 ^ 53 := by
    have hx : q / 2 ^ place < 2 ^ 53 := by rwa [div_lt_iff₀ hu]
    have : (k : ℚ) < (2 ^ 53 + 1 : ℕ) := by
      push_cast
      linarith
    have : k < 2 ^ 53 + 1 := by exact_mod_cast this
    omega
  have hplace : place = leastExponent ∨ unit ≤ k ∧ 2 ^ 52 * 2 ^ place ≤ q := by
    refine hlow.imp_right fun h => ⟨?_, h⟩
    have hx : (2 : ℚ) ^ 52 ≤ q / 2 ^ place := by rwa [le_div_iff₀ hu]
    have : ((2 ^ 52 : ℕ) : ℚ) < (k + 1 : ℕ) := by
      push_cast
      linarith
    have : 2 ^ 52 < k + 1 := by exact_mod_cast this
    change 2 ^ 52 ≤ k
    omega
  have hiff := hround.bits_lt_iff hmost hhigh hplace
  generalize hbits : (if k < unit then k else (place - leastExponent).toNat * unit + k) = bits at *
  by_cases hlt : bits < infinity.bits.toNat
  · rw [if_pos hlt]
    obtain ⟨s, e, hv, hvalue, heven⟩ := value_of_significand hleast hmost
      (hplace.imp_right And.left) hbits.symm hlt
    refine .finite hv (hiff.mp hlt) ?_ ?_
    · intro y r hr
      rw [hvalue]
      exact (hround.nearest hlow hr).1
    · intro y r hr heq hne
      rw [hvalue] at heq hne
      exact heven ((hround.nearest hlow hr).2 heq hne)
  · rw [if_neg hlt]
    exact .infinite rfl (not_lt.mp (mt hiff.mpr hlt))

/-- Up to half of the least double there is, zero is nearest. -/
theorem isNearest_zero (h0 : 0 ≤ q) (hq : q ≤ 2 ^ (leastExponent - 1)) : IsNearest q zero := by
  have hu : (0 : ℚ) < 2 ^ leastExponent := by positivity
  have hhalf : q / 2 ^ leastExponent ≤ 1 / 2 := by
    rw [div_le_iff₀ hu]
    rw [zpow_sub_one₀ two_ne_zero] at hq
    linarith
  have hround : RoundsTo (q / 2 ^ leastExponent) 0 := by
    refine ⟨?_, fun _ => rfl⟩
    rw [Nat.cast_zero, zero_sub, abs_neg, abs_of_nonneg (by positivity)]
    exact hhalf
  have hsmall : q < overflow := by
    have hle : (2 : ℚ) ^ (leastExponent - 1) ≤ 2 ^ (971 : Int) :=
      zpow_le_zpow_right₀ one_le_two (by decide)
    have hpos : (0 : ℚ) < 2 ^ (971 : Int) := by positivity
    rw [overflow_eq]
    generalize (2 : ℚ) ^ (971 : Int) = u at *
    linarith
  refine .finite (s := 0) (e := leastExponent) rfl hsmall ?_ fun _ _ _ _ _ => rfl
  intro y r hr
  exact (hround.nearest (Or.inl rfl) hr).1

theorem overflow_le (h : 310 ≤ e) : overflow ≤ 10 ^ e := by
  have hnat : 2 ^ 1024 ≤ 10 ^ 310 := by decide +kernel
  calc overflow ≤ 2 ^ 1024 := sub_le_self _ (by positivity)
    _ ≤ 10 ^ 310 := by exact_mod_cast hnat
    _ = (10 : ℚ) ^ (310 : Int) := (zpow_natCast 10 310).symm
    _ ≤ 10 ^ e := zpow_le_zpow_right₀ (by norm_num) h

/-- A decimal number with so low an exponent is below half of the least double. -/
theorem mul_zpow_le (hn : 0 < num) (h : e + Nat.log2 num + 325 ≤ 0) :
    (num : ℚ) * 10 ^ e ≤ 2 ^ (leastExponent - 1) := by
  obtain ⟨-, hhigh⟩ := log2_bounds hn
  generalize Nat.log2 num = digits at *
  have hdigits : (10 : ℚ) ^ (-digits : Int) ≤ 2 ^ (-digits : Int) := by
    rw [zpow_neg, zpow_neg, zpow_natCast, zpow_natCast]
    exact inv_anti₀ (by positivity) (pow_le_pow_left₀ zero_le_two (by norm_num) digits)
  have hfar : (10 : ℚ) ^ (-325 : Int) ≤ 2 ^ (-1076 : Int) := by
    have hnat : 2 ^ 1076 ≤ 10 ^ 325 := by decide +kernel
    have hrat : (2 : ℚ) ^ 1076 ≤ 10 ^ 325 := by exact_mod_cast hnat
    exact inv_anti₀ (by positivity) hrat
  calc (num : ℚ) * 10 ^ e
      ≤ 2 ^ ((digits : Int) + 1) * 10 ^ (-digits + -325 : Int) := by
        have hle : (10 : ℚ) ^ e ≤ 10 ^ (-digits + -325 : Int) :=
          zpow_le_zpow_right₀ (by norm_num) (by omega)
        gcongr
    _ = 2 ^ ((digits : Int) + 1) * (10 ^ (-digits : Int) * 10 ^ (-325 : Int)) := by
        rw [← zpow_add₀ (by norm_num)]
    _ ≤ 2 ^ ((digits : Int) + 1) * (2 ^ (-digits : Int) * 2 ^ (-1076 : Int)) := by gcongr
    _ = 2 ^ (leastExponent - 1) := by
        rw [← zpow_add₀ two_ne_zero, ← zpow_add₀ two_ne_zero]
        congr 1
        change (digits : Int) + 1 + (-digits + -1076) = -1074 - 1
        omega

/-- A decimal number is read as the double that is nearest to it. -/
theorem isNearest_ofScientific (mantissa : Nat) (exponent : Int) :
    IsNearest ((mantissa : ℚ) * 10 ^ exponent) (ofScientific mantissa exponent) := by
  unfold ofScientific
  split_ifs with hzero hlarge hsmall hsign
  · rw [hzero, Nat.cast_zero, zero_mul]
    exact isNearest_zero le_rfl (by positivity)
  · have hone : (1 : ℚ) ≤ mantissa := Nat.one_le_cast.mpr (Nat.pos_of_ne_zero hzero)
    have hpos : (0 : ℚ) < 10 ^ exponent := by positivity
    refine .infinite rfl ((overflow_le hlarge).trans ?_)
    exact le_mul_of_one_le_left hpos.le hone
  · exact isNearest_zero (by positivity) (mul_zpow_le (Nat.pos_of_ne_zero hzero) hsmall)
  · have hq : (mantissa : ℚ) * 10 ^ exponent =
        (mantissa * Nat.pow 10 exponent.toNat : ℕ) / (1 : ℕ) := by
      rw [zpow_of_nonneg hsign, Nat.cast_mul, Nat.cast_one, div_one]
    rw [hq]
    exact isNearest_ofRatio (Nat.mul_pos (Nat.pos_of_ne_zero hzero) (Nat.pow_pos (by decide)))
      Nat.one_pos
  · have hq : (mantissa : ℚ) * 10 ^ exponent =
        (mantissa : ℕ) / (Nat.pow 10 (-exponent).toNat : ℕ) := by
      rw [zpow_of_neg hsign, div_eq_mul_inv]
    rw [hq]
    exact isNearest_ofRatio (Nat.pos_of_ne_zero hzero) (Nat.pow_pos (by decide))

/-- Half way between two doubles, the one with the even significand is taken. -/
example : (ofScientific 9007199254740993 0).value = .finite false (2 ^ 52) 1 ∧
    (ofScientific 9007199254740995 0).value = .finite false (2 ^ 52 + 2) 1 := by
  decide +kernel

end Descent.Binary64
