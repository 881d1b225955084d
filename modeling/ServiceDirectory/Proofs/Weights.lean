import ServiceDirectory.Json.Basic
import ServiceDirectory.Proofs.Json.Numerals

/-!
# Weights in documents

A double that is read is finite, so it has a numeral, and the numeral of a double
is one that is read back as it was spelled. Whether it then stands for the same
double is another matter: reading can miss the nearest double by a rounding.
-/

namespace ServiceDirectory

namespace Binary64

/-- The numeral of a double, if it has one, stands for it when it is read. -/
def ReadsBack (x : Binary64) : Prop := ∀ n ∈ x.numeral?, n.double? = some x

instance (x : Binary64) : Decidable x.ReadsBack :=
  inferInstanceAs (Decidable (∀ n ∈ x.numeral?, n.double? = some x))

/-! ## Rounding -/

theorem le_roundHalfEven (num den : Nat) : num / den ≤ roundHalfEven num den := by
  simp only [roundHalfEven]
  split
  · exact Nat.le_refl _
  · split <;> omega

theorem roundHalfEven_le (num den : Nat) : roundHalfEven num den ≤ num / den + 1 := by
  simp only [roundHalfEven]
  split
  · omega
  · split <;> omega

/-- The power of two that is cut off before rounding is at most the quotient. -/
theorem pow_shift_le {q : Nat} (h : q ≠ 0) : Nat.pow 2 (q.log2 - 52) ≤ q :=
  calc
    2 ^ (q.log2 - 52) ≤ 2 ^ q.log2 := Nat.pow_le_pow_right (by decide) (by omega)
    _ ≤ q := Nat.log2_self_le h

theorem nearestUnits_le (num den : Nat) :
    nearestUnits num den ≤ 2 * (num * unitsPerOne / den) + 1 := by
  rw [nearestUnits]
  generalize num * unitsPerOne = scaled
  have hround := roundHalfEven_le scaled (den * Nat.pow 2 ((scaled / den).log2 - 52))
  rw [← Nat.div_div_eq_div_mul] at hround
  generalize hq : scaled / den = q at hround ⊢
  have hbound : Nat.pow 2 (q.log2 - 52) ≤ q + 1 := by
    by_cases h : q = 0
    · subst h
      decide
    · have := pow_shift_le h
      omega
  generalize Nat.pow 2 (q.log2 - 52) = unit at hround hbound ⊢
  calc
    roundHalfEven scaled (den * unit) * unit ≤ (q / unit + 1) * unit :=
      Nat.mul_le_mul_right unit hround
    _ = q / unit * unit + unit := Nat.succ_mul _ _
    _ ≤ q + (q + 1) := Nat.add_le_add (Nat.div_mul_le_self q unit) hbound
    _ = 2 * q + 1 := by omega

theorem le_nearestUnits (num den : Nat) : num * unitsPerOne / den ≤ 2 * nearestUnits num den := by
  rw [nearestUnits]
  generalize num * unitsPerOne = scaled
  have hround := le_roundHalfEven scaled (den * Nat.pow 2 ((scaled / den).log2 - 52))
  rw [← Nat.div_div_eq_div_mul] at hround
  generalize hq : scaled / den = q at hround ⊢
  by_cases h : q = 0
  · omega
  · have hle := pow_shift_le h
    have hpos : 0 < Nat.pow 2 (q.log2 - 52) := Nat.pow_pos (by decide)
    generalize Nat.pow 2 (q.log2 - 52) = unit at hround hle hpos ⊢
    have hone : 1 ≤ q / unit := Nat.div_pos hle hpos
    have hsplit := Nat.div_add_mod q unit
    have hrest := Nat.mod_lt q hpos
    calc
      q ≤ unit * (q / unit) + unit := by omega
      _ ≤ unit * (q / unit) + unit * (q / unit) :=
        Nat.add_le_add_left (Nat.le_mul_of_pos_right unit hone) _
      _ ≤ unit * roundHalfEven scaled (den * unit) + unit * roundHalfEven scaled (den * unit) :=
        Nat.add_le_add (Nat.mul_le_mul_left _ hround) (Nat.mul_le_mul_left _ hround)
      _ = 2 * (roundHalfEven scaled (den * unit) * unit) := by rw [Nat.mul_comm unit]; omega

/-! ## Numerals of doubles -/

theorem readsBack_zero {units : Nat} (h : units ≠ 0) : readsBack units 0 = false := by
  have hzero : ∀ den, nearestUnits 0 den = 0 := by simp [nearestUnits, roundHalfEven]
  rw [readsBack, hzero]
  exact beq_eq_false_iff_ne.mpr (Ne.symm h)

section Grid

-- the test and the amount stay variables, so that nothing tries to compute them
variable {reads : Nat → Bool} {value : Nat}

theorem onGrid?_ne_zero (hzero : reads 0 = false) {grid n : Nat}
    (hn : onGrid? reads value grid = some n) : n ≠ 0 := by
  rw [onGrid?] at hn
  generalize value / grid = below at hn
  cases hlow : reads (below * grid) with
  | false =>
      simp only [hlow, Bool.false_eq_true, if_false] at hn
      split at hn
      · cases hn
        exact Nat.succ_ne_zero below
      · cases hn
  | true =>
      have hne : below ≠ 0 := by
        rintro rfl
        rw [Nat.zero_mul, hzero] at hlow
        cases hlow
      simp only [hlow, if_true] at hn
      grind

theorem firstGrid_ne_zero (hzero : reads 0 = false) {length : Nat}
    (hlength : Nat.pow 10 (length - 1) ≤ value) (fuel : Nat) {count : Nat}
    (hcount : 1 ≤ count) : (firstGrid reads value length fuel count).1 ≠ 0 := by
  induction fuel generalizing count with
  | zero =>
      have hle : Nat.pow 10 (length - count) ≤ value :=
        Nat.le_trans (Nat.pow_le_pow_right (by decide) (by omega)) hlength
      exact Nat.ne_of_gt (Nat.div_pos hle (Nat.pow_pos (by decide)))
  | succ fuel ih =>
      rw [firstGrid]
      split
      · rename_i n hn
        exact onGrid?_ne_zero hzero hn
      · exact ih (by omega)

end Grid

/-- A positive number has no fewer digits than it takes. -/
theorem pow_length_toDigits_le {n : Nat} (h : n ≠ 0) :
    Nat.pow 10 ((Nat.toDigits 10 n).length - 1) ≤ n := by
  by_cases hone : (Nat.toDigits 10 n).length = 1
  · rw [hone]
    exact Nat.pos_of_ne_zero h
  · have hpos := @Nat.length_toDigits_pos 10 n
    have hiff := @Nat.length_toDigits_le_iff 10 n ((Nat.toDigits 10 n).length - 1) (by decide)
      (by omega)
    exact Nat.le_of_not_lt fun hlt => by have := hiff.mpr hlt; omega

/-- Zeros at the end are cut off up to a digit that is none. -/
theorem head?_dropZeros {digits : List Char} (hne : digits ≠ [])
    (hzero : digits.head? ≠ some '0') :
    (digits.reverse.dropWhile (· == '0')).reverse.head? = digits.head? := by
  obtain ⟨c, rest, rfl⟩ := List.exists_cons_of_ne_nil hne
  have hc : (c == '0') = false := beq_eq_false_iff_ne.mpr fun h => hzero (by rw [h]; rfl)
  rw [List.reverse_cons, List.dropWhile_append]
  split
  · simp [hc]
  · simp

theorem fine_ne_zero {units : Nat} (h : units ≠ 0) : fine units ≠ 0 := by
  have hpow : ∀ k, Nat.pow 5 k ≠ 0 := fun k => Nat.ne_of_gt (Nat.pow_pos (by decide))
  exact Nat.mul_ne_zero h (hpow finePower)

/-- Digits of a positive number, the first of them not a zero. -/
structure Digits.Proper (d : Digits) : Prop where
  nonempty : d.digits ≠ []
  head : d.digits.head? ≠ some '0'
  isDigit : ∀ c ∈ d.digits, c.isDigit = true

theorem proper_ofGrid {n : Nat} (hn : n ≠ 0) (power : Nat) : (Digits.ofGrid n power).Proper := by
  have hlead := Numeral.head?_toDigits_ne_zero (Nat.pos_of_ne_zero hn)
  have hhead : (Digits.ofGrid n power).digits.head? = _ :=
    head?_dropZeros Nat.toDigits_ne_nil hlead
  constructor
  · intro hnil
    rw [hnil, List.head?_nil, eq_comm, List.head?_eq_none_iff] at hhead
    exact Nat.toDigits_ne_nil hhead
  · rwa [hhead]
  · intro c hc
    have hmem := (List.dropWhile_suffix _).mem (List.mem_reverse.mp hc)
    exact Numeral.isDigit_of_mem_toDigits (List.mem_reverse.mp hmem)

theorem proper_shortest {units : Nat} (h : units ≠ 0) : (shortest units).Proper := by
  apply proper_ofGrid
  apply firstGrid_ne_zero (readsBack_zero h)
  · exact pow_length_toDigits_le (fine_ne_zero h)
  · exact Nat.le_refl 1

theorem wellFormed_written (negative : Bool) {d : Digits} (h : d.Proper) :
    (written negative d).WellFormed := by
  obtain ⟨digits, point⟩ := d
  obtain ⟨hne, hhead, hdigits⟩ := h
  obtain ⟨c, rest, rfl⟩ := List.exists_cons_of_ne_nil hne
  rw [written]
  split
  · refine ⟨by simp, ?_, ?_, ?_, ?_⟩
    · intro x hx
      exact hdigits x (List.mem_of_mem_take hx)
    · intro hzero
      exact absurd hzero (by simpa using hhead)
    · intro x hx
      exact hdigits x (List.mem_of_mem_drop hx)
    · intro e he
      obtain rfl := Option.some.inj he
      exact ⟨Nat.toDigits_ne_nil, fun x hx => Numeral.isDigit_of_mem_toDigits hx⟩
  · split
    · refine ⟨by simp, by simp, fun _ => rfl, ?_, by simp⟩
      intro x hx
      rcases List.mem_append.mp hx with hx | hx
      · rw [List.eq_of_mem_replicate hx]
        rfl
      · exact hdigits x hx
    · refine ⟨by simp, ?_, ?_, ?_, by simp⟩
      · intro x hx
        rcases List.mem_append.mp hx with hx | hx
        · exact hdigits x (List.mem_of_mem_take hx)
        · rw [List.eq_of_mem_replicate hx]
          rfl
      · intro hzero
        exact absurd hzero (by simpa using hhead)
      · intro x hx
        simp only at hx
        split at hx
        · rw [List.mem_singleton.mp hx]
          rfl
        · exact hdigits x (List.mem_of_mem_drop hx)

theorem wellFormed_numeral? {x : Binary64} {n : Numeral} (h : x.numeral? = some n) :
    n.WellFormed := by
  rw [numeral?] at h
  split at h
  · cases h
  · split at h
    · cases h
      exact ⟨by simp, by simp, fun _ => rfl, by simp, by simp⟩
    · rename_i hunits
      cases h
      exact wellFormed_written _ (proper_shortest hunits)

theorem numeral?_of_isFinite {x : Binary64} (h : x.isFinite = true) :
    ∃ n, x.numeral? = some n := by
  rw [numeral?, h]
  by_cases hunits : x.units = 0
  · exact ⟨_, by rw [if_neg (by decide), if_pos hunits]⟩
  · exact ⟨_, by rw [if_neg (by decide), if_neg hunits]⟩

/-! ## What is read is finite -/

/-- More units than 64 bits come to, and far fewer than infinity has. -/
def safeUnits : Nat := Nat.pow 2 1900

theorem log2_lt_of_safe {units : Nat} (hne : units ≠ 0) (h : units ≤ 16 * safeUnits + 5) :
    units.log2 < 2000 := by
  have hroom : (16 * safeUnits + 5).log2 < 2000 := by decide +kernel
  have hle : 2 ^ units.log2 ≤ 16 * safeUnits + 5 := Nat.le_trans (Nat.log2_self_le hne) h
  exact Nat.lt_of_le_of_lt ((Nat.le_log2 (by omega)).mpr hle) hroom

theorem overflows_eq_false {units : Nat} (h : units ≤ 16 * safeUnits + 5) :
    overflows units = false := by
  rw [overflows, decide_eq_false_iff_not, Nat.not_le, bitsOfUnits]
  split
  · rename_i hsmall
    exact Nat.lt_trans hsmall (by decide)
  · rename_i hlarge
    have hne : units ≠ 0 := by
      rintro rfl
      exact hlarge (by decide)
    have hlog := log2_lt_of_safe hne h
    have hpos : 0 < Nat.pow 2 (units.log2 - 52) := Nat.pow_pos (by decide)
    have hquotient : units / Nat.pow 2 (units.log2 - 52) < 2 ^ 53 := by
      rw [Nat.div_lt_iff_lt_mul hpos]
      calc
        units < 2 ^ (units.log2 + 1) := Nat.lt_log2_self
        _ ≤ 2 ^ (53 + (units.log2 - 52)) := Nat.pow_le_pow_right (by decide) (by omega)
        _ = 2 ^ 53 * 2 ^ (units.log2 - 52) := Nat.pow_add _ _ _
    simp only [leadingBit, infinityBits]
    omega

theorem isFinite_ofUnits {units : Nat} (h : overflows units = false) (negative : Bool) :
    (ofUnits negative units).isFinite = true := by
  rw [overflows, decide_eq_false_iff_not, Nat.not_le] at h
  have hinf : infinityBits < signBit := by decide
  have hsign : 2 * signBit = 2 ^ 64 := rfl
  rw [isFinite, decide_eq_true_iff, magnitudeBits, ofUnits, UInt64.toNat_ofNat']
  cases negative with
  | false =>
      rw [if_neg (by decide), Nat.zero_add, Nat.mod_eq_of_lt (by omega),
        Nat.mod_eq_of_lt (by omega)]
      exact h
  | true =>
      have hfits : signBit + bitsOfUnits units < 2 ^ 64 := by omega
      rw [if_pos rfl, Nat.mod_eq_of_lt hfits, Nat.add_mod_left, Nat.mod_eq_of_lt (by omega)]
      exact h

end Binary64

namespace Numeral

open Binary64

theorem Significand.fits_readWhole {s : Significand} (h : fits s.value = true) (ds : List Char) :
    fits (s.readWhole ds).value = true := by
  induction ds generalizing s with
  | nil => exact h
  | cons c rest ih =>
      simp only [readWhole]
      split
      · rename_i hnext
        exact ih hnext
      · exact h

theorem Significand.fits_readFraction {s : Significand} (h : fits s.value = true)
    (ds : List Char) : fits (s.readFraction ds).value = true := by
  induction ds generalizing s with
  | nil => exact h
  | cons c rest ih =>
      simp only [readFraction]
      split
      · rename_i hnext
        exact ih hnext
      · exact h

theorem fits_significand (n : Numeral) : Significand.fits n.significand.value = true := by
  have hread := Significand.fits_readFraction
    (Significand.fits_readWhole (s := {}) (by decide) n.whole) n.fraction
  rw [significand]
  cases n.exponent <;> exact hread

theorem le_powerUnits (k : Nat) : unitsPerOne ≤ 2 * powerUnits k := by
  have h := le_nearestUnits (Nat.pow 10 k) 1
  rw [Nat.div_one] at h
  exact Nat.le_trans (Nat.le_mul_of_pos_left _ (Nat.pow_pos (by decide))) h

theorem scaleDown_le (units k : Nat) : scaleDown units k ≤ 4 * units + 1 := by
  have h := nearestUnits_le units (powerUnits k)
  have hquotient : units * unitsPerOne / powerUnits k ≤ 2 * units := by
    apply Nat.div_le_of_le_mul
    calc
      units * unitsPerOne ≤ units * (2 * powerUnits k) :=
        Nat.mul_le_mul_left units (le_powerUnits k)
      _ = powerUnits k * (2 * units) := by
        rw [Nat.mul_left_comm, Nat.mul_comm, Nat.mul_assoc, Nat.mul_left_comm, Nat.mul_comm units]
  rw [scaleDown]
  omega

theorem nearestUnits_le_of_fits {value : Nat} (h : Significand.fits value = true) :
    nearestUnits value 1 ≤ safeUnits := by
  have hvalue : value < 2 ^ 64 := of_decide_eq_true h
  have hle := nearestUnits_le value 1
  have hmul := Nat.mul_le_mul_right unitsPerOne (Nat.le_of_lt hvalue)
  rw [Nat.div_one] at hle
  calc
    nearestUnits value 1 ≤ 2 * (2 ^ 64 * unitsPerOne) + 1 := by omega
    _ ≤ safeUnits := by decide +kernel

theorem overflows_of_magnitude? {s : Significand} (hs : Significand.fits s.value = true)
    {units : Nat} (h : magnitude? s = some units) : Binary64.overflows units = false := by
  have hvalue := nearestUnits_le_of_fits hs
  simp only [magnitude?] at h
  generalize nearestUnits s.value 1 = value at h hvalue
  generalize (-s.power).toNat = down at h
  split at h
  · split at h
    · cases h
      decide
    · cases h
  · split at h
    · split at h
      · cases h
      · rename_i hover
        cases h
        exact Bool.eq_false_iff.mpr hover
    · split at h
      · cases h
        have hdown := scaleDown_le value down
        exact overflows_eq_false (by omega)
      · split at h
        · cases h
          have hfirst := scaleDown_le value 308
          have hdown := scaleDown_le (scaleDown value 308) (down - 308)
          exact overflows_eq_false (by omega)
        · cases h
          decide

/-- A double that is read is finite. -/
theorem isFinite_of_double? {n : Numeral} {x : Binary64} (h : n.double? = some x) :
    x.isFinite = true := by
  rw [double?, Option.map_eq_some_iff] at h
  obtain ⟨units, hunits, rfl⟩ := h
  exact isFinite_ofUnits (overflows_of_magnitude? (fits_significand n) hunits) _

end Numeral

end ServiceDirectory
