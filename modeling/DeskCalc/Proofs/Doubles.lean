import DeskCalc.Decimal.Binary64
import Mathlib

/-!
# Finite doubles as a sign and a pattern

Core's logical model of doubles unpacks the bits, works on sign, significand and exponent, and packs
the result. Here a finite double is `ofParts` of its sign bit and of the pattern of its magnitude,
and each operation the calculator applies to numbers it prints is what it is on these two parts:
negation flips the sign, `abs` clears it, comparison with zero reads it. `exists_parts` says that no
finite double is left out.
-/

namespace DeskCalc.Binary64

open Float.Model Float.Model.UnpackedFloat

/-! ## Significand and exponent of a pattern -/

/-- A pattern is its significand on top of the steps of all binades below. -/
theorem pattern_eq (p : Nat) : stepExponent p * 2 ^ 52 + significand p = p := by
  unfold stepExponent significand
  split <;> omega

theorem significand_lt (p : Nat) : significand p < 2 ^ 53 := by
  unfold significand
  split <;> omega

theorem le_significand {p : Nat} (he : 0 < stepExponent p) : 2 ^ 52 ≤ significand p := by
  unfold stepExponent at he
  unfold significand
  split <;> omega

theorem significand_pos {p : Nat} (hp : 0 < p) : 0 < significand p := by
  unfold significand
  split <;> omega

/-! ## The fields of the bits -/

theorem toNat_unpackMantissa (b : BitVec 64) :
    (@unpackMantissa Format.binary64 b).toNat = b.toNat % 2 ^ 52 := by
  simp [unpackMantissa]

theorem toNat_unpackExponent (b : BitVec 64) :
    (@unpackExponent Format.binary64 b).toNat = b.toNat / 2 ^ 52 % 2 ^ 11 := by
  simp [unpackExponent, Nat.shiftRight_eq_div_pow]

theorem toNat_unpackSign (b : BitVec 64) :
    (@unpackSign Format.binary64 b).toNat = b.toNat / 2 ^ 63 := by
  have := b.isLt
  simp only [unpackSign, BitVec.toNat_cast, BitVec.extractLsb_toNat, Nat.shiftRight_eq_div_pow]
  omega

theorem toNat_implicit (m : BitVec 52) : (1#1 ++ m).toNat = 2 ^ 52 + m.toNat := by
  have hor := Nat.shiftLeft_add_eq_or_of_lt m.isLt 1
  rw [Nat.shiftLeft_eq, Nat.one_mul] at hor
  exact (BitVec.toNat_append ..).trans hor.symm

/-! ## Packing and unpacking -/

/-- A sign bit as the logical model of doubles writes it. -/
def signOf (negative : Bool) : Sign := if negative then .negative else .positive

/-- The bits of a sign and a pattern. -/
def word (negative : Bool) (p : Nat) : BitVec 64 := BitVec.ofNat 64 (negative.toNat * 2 ^ 63 + p)

/-- The double of a sign and a finite pattern, unpacked. -/
def unpacked (negative : Bool) (p : Nat) : UnpackedFloat :=
  if h : 0 < significand p then .finite (signOf negative) (significand p) (stepExponent p - 1074) h
  else .zero (signOf negative)

theorem toNat_word {p : Nat} (negative : Bool) (hp : p < infinity) :
    (word negative p).toNat = negative.toNat * 2 ^ 63 + p := by
  unfold infinity at hp
  cases negative <;> simp [word] <;> omega

/-- The sign bit of the bits is the sign they were made with. -/
theorem ofBitVec_unpackSign {p : Nat} (negative : Bool) (hp : p < infinity) :
    Sign.ofBitVec (@unpackSign Format.binary64 (word negative p)) = signOf negative := by
  have hs : (@unpackSign Format.binary64 (word negative p)).toNat = negative.toNat := by
    rw [toNat_unpackSign, toNat_word negative hp]
    unfold infinity at hp
    omega
  have heq : @unpackSign Format.binary64 (word negative p) = BitVec.ofBool negative :=
    BitVec.eq_of_toNat_eq (hs.trans (BitVec.toNat_ofBool negative).symm)
  rw [heq]
  cases negative <;> rfl

/-- Unpacking reads off the significand and the exponent of the pattern. -/
theorem unpack_word {p : Nat} (negative : Bool) (hp : p < infinity) :
    UnpackedFloat.unpack Format.binary64 (word negative p) = unpacked negative p := by
  have hm : (@unpackMantissa Format.binary64 (word negative p)).toNat = p % 2 ^ 52 := by
    rw [toNat_unpackMantissa, toNat_word negative hp]
    omega
  have he : (@unpackExponent Format.binary64 (word negative p)).toNat = p / 2 ^ 52 := by
    rw [toNat_unpackExponent, toNat_word negative hp]
    unfold infinity at hp
    omega
  have hbias : ((Format.binary64.exponentBias : Nat) : Int) = 1023 := rfl
  have hinf : ¬ p / 2 ^ 52 = (-1#11 : BitVec 11).toNat := by
    show ¬ p / 2 ^ 52 = 2047
    unfold infinity at hp
    omega
  rw [UnpackedFloat.unpack]
  simp only [ofBitVec_unpackSign negative hp, ← BitVec.toNat_inj, toNat_implicit, he, hm, hbias,
    if_neg hinf, BitVec.toNat_ofNat, Nat.zero_mod, unpacked]
  -- The three kinds of finite patterns: zero, below the first binade, in a binade.
  rcases Nat.eq_zero_or_pos p with rfl | hpos
  · rfl
  · by_cases hsmall : p < 2 ^ 52
    · have hsig : significand p = p := if_pos hsmall
      have hstep : stepExponent p = 0 := by unfold stepExponent; omega
      rw [if_pos (by omega), dif_neg (by omega), dif_pos (by omega)]
      simp only [hsig, hstep, Nat.mod_eq_of_lt hsmall, Nat.div_eq_of_lt hsmall]
      rfl
    · have hsig : significand p = 2 ^ 52 + p % 2 ^ 52 := if_neg hsmall
      have hstep : ((stepExponent p : Nat) : Int) = (p / 2 ^ 52 : Nat) - 1 := by
        unfold stepExponent; omega
      rw [if_neg (by omega), dif_pos (by omega)]
      simp only [hsig, hstep]
      congr 1
      show ((p / 2 ^ 52 : Nat) : Int) - (1023 + 52) = _
      omega

/-- Packing puts them back. -/
theorem pack_unpacked {p : Nat} (negative : Bool) (hp : p < infinity) :
    UnpackedFloat.pack Format.binary64 (unpacked negative p) = word negative p := by
  have hexp : @unpackExponent Format.binary64 (word negative p) ≠ -1#11 := by
    intro h
    have hfield := congrArg BitVec.toNat h
    rw [toNat_unpackExponent, toNat_word negative hp] at hfield
    change (negative.toNat * 2 ^ 63 + p) / 2 ^ 52 % 2 ^ 11 = 2047 at hfield
    unfold infinity at hp
    omega
  rw [← unpack_word negative hp, @pack_unpack Format.binary64 (word negative p) (by decide)]
  exact if_neg fun h => hexp (of_decide_eq_true h).1

/-! ## Doubles from their parts -/

/-- The double of a sign and a finite pattern. -/
def ofParts (negative : Bool) (p : Nat) : Float :=
  .ofModel (Float.Model.pack (unpacked negative p))

section Parts

variable {p : Nat} (negative : Bool)

theorem unpack_ofParts (hp : p < infinity) :
    (ofParts negative p).toModel.unpack = unpacked negative p := by
  show UnpackedFloat.unpack Format.binary64
    (UnpackedFloat.pack Format.binary64 (unpacked negative p)) = _
  rw [pack_unpacked negative hp, unpack_word negative hp]

theorem toNat_toBits_ofParts (hp : p < infinity) :
    (ofParts negative p).toBits.toNat = negative.toNat * 2 ^ 63 + p := by
  show (UnpackedFloat.pack Format.binary64 (unpacked negative p)).toNat = _
  rw [pack_unpacked negative hp, toNat_word negative hp]

theorem signBit_ofParts (hp : p < infinity) : signBit (ofParts negative p) = negative := by
  unfold signBit
  rw [toNat_toBits_ofParts negative hp]
  unfold infinity at hp
  cases negative
  · rw [Bool.toNat_false, Nat.zero_mul, Nat.zero_add]
    exact decide_eq_false (by omega)
  · rw [Bool.toNat_true, Nat.one_mul]
    exact decide_eq_true (Nat.le_add_right ..)

theorem magnitude_ofParts (hp : p < infinity) : magnitude (ofParts negative p) = p := by
  unfold magnitude
  rw [toNat_toBits_ofParts negative hp]
  unfold infinity at hp
  omega

theorem toFloat_eq_ofParts (hp : p < infinity) : toFloat p = ofParts false p := by
  have hword : (UInt64.ofNat p).toBitVec = word false p := by
    apply BitVec.eq_of_toNat_eq
    rw [toNat_word false hp]
    show p % 2 ^ 64 = _
    unfold infinity at hp
    simp
    omega
  show Float.ofModel (Float.Model.pack
    (UnpackedFloat.unpack Format.binary64 (UInt64.ofNat p).toBitVec)) = _
  rw [hword, unpack_word false hp]
  rfl

theorem neg_ofParts (hp : p < infinity) : -ofParts negative p = ofParts (!negative) p := by
  show Float.ofModel (Float.Model.pack (ofParts negative p).toModel.unpack.neg) = _
  rw [unpack_ofParts negative hp, ofParts]
  unfold unpacked
  split <;> cases negative <;> rfl

theorem abs_ofParts (hp : p < infinity) : (ofParts negative p).abs = ofParts false p := by
  show Float.ofModel (Float.Model.pack (ofParts negative p).toModel.unpack.abs) = _
  rw [unpack_ofParts negative hp, ofParts]
  unfold unpacked
  split <;> rfl

theorem isFinite_ofParts (hp : p < infinity) : (ofParts negative p).isFinite = true := by
  show (ofParts negative p).toModel.unpack.isFinite = true
  rw [unpack_ofParts negative hp, unpacked]
  split <;> rfl

theorem isNaN_ofParts (hp : p < infinity) : (ofParts negative p).isNaN = false := by
  show (ofParts negative p).toModel.unpack.isNaN = false
  rw [unpack_ofParts negative hp, unpacked]
  split <;> rfl

theorem isInf_ofParts (hp : p < infinity) : (ofParts negative p).isInf = false := by
  show (ofParts negative p).toModel.unpack.isInf = false
  rw [unpack_ofParts negative hp, unpacked]
  split <;> rfl

theorem zero_eq_ofParts : (0 : Float) = ofParts false 0 := rfl

/-- A double equals zero when its magnitude is zero, whatever its sign. -/
theorem ofParts_beq_zero (hp : p < infinity) : (ofParts negative p == 0) = decide (p = 0) := by
  show (ofParts negative p).toModel.unpack.beq (UnpackedFloat.zero .positive) = _
  rw [unpack_ofParts negative hp]
  rcases Nat.eq_zero_or_pos p with rfl | hpos
  · cases negative <;> rfl
  · rw [unpacked, dif_pos (significand_pos hpos), decide_eq_false (Nat.ne_of_gt hpos)]
    cases negative <;> rfl

/-- A double is below zero when its sign bit is set and its magnitude is not zero. -/
theorem ofParts_lt_zero (hp : p < infinity) :
    ofParts negative p < 0 ↔ negative = true ∧ p ≠ 0 := by
  show decide ((ofParts negative p).toModel.unpack.lt (UnpackedFloat.zero .positive) = true) = true
    ↔ _
  rw [unpack_ofParts negative hp, decide_eq_true_iff]
  rcases Nat.eq_zero_or_pos p with rfl | hpos
  · cases negative <;> simp [unpacked, UnpackedFloat.lt, UnpackedFloat.compare, significand]
  · rw [unpacked, dif_pos (significand_pos hpos)]
    cases negative <;> simp [UnpackedFloat.lt, UnpackedFloat.compare, signOf, Nat.ne_of_gt hpos]

end Parts

/-- From the pattern of infinity on, the exponent field is full and the double is not finite. -/
theorem not_isFinite {x : Float} (h : infinity ≤ magnitude x) : x.isFinite = false := by
  have hexp : @unpackExponent Format.binary64 x.toBits.toBitVec = -1#11 := by
    apply BitVec.eq_of_toNat_eq
    rw [toNat_unpackExponent]
    show x.toBits.toNat / 2 ^ 52 % 2 ^ 11 = 2047
    unfold infinity magnitude at h
    omega
  show (UnpackedFloat.unpack Format.binary64 x.toBits.toBitVec).isFinite = false
  rw [UnpackedFloat.unpack]
  simp only [hexp, if_true]
  split <;> rfl

/-- Every finite double has a sign and a finite pattern. -/
theorem exists_parts {x : Float} (hx : x.isFinite = true) :
    ∃ negative p, p < infinity ∧ x = ofParts negative p := by
  have hp : magnitude x < infinity := by
    refine Nat.lt_of_not_le fun h => ?_
    rw [not_isFinite h] at hx
    contradiction
  refine ⟨signBit x, magnitude x, hp, Float.toBits_inj.1 (UInt64.toNat_inj.1 ?_)⟩
  rw [toNat_toBits_ofParts _ hp]
  have hbound := x.toBits.toNat_lt
  unfold signBit magnitude
  by_cases h : 2 ^ 63 ≤ x.toBits.toNat
  · rw [decide_eq_true h, Bool.toNat_true]
    omega
  · rw [decide_eq_false h, Bool.toNat_false]
    omega

theorem isNaN_of_isFinite {x : Float} (hx : x.isFinite = true) : x.isNaN = false := by
  obtain ⟨negative, p, hp, rfl⟩ := exists_parts hx
  exact isNaN_ofParts negative hp

theorem isFinite_neg {x : Float} (hx : x.isFinite = true) : (-x).isFinite = true := by
  obtain ⟨negative, p, hp, rfl⟩ := exists_parts hx
  rw [neg_ofParts negative hp]
  exact isFinite_ofParts _ hp

/-- A double that is neither NaN nor infinite is finite. -/
theorem isFinite_of_not {x : Float} (hnan : x.isNaN = false) (hinf : x.isInf = false) :
    x.isFinite = true := by
  change x.toModel.unpack.isNaN = false at hnan
  change x.toModel.unpack.isInf = false at hinf
  show x.toModel.unpack.isFinite = true
  cases hx : x.toModel.unpack with
  | notANumber =>
    rw [hx] at hnan
    cases hnan
  | infinity s =>
    rw [hx] at hinf
    cases hinf
  | zero s => rfl
  | finite s m e hm => rfl

/-- Only the two zeros equal zero. -/
theorem beq_zero_iff (x : Float) : (x == 0) = true ↔ x = 0 ∨ x = -0 := by
  constructor
  · intro h
    have hfinite : x.isFinite = true := by
      change x.toModel.unpack.beq (UnpackedFloat.zero .positive) = true at h
      show x.toModel.unpack.isFinite = true
      cases hx : x.toModel.unpack with
      | notANumber =>
        rw [hx] at h
        cases h
      | infinity s =>
        rw [hx] at h
        cases s <;> cases h
      | zero s => rfl
      | finite s m e hm => rfl
    obtain ⟨negative, p, hp, rfl⟩ := exists_parts hfinite
    rw [ofParts_beq_zero negative hp, decide_eq_true_iff] at h
    subst h
    cases negative
    · exact .inl rfl
    · exact .inr rfl
  · rintro (rfl | rfl) <;> rfl

end DeskCalc.Binary64
