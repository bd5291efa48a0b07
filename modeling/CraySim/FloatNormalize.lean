/-
  Subject:   What `Normalize` makes of a word.

  `CFloat_t::Normalize` of `cray_float.cpp` shifts the fraction up and counts the exponent down. It
  stops at a fraction with its first bit set, or at the least exponent; nothing bounds the number of
  its rounds in the source.

  * `normalizeStep_fields` -- one round,
  * `normalizeLoop_fields` -- the rounds, with the exponent that keeps the value,
  * `normalize_val` -- normalizing keeps the value,
  * `normalizesTo_iff` -- the loop of the source ends, with what `normalize` computes,
  * `normalize_ends` -- **`Normalize` ends, keeps the value, and leaves a word it does not
    change**.
-/
import CraySim.Division
import CraySim.Lib.DoWhile

namespace CraySim

namespace CFloat

/-! ## 1. The rounds -/

section rounds
variable (v : CInt)

theorem toNat_and_expMask : (v &&& expMask).toNat = 2 ^ 48 * (CFloat.mk v).rawExp := by
  have hmask : expMask = WordField.mask 64 15 <<< 48 := by decide
  rw [hmask, WordField.toNat_and_mask_shiftLeft, rawExp_eq]

/-- One step of the loop, as a word built from its parts. -/
theorem normalizeStep_eq (h : 0 < (CFloat.mk v).rawExp) :
    CFloat.mk (normalizeStep v) =
      ofParts (((CFloat.mk v).rawExp - 1 : Nat) - expOfs) (CFloat.mk v).isPositive (v <<< 1) := by
  have hsign : v &&& fractSignMask = if (CFloat.mk v).isPositive then 0 else fractSignMask := by
    rw [and_fractSignMask, isPositive_eq]
    cases v.getLsbD 63 <;> rfl
  have hexp : ((v &&& expMask) - ((1 : CInt) <<< expBitPos)) &&& expMask =
      (BitVec.ofInt 64 (((CFloat.mk v).rawExp - 1 : Nat) - expOfs + expOfs) &&& 0x7fff) <<<
        expBitPos := by
    have hlt := rawExp_lt (CFloat.mk v)
    have hsub : ((v &&& expMask) - ((1 : CInt) <<< expBitPos)).toNat =
        2 ^ 48 * ((CFloat.mk v).rawExp - 1) := by
      rw [BitVec.toNat_sub, toNat_and_expMask,
        show ((1 : CInt) <<< expBitPos).toNat = 2 ^ 48 from rfl]
      omega
    apply BitVec.eq_of_toNat_eq
    rw [toNat_and_expMask, rawExp_eq, hsub, Int.sub_add_cancel, BitVec.ofInt_natCast,
      show (0x7fff : CInt) = WordField.mask 64 15 from rfl, BitVec.toNat_shiftLeft,
      WordField.toNat_and_mask, BitVec.toNat_ofNat, Nat.shiftLeft_eq, expBitPos]
    omega
  rw [normalizeStep, ofParts, hsign, hexp]
  rw [BitVec.or_comm (if (CFloat.mk v).isPositive then (0 : CInt) else fractSignMask)]

theorem normalizeGuard_iff :
    normalizeGuard v = true ↔
      (CFloat.mk v).uFract.toNat < 2 ^ 47 ∧ 0x2000 < (CFloat.mk v).rawExp := by
  have hnorm : (v &&& ((1 : CInt) <<< (fractSize - 1)) == 0) = !(CFloat.mk v).isNormalized := by
    rw [isNormalized, bne, Bool.not_not]
  have hexp : (((v &&& expMask) >>> expBitPos).toNat : Int) > expMin ↔
      0x2000 < (CFloat.mk v).rawExp := by
    rw [rawExp, show expMin = 0x2000 from rfl]
    exact Nat.cast_lt (α := Int) (m := 0x2000)
  rw [normalizeGuard, Bool.and_eq_true, decide_eq_true_eq, hexp, hnorm, Bool.not_eq_true',
    ← Bool.not_eq_true, isNormalized_iff, not_le]

theorem not_normalizeGuard_iff (a : CFloat) :
    normalizeGuard a.value = false ↔ 2 ^ 47 ≤ a.uFract.toNat ∨ a.rawExp ≤ 0x2000 := by
  rw [← Bool.not_eq_true, normalizeGuard_iff, not_and_or, not_lt, not_lt]

/-- **One step of the loop**: half the exponent's power of two, twice the fraction. -/
theorem normalizeStep_fields (h : normalizeGuard v = true) :
    (CFloat.mk (normalizeStep v)).rawExp + 1 = (CFloat.mk v).rawExp ∧
      (CFloat.mk (normalizeStep v)).uFract.toNat = 2 * (CFloat.mk v).uFract.toNat ∧
      (CFloat.mk (normalizeStep v)).isPositive = (CFloat.mk v).isPositive := by
  obtain ⟨hfract, hexp⟩ := (normalizeGuard_iff v).mp h
  have hlt := rawExp_lt (CFloat.mk v)
  rw [normalizeStep_eq v (by omega), rawExp_ofParts _ (by omega), isPositive_ofParts,
    toNat_uFract_ofParts, BitVec.toNat_shiftLeft, Nat.shiftLeft_eq]
  rw [toNat_uFract] at hfract ⊢
  exact ⟨by omega, by dsimp only at hfract ⊢; omega, rfl⟩

/-- **The loop**: after `d` steps it stops, by its guard or for want of steps. -/
theorem normalizeLoop_fields (n : Nat) (h : 0x2000 ≤ (CFloat.mk v).rawExp) :
    ∃ d, d ≤ n ∧ (CFloat.mk (normalizeLoop n v)).rawExp + d = (CFloat.mk v).rawExp ∧
      (CFloat.mk (normalizeLoop n v)).uFract.toNat = 2 ^ d * (CFloat.mk v).uFract.toNat ∧
      (CFloat.mk (normalizeLoop n v)).isPositive = (CFloat.mk v).isPositive ∧
      0x2000 ≤ (CFloat.mk (normalizeLoop n v)).rawExp ∧
      (normalizeGuard (normalizeLoop n v) = true → d = n) := by
  induction n generalizing v with
  | zero => exact ⟨0, le_rfl, rfl, (Nat.one_mul _).symm, rfl, h, fun _ => rfl⟩
  | succ n ih =>
    rw [normalizeLoop]
    by_cases hg : normalizeGuard v
    · obtain ⟨hexp, hfract, hsign⟩ := normalizeStep_fields v hg
      have hmin := ((normalizeGuard_iff v).mp hg).2
      obtain ⟨d, hd, he, hf, hs, hge, hexit⟩ := ih (normalizeStep v) (by omega)
      rw [if_pos hg]
      refine ⟨d + 1, by omega, by omega, ?_, hs.trans hsign, hge, fun h => by rw [hexit h]⟩
      rw [hf, hfract, pow_succ, Nat.mul_assoc]
    · rw [if_neg hg]
      exact ⟨0, by omega, rfl, (Nat.one_mul _).symm, rfl, h, fun h => absurd h hg⟩

/-- 47 steps are enough: the loop stops by its guard. -/
theorem normalizeLoop_exit (h : 0x2000 ≤ (CFloat.mk v).rawExp)
    (hf : 0 < (CFloat.mk v).uFract.toNat) : normalizeGuard (normalizeLoop 47 v) = false := by
  obtain ⟨d, -, -, hfract, -, -, hexit⟩ := normalizeLoop_fields v 47 h
  by_contra hg
  rw [Bool.not_eq_false] at hg
  have hlt := ((normalizeGuard_iff _).mp hg).1
  rw [hfract, hexit hg] at hlt
  omega

end rounds

/-! ## 2. The value -/

variable {a : CFloat}

theorem val_of_uFract (h : a.uFract.toNat = 0) : a.val = 0 := by
  rw [val, mag, h, Nat.cast_zero, zero_mul, mul_zero]

theorem val_zero : (⟨0⟩ : CFloat).val = 0 := val_of_uFract (by decide)

theorem uFract_eq_zero_iff : a.value &&& fractMask = 0 ↔ a.uFract.toNat = 0 :=
  (BitVec.toNat_inj (x := a.uFract) (y := 0)).symm

/-- **A word with a fraction**: some places are taken from the exponent and given to the
    fraction. -/
theorem normalize_fields (h : 0x2000 ≤ a.rawExp) (hf : a.uFract.toNat ≠ 0) :
    ∃ d, a.normalize.rawExp + d = a.rawExp ∧
      a.normalize.uFract.toNat = 2 ^ d * a.uFract.toNat ∧
      a.normalize.isPositive = a.isPositive ∧ 0x2000 ≤ a.normalize.rawExp := by
  obtain ⟨d, -, hexp, hfract, hsign, hge, -⟩ := normalizeLoop_fields a.value 47 h
  rw [normalize, if_neg (uFract_eq_zero_iff.not.mpr hf)]
  exact ⟨d, hexp, hfract, hsign, hge⟩

theorem normalize_of_uFract (h : a.uFract.toNat = 0) : a.normalize = ⟨0⟩ := by
  rw [normalize, if_pos (uFract_eq_zero_iff.mpr h)]

/-- **Normalizing keeps the value.** -/
theorem normalize_val (h : 0x2000 ≤ a.rawExp) : a.normalize.val = a.val := by
  by_cases hf : a.uFract.toNat = 0
  · rw [normalize_of_uFract hf, val_zero, val_of_uFract hf]
  · obtain ⟨d, hexp, hfract, hsign, -⟩ := normalize_fields h hf
    have hscale : (a.normalize.rawExp : ℤ) - 0x4001 - 47 = ((a.rawExp : ℤ) - 0x4001 - 47) - d := by
      omega
    rw [val, val, hsign, mag, mag, hfract, hscale, zpow_sub₀ (by norm_num), zpow_natCast]
    push_cast
    field_simp

/-- What is left is zero or a word with a valid exponent. -/
theorem underflowOrValue_normalize (h : 0x2000 ≤ a.rawExp) :
    a.normalize.underflowOrValue = a.normalize := by
  by_cases hf : a.uFract.toNat = 0
  · rw [normalize_of_uFract hf]
    decide
  · obtain ⟨d, -, -, -, hge⟩ := normalize_fields h hf
    rw [underflowOrValue, if_neg]
    rw [show expMin = 0x2000 from rfl]
    omega

theorem normalize_eq_zero_iff (h : 0x2000 ≤ a.rawExp) :
    a.normalize = ⟨0⟩ ↔ a.uFract.toNat = 0 := by
  refine ⟨fun h0 => ?_, normalize_of_uFract⟩
  by_contra hf
  obtain ⟨d, -, -, -, hge⟩ := normalize_fields h hf
  rw [h0] at hge
  exact absurd hge (by decide)

/-- A word with a fraction that the loop does not take up stays as it is. -/
theorem normalize_of_guard (hg : normalizeGuard a.value = false) (hf : a.uFract.toNat ≠ 0) :
    a.normalize = a := by
  rw [normalize, if_neg (uFract_eq_zero_iff.not.mpr hf), normalizeLoop, hg,
    if_neg Bool.false_ne_true]

theorem normalize_of_isNormalized (h : a.isNormalized = true) : a.normalize = a := by
  have hf := (isNormalized_iff a).mp h
  exact normalize_of_guard ((not_normalizeGuard_iff a).mpr (Or.inl hf)) (by omega)

/-- Below the valid exponents a word with a fraction stays as it is. -/
theorem normalize_of_rawExp (h : a.rawExp < 0x2000) (hf : a.uFract.toNat ≠ 0) : a.normalize = a :=
  normalize_of_guard ((not_normalizeGuard_iff a).mpr (Or.inr (Nat.le_of_lt h))) hf

/-! ## 3. The loop of the source -/

/-- A round, or the end. -/
def normalizeBody (v : CInt) : CInt ⊕ CInt :=
  if normalizeGuard v then .inl (normalizeStep v) else .inr v

/-- `Normalize` with a loop that need not end. -/
def NormalizesTo (a r : CFloat) : Prop :=
  if a.value &&& fractMask = 0 then r = ⟨0⟩ else DoWhile.Ends normalizeBody a.value r.value

/-- **The loop ends**, for every word: the exponent goes down. -/
theorem ends_normalizeBody (v : CInt) : ∃ r, DoWhile.Ends normalizeBody v r := by
  obtain ⟨-, r, -, -, hends⟩ := DoWhile.ends_of_variant normalizeBody (fun _ => True)
    (fun v => (CFloat.mk v).rawExp) (fun s s' _ hbody => by
      rw [normalizeBody] at hbody
      split at hbody
      · next hg =>
        obtain ⟨hexp, -, -⟩ := normalizeStep_fields s hg
        rw [← Sum.inl.inj hbody]
        exact ⟨trivial, by omega⟩
      · cases hbody) (s := v) trivial
  exact ⟨r, hends⟩

/-- Bounded rounds that stop by the guard are the rounds of the loop. -/
theorem ends_normalizeLoop (n : Nat) (v : CInt) (h : normalizeGuard (normalizeLoop n v) = false) :
    DoWhile.Ends normalizeBody v (normalizeLoop n v) := by
  induction n generalizing v with
  | zero =>
    rw [normalizeLoop] at h ⊢
    exact DoWhile.ends_last (by rw [normalizeBody, h, if_neg Bool.false_ne_true])
  | succ n ih =>
    rw [normalizeLoop] at h ⊢
    by_cases hg : normalizeGuard v
    · rw [if_pos hg] at h ⊢
      have hbody : normalizeBody v = .inl (normalizeStep v) := by rw [normalizeBody, if_pos hg]
      exact (DoWhile.ends_iff_next hbody).mpr (ih (normalizeStep v) h)
    · rw [if_neg hg]
      exact DoWhile.ends_last (by rw [normalizeBody, if_neg hg])

/-- Where the loop of `normalize` stops its guard is false. -/
theorem guard_normalizeLoop (hf : a.uFract.toNat ≠ 0) :
    normalizeGuard (normalizeLoop 47 a.value) = false := by
  by_cases hexp : 0x2000 ≤ a.rawExp
  · exact normalizeLoop_exit a.value hexp (Nat.pos_of_ne_zero hf)
  · have hg : normalizeGuard a.value = false := (not_normalizeGuard_iff a).mpr (Or.inr (by omega))
    rw [normalizeLoop, hg, if_neg Bool.false_ne_true, hg]

/-- **What the source computes** is what `normalize` computes. -/
theorem normalizesTo_iff (a r : CFloat) : NormalizesTo a r ↔ r = a.normalize := by
  rw [NormalizesTo]
  by_cases hf : a.value &&& fractMask = 0
  · rw [if_pos hf, normalize, if_pos hf]
  · have hends : DoWhile.Ends normalizeBody a.value (normalizeLoop 47 a.value) :=
      ends_normalizeLoop 47 _ (guard_normalizeLoop (uFract_eq_zero_iff.not.mp hf))
    rw [if_neg hf, normalize, if_neg hf]
    constructor
    · intro h
      obtain ⟨v⟩ := r
      exact congrArg CFloat.mk (h.unique hends)
    · intro h
      rw [h]
      exact hends

/-- The word that is left, and where its exponent is. -/
theorem normalize_left (hf : a.uFract.toNat ≠ 0) :
    a.normalize.uFract.toNat ≠ 0 ∧ normalizeGuard a.normalize.value = false ∧
      min a.rawExp 0x2000 ≤ a.normalize.rawExp ∧ a.normalize.rawExp ≤ a.rawExp := by
  have hguard : normalizeGuard a.normalize.value = false := by
    rw [normalize, if_neg (uFract_eq_zero_iff.not.mpr hf)]
    exact guard_normalizeLoop hf
  by_cases hexp : 0x2000 ≤ a.rawExp
  · obtain ⟨d, hd, hfract, -, hge⟩ := normalize_fields hexp hf
    refine ⟨?_, hguard, by omega, by omega⟩
    rw [hfract]
    exact Nat.mul_ne_zero (Nat.two_pow_pos d).ne' hf
  · rw [normalize_of_rawExp (by omega) hf] at hguard ⊢
    exact ⟨hf, hguard, Nat.min_le_left _ _, le_rfl⟩

theorem normalize_val_all (a : CFloat) : a.normalize.val = a.val := by
  by_cases hexp : 0x2000 ≤ a.rawExp
  · exact normalize_val hexp
  · by_cases hf : a.uFract.toNat = 0
    · rw [normalize_of_uFract hf, val_zero, val_of_uFract hf]
    · rw [normalize_of_rawExp (by omega) hf]

/-- **`Normalize` once more** changes nothing. -/
theorem normalize_normalize (a : CFloat) : a.normalize.normalize = a.normalize := by
  by_cases hf : a.uFract.toNat = 0
  · rw [normalize_of_uFract hf]
    decide
  · obtain ⟨hleft, hguard, -, -⟩ := normalize_left hf
    exact normalize_of_guard hguard hleft

/-- **`Normalize`.** For every word the loop of the source ends, and with the word that `normalize`
    computes. It has the value of the word there was, is left as it is by `Normalize`, and is zero,
    or has the first bit of its fraction set, or its exponent is not above the least one. An
    exponent has not passed the least one on its way, nor gone up. -/
theorem normalize_ends (a : CFloat) :
    (∃ v, DoWhile.Ends normalizeBody a.value v) ∧
      (∀ r, NormalizesTo a r ↔ r = a.normalize) ∧
      a.normalize.val = a.val ∧
      a.normalize.normalize = a.normalize ∧
      (a.normalize = ⟨0⟩ ∨
        (a.normalize.isNormalized = true ∨ (a.normalize.rawExp : Int) ≤ expMin) ∧
          min (a.rawExp : Int) expMin ≤ a.normalize.rawExp ∧ a.normalize.rawExp ≤ a.rawExp) := by
  refine ⟨ends_normalizeBody a.value, normalizesTo_iff a, normalize_val_all a,
    normalize_normalize a, ?_⟩
  have hmin : expMin = 0x2000 := rfl
  by_cases hf : a.uFract.toNat = 0
  · exact Or.inl (normalize_of_uFract hf)
  · obtain ⟨-, hguard, hlow, hhigh⟩ := normalize_left hf
    refine Or.inr ⟨?_, by omega, hhigh⟩
    rcases (not_normalizeGuard_iff _).mp hguard with hfract | hexp
    · exact Or.inl ((isNormalized_iff _).mpr hfract)
    · exact Or.inr (by omega)

end CFloat

end CraySim
