import GasWatch.Proofs.LineOrder

/-!
# Concentrations shown on accepted lines

The concentration that a reading shows can be armed as a threshold exactly if it is finite
(`Config.Valid.replaced_iff`).  An accepted configuration does not see to that.  Its line may be
followed beyond the span point, and then the product of the last step can overflow: with a finite
concentration at the span point it does so exactly from `Single.overflow` on
(`isFinite_ppmOf_iff`), and never up to the span point (`isFinite_ppmOf_of_le_span`).  The check
also lets an infinite concentration at the span point pass, and then everything above the zero point
is infinite (`ppmOf_of_infinite_span`).

`shown_concentrations` puts all of this together, and `ppmOf_beyond_span` is an accepted
configuration that shows an infinite concentration.
-/

namespace GasWatch

open Single

namespace Calibration

variable {c : Calibration} {raw : UInt32} {y : Finite}

/-! ## Where the concentration is finite -/

/-- The part of the span that a reading on the scale stands for, rounded. -/
theorem exists_quotient_eq (hline : c.Usable) (hspan : c.span ≤ Board.fullScale)
    (hzero : c.zero < raw) (hraw : raw ≤ Board.fullScale) :
    ∃ q : Finite, (.ofWord (raw - c.zero) / c.range : Single) = .finite q ∧ q.negative = false ∧
      q.magnitude = nearest ((raw - c.zero).toNat / (c.span - c.zero).toNat) := by
  obtain ⟨hone, -, hbits⟩ := counts_bounds hline hspan
  have hscale := counts_on_scale (UInt32.le_of_lt hzero) hraw
  obtain ⟨n, hn, hnsign, hnvalue⟩ := exists_finite_ofWord (by omega : (raw - c.zero).toNat < _)
  obtain ⟨m, hm, hmsign, hmvalue⟩ := exists_finite_ofWord hbits
  have hratio : (0 : Rat) ≤ (raw - c.zero).toNat / (c.span - c.zero).toNat :=
    div_nonneg (Nat.cast_nonneg _) (Nat.cast_nonneg _)
  have hsmall : ((raw - c.zero).toNat : Rat) / (c.span - c.zero).toNat ≤ 8192 := by
    have hmany : ((raw - c.zero).toNat : Rat) ≤ 4095 := by exact_mod_cast hscale
    exact (div_le_self (Nat.cast_nonneg _) hone).trans (by linarith)
  rw [range, hn, hm, div_of_unsigned hnsign hmsign (by rw [hmvalue]; linarith), hnvalue, hmvalue]
  exact round_of_lt false hratio (nearest_lt_of_scale hsmall)

/-- A reading above the zero point shows a finite concentration exactly if the part of the span that
it stands for does not take the concentration at the span point to an overflow. -/
theorem isFinite_ppmOf_iff (hline : c.Usable) (hspan : c.span ≤ Board.fullScale)
    (hspanPpm : c.spanPpm = .finite y) (hzero : c.zero < raw) (hraw : raw ≤ Board.fullScale) :
    (c.ppmOf raw).isFinite ↔
      nearest ((raw - c.zero).toNat / (c.span - c.zero).toNat) * y.value < overflow := by
  obtain ⟨q, hq, hqsign, hqvalue⟩ := exists_quotient_eq hline hspan hzero hraw
  have hysign := Finite.unsigned_of_pos (spanPpm_pos hline hspanPpm)
  rw [(ppmOf_of_measures hline.1 hline.2.2 hzero).1, hq, hspanPpm, mul_of_unsigned hqsign hysign,
    isFinite_round_iff false (mul_nonneg q.magnitude_nonneg y.magnitude_nonneg), hqvalue,
    Finite.value_of_unsigned hysign]

theorem isFinite_ppmOf_of_le_zero (hraw : raw ≤ c.zero) : (c.ppmOf raw).isFinite := by
  rw [ppmOf_of_le_zero hraw, zero_eq]
  rfl

/-- Up to the span point no concentration is greater than the one there. -/
theorem isFinite_ppmOf_of_le_span (hline : c.Usable) (hspan : c.span ≤ Board.fullScale)
    (hspanPpm : c.spanPpm = .finite y) (hraw : raw ≤ c.span) : (c.ppmOf raw).isFinite := by
  by_cases hclean : raw ≤ c.zero
  · exact isFinite_ppmOf_of_le_zero hclean
  · have hzero := UInt32.not_le.mp hclean
    rw [isFinite_ppmOf_iff hline hspan hspanPpm hzero (UInt32.le_trans hraw hspan)]
    obtain ⟨hone, -, -⟩ := counts_bounds hline hspan
    have hy := spanPpm_pos hline hspanPpm
    have hpart : ((raw - c.zero).toNat : Rat) / (c.span - c.zero).toNat ≤ (1 : Nat) := by
      have hcounts := UInt32.le_iff_toNat_le.mp (sub_le_sub (UInt32.le_of_lt hzero) hraw)
      rw [Nat.cast_one, div_le_one₀ (by linarith)]
      exact_mod_cast hcounts
    have hrounded := nearest_le (representable_natCast (by norm_num)) hpart
    calc nearest ((raw - c.zero).toNat / (c.span - c.zero).toNat) * y.value
        ≤ ((1 : Nat) : Rat) * y.value := mul_le_mul_of_nonneg_right hrounded hy.le
      _ = y.magnitude := by
          rw [Nat.cast_one, one_mul, Finite.value_of_unsigned (Finite.unsigned_of_pos hy)]
      _ < overflow := y.magnitude_lt_overflow

/-- With an infinite concentration at the span point every reading above the zero point shows an
infinite one, however small the part of the span that it stands for. -/
theorem ppmOf_of_infinite_span (hline : c.Usable) (hspanPpm : ¬ c.spanPpm.isFinite)
    (hzero : c.zero < raw) : c.ppmOf raw = .infinity false := by
  obtain ⟨hrises, -, hmeasures⟩ := hline
  obtain ⟨q, hq, hqsign, hqpos⟩ := exists_quotient hrises hzero
  rcases pos_cases hmeasures with hinfinite | ⟨y, hy, -⟩
  · rw [(ppmOf_of_measures hrises hmeasures hzero).1, hq, hinfinite,
      mul_infinity_of_pos hqsign hqpos]
  · rw [hy] at hspanPpm
    exact absurd rfl hspanPpm

end Calibration

/-! ## Arming what is shown -/

namespace Config

/-- Of a valid configuration with another threshold the threshold alone is in question. -/
theorem Valid.replaced_iff {c : Config} (hvalid : c.Valid) (ppm : Single) :
    ({ c with thresholdPpm := ppm } : Config).Valid ↔ ppm.isFinite ∧ ¬ ppm < 0 := by
  constructor
  · intro h
    exact ⟨h.finite, h.nonnegative⟩
  · intro ⟨hfinite, hnonnegative⟩
    exact { hvalid with finite := hfinite, nonnegative := hnonnegative }

/-- Under an accepted configuration the concentration of a reading is not negative and not a NaN,
and it is accepted and armed as a threshold exactly if it is finite, as that of clean air is.  If
the concentration at the span point is finite, then so are those of the readings up to the span
point; a greater reading shows a finite one exactly if the part of the span that it stands for,
rounded, times the concentration at the span point is less than what overflows.  If the
concentration at the span point is infinite, then so is that of every reading above the zero
point. -/
theorem shown_concentrations (c : Config) (hvalidate : c.validate = .ok ()) (raw : UInt32)
    (hraw : raw ≤ Board.fullScale) :
    0 ≤ c.calibration.ppmOf raw ∧ c.calibration.ppmOf raw ≠ .nan ∧
      (({ c with thresholdPpm := c.calibration.ppmOf raw } : Config).validate = .ok () ↔
        (c.calibration.ppmOf raw).isFinite) ∧
      (∀ {κ : Type} (manager : Manager κ) (b : Block),
        (manager.arm b { c with thresholdPpm := c.calibration.ppmOf raw }).result = .ok () ↔
          (c.calibration.ppmOf raw).isFinite) ∧
      (raw ≤ c.calibration.zero → (c.calibration.ppmOf raw).isFinite) ∧
      (∀ y : Finite, c.calibration.spanPpm = .finite y →
        (raw ≤ c.calibration.span → (c.calibration.ppmOf raw).isFinite) ∧
          (c.calibration.span < raw →
            ((c.calibration.ppmOf raw).isFinite ↔
              nearest ((raw - c.calibration.zero).toNat /
                (c.calibration.span - c.calibration.zero).toNat) * y.value < overflow))) ∧
      (¬ c.calibration.spanPpm.isFinite → c.calibration.zero < raw →
        c.calibration.ppmOf raw = .infinity false) := by
  have hvalid := validate_eq_ok_iff.mp hvalidate
  have hbound := c.calibration.ppmOf_atLeast_zero raw
  have hreplaced : ({ c with thresholdPpm := c.calibration.ppmOf raw } : Config).Valid ↔
      (c.calibration.ppmOf raw).isFinite := by
    rw [hvalid.replaced_iff, and_iff_left hbound.not_lt_zero]
  refine ⟨hbound.zero_le, hbound.ne_nan, ?_, fun manager b => ?_,
    Calibration.isFinite_ppmOf_of_le_zero, fun y hspanPpm => ⟨?_, ?_⟩,
    Calibration.ppmOf_of_infinite_span hvalid.usable⟩
  · rw [validate_eq_ok_iff]
    exact hreplaced
  · rw [Manager.arm_ok_iff_valid]
    exact hreplaced
  · exact Calibration.isFinite_ppmOf_of_le_span hvalid.usable hvalid.within hspanPpm
  · intro hbeyond
    have hzero := UInt32.lt_trans hvalid.rises hbeyond
    exact Calibration.isFinite_ppmOf_iff hvalid.usable hvalid.within hspanPpm hzero hraw

/-- With `2 ^ 127` ppm at reading 2000 the reading 3799, short of twice the span, shows a
concentration that can be armed, and the reading 3800 shows an infinite one, which cannot. -/
theorem shown_concentrations_at_twice_the_span :
    let y : Finite := ⟨false, 0x800000, 104, by decide⟩
    let c : Config :=
      { standard with calibration := { zero := 200, span := 2000, spanPpm := .finite y } }
    let manager : Manager SimulatedCoprocessor := { control := {}, config := .standard }
    c.validate = .ok () ∧ (3799 : UInt32) ≤ Board.fullScale ∧ (3800 : UInt32) ≤ Board.fullScale ∧
      (manager.arm .fresh { c with thresholdPpm := c.calibration.ppmOf 3799 }).result = .ok () ∧
      ¬ (c.calibration.ppmOf 3800).isFinite ∧
      (manager.arm .fresh { c with thresholdPpm := c.calibration.ppmOf 3800 }).result ≠ .ok () := by
  intro y c manager
  have hvalidate : c.validate = .ok () := by decide +kernel
  have hbelow : (3799 : UInt32) ≤ Board.fullScale := by decide
  have htwice : (3800 : UInt32) ≤ Board.fullScale := by decide
  obtain ⟨-, -, -, harmed, -, hfinite, -⟩ := shown_concentrations c hvalidate 3799 hbelow
  obtain ⟨-, -, -, hrefused, -, hinfinite, -⟩ := shown_concentrations c hvalidate 3800 htwice
  have hshown := ((hfinite y rfl).2 (by decide)).mpr (by decide +kernel)
  have hnot : ¬ (c.calibration.ppmOf 3800).isFinite := fun h =>
    absurd (((hinfinite y rfl).2 (by decide)).mp h) (by decide +kernel)
  exact ⟨hvalidate, hbelow, htwice, (harmed manager .fresh).mpr hshown, hnot,
    fun h => hnot ((hrefused manager .fresh).mp h)⟩

/-- The configuration is accepted, and full scale is a reading, but the concentration that it shows
is infinite, and neither the check nor the arming accepts it as a threshold. -/
theorem ppmOf_beyond_span :
    let c : Config :=
      { standard with
        calibration :=
          { zero := 200, span := 2000, spanPpm := .finite ⟨false, 0x800000, 104, by decide⟩ } }
    let shown : Config := { c with thresholdPpm := c.calibration.ppmOf 4095 }
    let manager : Manager SimulatedCoprocessor := { control := {}, config := .standard }
    c.validate = .ok () ∧ (4095 : UInt32) ≤ Board.fullScale ∧
      c.calibration.ppmOf 4095 = .infinity false ∧
      shown.validate = .error (.thresholdInvalid (.infinity false)) ∧
      (manager.arm .fresh shown).result =
        .error (.rejected (.thresholdInvalid (.infinity false))) := by
  intro c shown manager
  have hrefused : shown.validate = .error (.thresholdInvalid (.infinity false)) := by
    decide +kernel
  refine ⟨by decide +kernel, by decide, by decide +kernel, hrefused, ?_⟩
  rw [Manager.arm_of_error manager .fresh hrefused]

end Config

end GasWatch
