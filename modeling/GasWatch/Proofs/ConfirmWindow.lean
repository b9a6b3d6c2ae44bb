import GasWatch.Config
import Mathlib.Order.Bounds.Defs

/-!
# The count that covers a confirmation window

A count of samples covers a window when it takes at least as long as the window to make them
(`Config.Covers`).  `samplesCovering_le_iff` says of every count whether it is at least the one that
`samplesCovering` gives, and all else is read off from there: the count is the least one, at least
one, that covers the window, as long as there is one that a word holds
(`samplesCovering_isLeast`); it grows with the window and shrinks with the interval.

The count is computed in a double word and narrowed to a word at the end.  `samplesCoveringByStep`
makes the same steps in words of these widths and gives up when a result does not fit, and
`samplesCoveringByStep_eq` says that it never does.
-/

namespace GasWatch

/-! ## Steps in a double word -/

namespace DoubleWord

/-- The product, if a double word holds it. -/
def product (x y : UInt64) : Option UInt64 :=
  if x.toNat * y.toNat < UInt64.size then some (x * y) else none

/-- The quotient rounded up, if there is a divisor and a double word holds the result: one more than
the quotient when something is left over. -/
def quotientUp (x y : UInt64) : Option UInt64 :=
  if y = 0 then none
  else if x % y = 0 then some (x / y)
  else if (x / y).toNat + 1 < UInt64.size then some (x / y + 1)
  else none

/-- The double word held between two bounds, if they are in order. -/
def held (low high x : UInt64) : Option UInt64 :=
  if high < low then none else some (if x < low then low else if high < x then high else x)

/-- The same number as a word, if a word holds it. -/
def narrowed (x : UInt64) : Option UInt32 :=
  if x.toNat < UInt32.size then some x.toUInt32 else none

theorem product_of_lt {x y : UInt64} (hfits : x.toNat * y.toNat < UInt64.size) :
    ∃ z, product x y = some z ∧ z.toNat = x.toNat * y.toNat :=
  ⟨x * y, if_pos hfits, by rw [UInt64.toNat_mul]; exact Nat.mod_eq_of_lt hfits⟩

/-- A quotient rounded up, from the quotient and what is left over. -/
theorem add_pred_div {y : Nat} (hy : 0 < y) (x : Nat) :
    (x + (y - 1)) / y = if x % y = 0 then x / y else x / y + 1 := by
  have hparts := Nat.div_add_mod x y
  have hrest := Nat.mod_lt x hy
  have hsum : x + (y - 1) = y * (x / y) + (x % y + (y - 1)) := by omega
  rw [hsum, Nat.mul_add_div hy]
  split
  · next hzero =>
    have hnone : (x % y + (y - 1)) / y = 0 := Nat.div_eq_of_lt (by omega)
    rw [hnone, Nat.add_zero]
  · next hsome =>
    have hone : (x % y + (y - 1)) / y = 1 := Nat.div_eq_of_lt_le (by omega) (by omega)
    rw [hone]

theorem quotientUp_of_ne_zero {y : UInt64} (hy : y ≠ 0) (x : UInt64) :
    ∃ q, quotientUp x y = some q ∧ q.toNat = (x.toNat + (y.toNat - 1)) / y.toNat := by
  have hpos : 0 < y.toNat := Nat.pos_of_ne_zero fun hzero => hy (UInt64.toNat_inj.mp hzero)
  unfold quotientUp
  rw [if_neg hy, add_pred_div hpos]
  by_cases hrest : x % y = 0
  · have hzero : x.toNat % y.toNat = 0 := by rw [← UInt64.toNat_mod, hrest]; rfl
    exact ⟨x / y, if_pos hrest, by rw [if_pos hzero, UInt64.toNat_div]⟩
  · have hsome : x.toNat % y.toNat ≠ 0 := fun hzero =>
      hrest (UInt64.toNat_inj.mp (by rw [UInt64.toNat_mod, hzero]; rfl))
    -- Something is left over only of a division by two or more, so the quotient is not large.
    have hone : y.toNat ≠ 1 := fun hone => hsome (by rw [hone, Nat.mod_one])
    have htwo : 2 ≤ y.toNat := by omega
    have hhalf : x.toNat / y.toNat ≤ x.toNat / 2 := Nat.div_le_div_left htwo (by decide)
    have hword := x.toNat_lt
    have hfits : (x / y).toNat + 1 < UInt64.size := by
      rw [UInt64.toNat_div, UInt64.size]
      omega
    refine ⟨x / y + 1, by rw [if_neg hrest, if_pos hfits], ?_⟩
    rw [if_neg hsome, UInt64.toNat_add, UInt64.toNat_div]
    rw [UInt64.toNat_div] at hfits
    exact Nat.mod_eq_of_lt hfits

theorem held_of_le {low high : UInt64} (hbounds : low ≤ high) (x : UInt64) :
    ∃ y, held low high x = some y ∧ y.toNat = max low.toNat (min x.toNat high.toNat) := by
  refine ⟨_, if_neg (UInt64.not_lt.mpr hbounds), ?_⟩
  have hbounds := UInt64.le_iff_toNat_le.mp hbounds
  split
  · next hlow =>
    have hlow := UInt64.lt_iff_toNat_lt.mp hlow
    omega
  · next hlow =>
    have hlow := UInt64.le_iff_toNat_le.mp (UInt64.not_lt.mp hlow)
    split
    · next hhigh =>
      have hhigh := UInt64.lt_iff_toNat_lt.mp hhigh
      omega
    · next hhigh =>
      have hhigh := UInt64.le_iff_toNat_le.mp (UInt64.not_lt.mp hhigh)
      omega

theorem narrowed_of_lt {x : UInt64} (hfits : x.toNat < UInt32.size) :
    ∃ w, narrowed x = some w ∧ w.toNat = x.toNat :=
  ⟨x.toUInt32, if_pos hfits, by rw [UInt64.toNat_toUInt32]; exact Nat.mod_eq_of_lt hfits⟩

end DoubleWord

namespace Config

open DoubleWord

/-- The number of samples that span a window, by steps in a double word. -/
def samplesCoveringByStep (windowSecs intervalMs : UInt32) : Option UInt32 :=
  if intervalMs = 0 then some 1
  else do
    let windowMs ← product windowSecs.toUInt64 1000
    let count ← quotientUp windowMs intervalMs.toUInt64
    let bounded ← held 1 0xffffffff count
    narrowed bounded

/-- No step leaves the double word, and the last one leaves a word. -/
theorem samplesCoveringByStep_eq (windowSecs intervalMs : UInt32) :
    samplesCoveringByStep windowSecs intervalMs = some (samplesCovering windowSecs intervalMs) := by
  unfold samplesCoveringByStep samplesCovering
  by_cases hinterval : intervalMs = 0
  · rw [if_pos hinterval, if_pos hinterval]
  · rw [if_neg hinterval, if_neg hinterval]
    have hwide : intervalMs.toUInt64 ≠ 0 := by
      intro hzero
      have hzero := congrArg UInt64.toNat hzero
      rw [UInt32.toNat_toUInt64] at hzero
      exact hinterval (UInt32.toNat_inj.mp hzero)
    have hsecs := windowSecs.toNat_lt
    have hthousand : (1000 : UInt64).toNat = 1000 := rfl
    obtain ⟨windowMs, hproduct, hwindowMs⟩ :
        ∃ ms, product windowSecs.toUInt64 1000 = some ms ∧ ms.toNat = windowSecs.toNat * 1000 := by
      have hfits : windowSecs.toUInt64.toNat * (1000 : UInt64).toNat < UInt64.size := by
        rw [UInt32.toNat_toUInt64, hthousand, UInt64.size]
        omega
      simpa only [UInt32.toNat_toUInt64, hthousand] using product_of_lt hfits
    obtain ⟨count, hquotient, hcount⟩ := quotientUp_of_ne_zero hwide windowMs
    obtain ⟨bounded, hheld, hbounded⟩ :=
      held_of_le (show (1 : UInt64) ≤ 0xffffffff by decide) count
    have hends : (1 : UInt64).toNat = 1 ∧ (0xffffffff : UInt64).toNat = 0xffffffff := ⟨rfl, rfl⟩
    rw [hends.1, hends.2] at hbounded
    obtain ⟨w, hnarrowed, hw⟩ := narrowed_of_lt (x := bounded) (by rw [UInt32.size]; omega)
    simp only [hproduct, hquotient, hheld, hnarrowed, Option.bind_eq_bind, Option.bind_some]
    rw [hwindowMs, UInt32.toNat_toUInt64] at hcount
    congr 1
    apply UInt32.toNat_inj.mp
    rw [hw, hbounded, hcount, toNat_saturate]
    omega

/-! ## Covering -/

/-- That many samples, one every `intervalMs`, take at least as long as the window. -/
def Covers (windowSecs intervalMs : UInt32) (count : Nat) : Prop :=
  windowSecs.toNat * 1000 ≤ count * intervalMs.toNat

instance (windowSecs intervalMs : UInt32) (count : Nat) :
    Decidable (Covers windowSecs intervalMs count) :=
  inferInstanceAs (Decidable (_ ≤ _))

section Covering

variable {windowSecs wider intervalMs longer : UInt32} {count more : Nat}

theorem Covers.of_le (h : Covers windowSecs intervalMs count) (hle : count ≤ more) :
    Covers windowSecs intervalMs more :=
  Nat.le_trans h (Nat.mul_le_mul_right _ hle)

theorem Covers.of_wider (h : Covers wider intervalMs count) (hle : windowSecs ≤ wider) :
    Covers windowSecs intervalMs count :=
  Nat.le_trans (Nat.mul_le_mul_right _ (UInt32.le_iff_toNat_le.mp hle)) h

theorem Covers.of_shorter (h : Covers windowSecs intervalMs count) (hle : intervalMs ≤ longer) :
    Covers windowSecs longer count :=
  Nat.le_trans h (Nat.mul_le_mul_left _ (UInt32.le_iff_toNat_le.mp hle))

/-- The counts that are no less than the one given: those of at least one sample that cover the
window, and those that no word exceeds. -/
theorem samplesCovering_le_iff (hinterval : intervalMs ≠ 0) :
    (samplesCovering windowSecs intervalMs).toNat ≤ count ↔
      1 ≤ count ∧ Covers windowSecs intervalMs count ∨ 0xffffffff ≤ count := by
  have hpos : 0 < intervalMs.toNat :=
    Nat.pos_of_ne_zero fun hzero => hinterval (UInt32.toNat_inj.mp hzero)
  have hcovers : (windowSecs.toNat * 1000 + (intervalMs.toNat - 1)) / intervalMs.toNat ≤ count ↔
      Covers windowSecs intervalMs count := by
    rw [Nat.div_le_iff_le_mul_add_pred hpos, Nat.add_le_add_iff_right,
      Nat.mul_comm intervalMs.toNat]
    rfl
  rw [samplesCovering, if_neg hinterval, toNat_saturate, ← hcovers]
  omega

/-- One sample is the least count given. -/
theorem one_le_samplesCovering (hinterval : intervalMs ≠ 0) :
    1 ≤ (samplesCovering windowSecs intervalMs).toNat := by
  rcases (samplesCovering_le_iff hinterval).mp (Nat.le_refl _) with ⟨hone, -⟩ | hgreatest
  · exact hone
  · omega

/-- The count given is the least one that covers the window, if a word holds one that does. -/
theorem samplesCovering_isLeast (hinterval : intervalMs ≠ 0)
    (hfits : ∃ n ≤ 0xffffffff, Covers windowSecs intervalMs n) :
    IsLeast {n | 1 ≤ n ∧ Covers windowSecs intervalMs n}
      (samplesCovering windowSecs intervalMs).toNat := by
  constructor
  · rcases (samplesCovering_le_iff hinterval).mp (Nat.le_refl _) with hmem | hgreatest
    · exact hmem
    · obtain ⟨n, hn, hcovers⟩ := hfits
      exact ⟨one_le_samplesCovering hinterval, hcovers.of_le (by omega)⟩
  · intro n hn
    exact (samplesCovering_le_iff hinterval).mpr (Or.inl hn)

/-- It is the greatest word otherwise. -/
theorem samplesCovering_of_not_fits (hinterval : intervalMs ≠ 0)
    (hfits : ¬ ∃ n ≤ 0xffffffff, Covers windowSecs intervalMs n) :
    samplesCovering windowSecs intervalMs = 0xffffffff := by
  have hword := (samplesCovering windowSecs intervalMs).toNat_lt
  apply UInt32.toNat_inj.mp
  show _ = 0xffffffff
  rcases (samplesCovering_le_iff hinterval).mp (Nat.le_refl _) with ⟨-, hcovers⟩ | hgreatest
  · exact absurd ⟨_, by omega, hcovers⟩ hfits
  · omega

theorem samplesCovering_le_of_wider (hinterval : intervalMs ≠ 0) (hle : windowSecs ≤ wider) :
    samplesCovering windowSecs intervalMs ≤ samplesCovering wider intervalMs := by
  rw [UInt32.le_iff_toNat_le, samplesCovering_le_iff hinterval]
  refine ((samplesCovering_le_iff hinterval).mp (Nat.le_refl _)).imp_left fun h => ?_
  exact ⟨h.1, h.2.of_wider hle⟩

theorem samplesCovering_le_of_shorter (hinterval : intervalMs ≠ 0) (hle : intervalMs ≤ longer) :
    samplesCovering windowSecs longer ≤ samplesCovering windowSecs intervalMs := by
  have hlonger : longer ≠ 0 := by
    rintro rfl
    exact hinterval (UInt32.le_zero_iff.mp hle)
  rw [UInt32.le_iff_toNat_le, samplesCovering_le_iff hlonger]
  refine ((samplesCovering_le_iff hinterval).mp (Nat.le_refl _)).imp_left fun h => ?_
  exact ⟨h.1, h.2.of_shorter hle⟩

end Covering

/-- The configuration for a window can be armed. -/
theorem valid_ofConfirmWindow (windowSecs : UInt32) : (ofConfirmWindow windowSecs).Valid := by
  refine { valid_standard with confirms := fun hzero => ?_ }
  have hone : 1 ≤ (samplesCovering windowSecs standard.sampleIntervalMs).toNat :=
    one_le_samplesCovering (by decide)
  rw [show samplesCovering windowSecs standard.sampleIntervalMs = 0 from hzero] at hone
  exact absurd hone (by decide)

/-- The count for a window is the least one that covers it, at least one and at most the greatest
word, and it is had without a step that leaves its word.  It grows with the window and shrinks with
the interval.  The configuration for a window has the count for its own interval and can be
armed. -/
theorem confirmCount_covers_window (windowSecs intervalMs : UInt32) (hinterval : intervalMs ≠ 0) :
    ((∃ n ≤ 0xffffffff, Covers windowSecs intervalMs n) →
        IsLeast {n | 1 ≤ n ∧ Covers windowSecs intervalMs n}
          (samplesCovering windowSecs intervalMs).toNat) ∧
      ((¬ ∃ n ≤ 0xffffffff, Covers windowSecs intervalMs n) →
        samplesCovering windowSecs intervalMs = 0xffffffff) ∧
      samplesCoveringByStep windowSecs intervalMs =
        some (samplesCovering windowSecs intervalMs) ∧
      (∀ wider, windowSecs ≤ wider →
        samplesCovering windowSecs intervalMs ≤ samplesCovering wider intervalMs) ∧
      (∀ longer, intervalMs ≤ longer →
        samplesCovering windowSecs longer ≤ samplesCovering windowSecs intervalMs) ∧
      (ofConfirmWindow windowSecs).confirmCount =
        samplesCovering windowSecs (ofConfirmWindow windowSecs).sampleIntervalMs ∧
      (ofConfirmWindow windowSecs).sampleIntervalMs ≠ 0 ∧
      (ofConfirmWindow windowSecs).validate = .ok () := by
  refine ⟨samplesCovering_isLeast hinterval, samplesCovering_of_not_fits hinterval,
    samplesCoveringByStep_eq windowSecs intervalMs,
    fun _ hle => samplesCovering_le_of_wider hinterval hle,
    fun _ hle => samplesCovering_le_of_shorter hinterval hle, rfl, ?_, ?_⟩
  · exact (valid_ofConfirmWindow windowSecs).pauses
  · exact validate_eq_ok_iff.mpr (valid_ofConfirmWindow windowSecs)

/-- The longest window takes the greatest word of samples when they are a second apart.  When they
are a millisecond closer no word holds enough of them. -/
theorem confirmCount_covers_longest_window :
    (1000 : UInt32) ≠ 0 ∧ (∃ n ≤ 0xffffffff, Covers 0xffffffff 1000 n) ∧
      IsLeast {n | 1 ≤ n ∧ Covers 0xffffffff 1000 n} 0xffffffff ∧
      (999 : UInt32) ≠ 0 ∧ (¬ ∃ n ≤ 0xffffffff, Covers 0xffffffff 999 n) ∧
      samplesCovering 0xffffffff 999 = 0xffffffff ∧
      samplesCovering 0xffffffff 1000 ≤ samplesCovering 0xffffffff 999 ∧
      (ofConfirmWindow 0xffffffff).validate = .ok () := by
  have hfits : ∃ n ≤ 0xffffffff, Covers 0xffffffff 1000 n := ⟨0xffffffff, by decide, by decide⟩
  have hnone : ¬ ∃ n ≤ 0xffffffff, Covers 0xffffffff 999 n := by
    rintro ⟨n, hn, hcovers⟩
    have hshort : 0xffffffff * 1000 ≤ n * 999 := hcovers
    omega
  obtain ⟨hleast, -, -, -, -, -, -, hvalid⟩ :=
    confirmCount_covers_window 0xffffffff 1000 (by decide)
  obtain ⟨-, hgreatest, -, -, hshrinks, -⟩ := confirmCount_covers_window 0xffffffff 999 (by decide)
  exact ⟨by decide, hfits, hleast hfits, by decide, hnone, hgreatest hnone,
    hshrinks 1000 (by decide), hvalid⟩

end Config

end GasWatch
