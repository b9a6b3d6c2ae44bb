import GasWatch.Single.Basic

/-!
# Single-precision numbers as words

The interchange form: a sign bit, eight bits of exponent and 23 of fraction.  `ofBits_toBits` says
that a number other than a NaN survives the way through its word.
-/

namespace GasWatch.Single

/-- The number a word encodes. -/
def ofBits (word : UInt32) : Single :=
  let bits := word.toNat
  let negative := decide (0x80000000 ≤ bits)
  let field := bits / 0x800000 % 0x100
  let fraction := bits % 0x800000
  if field = 0xff then
    if fraction = 0 then .infinity negative else .nan
  else if field = 0 then ofParts negative fraction (-149)
  else ofParts negative (0x800000 + fraction) ((field : Int) - 150)

/-- The word that encodes a number; every NaN is written as the positive quiet one. -/
def toBits : Single → UInt32
  | .nan => 0x7fc00000
  | .infinity s => if s then 0xff800000 else 0x7f800000
  | .finite x =>
    let sign := if x.negative then 0x80000000 else 0
    (sign + ((x.exponent + 149).toNat * 0x800000 + x.significand)).toUInt32

/-- The word of a number is read back as that number. -/
theorem ofBits_toBits {x : Single} (hx : x ≠ .nan) : ofBits x.toBits = x := by
  match x with
  | .nan => exact absurd rfl hx
  | .infinity true => rfl
  | .infinity false => rfl
  | .finite ⟨negative, significand, exponent, hcanonical⟩ =>
    obtain ⟨hsignificand, hlow, hhigh, hplace⟩ := id hcanonical
    obtain ⟨step, hstep⟩ : ∃ step : Nat, exponent = (step : Int) - 149 :=
      ⟨(exponent + 149).toNat, by omega⟩
    subst hstep
    have hbits : ((if negative then 0x80000000 else 0) + (step * 0x800000 + significand)) <
        UInt32.size := by
      simp only [UInt32.size]; split <;> omega
    have hread : (toBits (.finite ⟨negative, significand, (step : Int) - 149, hcanonical⟩)).toNat =
        (if negative then 0x80000000 else 0) + (step * 0x800000 + significand) := by
      have hplace : ((step : Int) - 149 + 149).toNat = step := by omega
      simp only [toBits, hplace]
      exact UInt32.toNat_ofNat_of_lt hbits
    have hstep : step < 0xfe := by omega
    have hfraction : ((if negative then 0x80000000 else 0) + (step * 0x800000 + significand)) %
        0x800000 = significand % 0x800000 := by split <;> omega
    have hsign : decide (0x80000000 ≤
        (if negative then 0x80000000 else 0) + (step * 0x800000 + significand)) = negative := by
      cases negative
      · simp; omega
      · simp
    by_cases hsmall : significand < 0x800000
    · have hstep : step = 0 := by omega
      have hfield : ((if negative then 0x80000000 else 0) + (step * 0x800000 + significand)) /
          0x800000 % 0x100 = 0 := by split <;> omega
      subst hstep
      simp only [ofBits, hread, hfield, hfraction, hsign, Nat.mod_eq_of_lt hsmall]
      exact ofParts_of_canonical hcanonical
    · have hfield : ((if negative then 0x80000000 else 0) + (step * 0x800000 + significand)) /
          0x800000 % 0x100 = step + 1 := by split <;> omega
      have hhidden : 0x800000 + significand % 0x800000 = significand := by omega
      have hexponent : ((step + 1 : Nat) : Int) - 150 = (step : Int) - 149 := by omega
      simp only [ofBits, hread, hfield, hfraction, hsign, hhidden, hexponent]
      rw [if_neg (by omega), if_neg (by omega)]
      exact ofParts_of_canonical hcanonical

end GasWatch.Single
