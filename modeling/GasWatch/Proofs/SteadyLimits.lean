import GasWatch.Proofs.Agreement
import GasWatch.Proofs.WakeCondition

/-!
# Runs under steady limits

While the host does no more than stop a run, threshold and confirm count stay what they are at the
start.  What wakes the host is then a matter of the readings alone.

`confirmsAt_of_stretch` says how a row comes about: over some stretch of samples every reading
reaches the threshold, there are enough of them, and the last sample of the stretch is one.  What
failed in between does not matter, and neither does what was before the stretch.
`ConfirmsAt.reaches` is the other direction, as far as it goes for a single sample: a sample that
completes a row has itself reached the threshold.
-/

namespace GasWatch

namespace Schedule

/-- As long as the host does nothing, the words stay as they are at the start. -/
theorem inForce_of_forall_nil {host : Schedule} {delays : Nat}
    (hnil : ∀ delay, 0 < delay → delay ≤ delays → host delay = []) (b : Block) :
    host.inForce b delays = b := by
  induction delays with
  | zero => rfl
  | succ delays ih =>
    rw [inForce, ih fun delay hpos hle => hnil delay hpos (by omega),
      hnil (delays + 1) (by omega) (by omega), Block.apply_nil]

theorem inForce_quiet (b : Block) (delays : Nat) : quiet.inForce b delays = b :=
  inForce_of_forall_nil (fun _ _ _ => rfl) b

end Schedule

section Rows

variable {σ : Type} [Converter σ] {m : Monitor σ} {b : Block} {host : Schedule}
  {first more index : Nat}

/-- Over a stretch of samples whose readings all reach the threshold the row grows by as many
readings as there are. -/
theorem length_sightings_le (more start : Nat)
    (hreaches : ∀ i < more, ∀ s, m.sighting? b host (first + i) = some s → s.Reaches) :
    (m.sightings b host (first + more)).length ≤
      (m.sightings b host first).length + rowAfter start (m.sightings b host (first + more)) := by
  induction more with
  | zero =>
    rw [Nat.add_zero]
    omega
  | succ more ih =>
    have hbefore := ih fun i hlt => hreaches i (by omega)
    rw [← Nat.add_assoc, Monitor.sightings_succ]
    cases hcase : m.sighting? b host (first + more) with
    | none => simpa using hbefore
    | some s =>
      have hs := hreaches more (by omega) s hcase
      rw [Option.toList_some, rowAfter_append_singleton, if_pos hs, List.length_append,
        List.length_singleton]
      omega

/-- A stretch of samples completes a row at its last one if that one succeeds, all readings of the
stretch reach the threshold, and there are enough of them. -/
theorem confirmsAt_of_stretch (hlast : (m.sighting? b host (first + more)).isSome)
    (hreaches : ∀ i ≤ more, ∀ s, m.sighting? b host (first + i) = some s → s.Reaches)
    (hcount : (m.sightings b host first).length +
        max 1 (host.inForce b (first + more)).confirmCount.toNat ≤
      (m.sightings b host (first + more + 1)).length) :
    m.ConfirmsAt b host (first + more) := by
  have hrow := length_sightings_le (more + 1) b.aboveCount.toNat
    fun i hlt => hreaches i (by omega)
  rw [← Nat.add_assoc] at hrow
  unfold Monitor.ConfirmsAt
  simp only [← le_rowAfter_iff]
  exact ⟨hlast, by omega⟩

/-- A sample that completes a row reaches the threshold in force. -/
theorem Monitor.ConfirmsAt.reaches (h : m.ConfirmsAt b host index) :
    ∃ s, m.sighting? b host index = some s ∧ s.Reaches := by
  unfold Monitor.ConfirmsAt at h
  simp only [← le_rowAfter_iff] at h
  obtain ⟨hsome, hneeded⟩ := h
  obtain ⟨s, hs⟩ := Option.isSome_iff_exists.mp hsome
  refine ⟨s, hs, ?_⟩
  by_contra hbelow
  rw [Monitor.sightings_succ, hs, Option.toList_some, rowAfter_append_singleton,
    if_neg hbelow] at hneeded
  omega

end Rows

end GasWatch
