import Mathlib.Tactic

/-!
# Timers and clocks

Instants and durations are numbers of nanoseconds. A timer is set to run for a
fixed duration whenever an alarm is raised, and each alarm replaces the deadline
of the one before it. If alarms are raised at non-decreasing instants, the timer
runs as long as the duration of any of them lasts.

A moment is a reading of two clocks, one that counts from an arbitrary start and
one that shows the time since an epoch. Both advance alike until the first of them
is started again.
-/
namespace Spex.Timers

/-- The nanoseconds of a second. -/
def second : ℕ := 1000000000

def wholeSeconds (duration : ℕ) : ℕ := duration / second

/-- Whether a deadline is still to come. -/
def running (deadline : Option ℕ) (now : ℕ) : Bool := deadline.any fun end_ => now < end_

theorem running_some {end_ now : ℕ} : running (some end_) now = true ↔ now < end_ := by
  simp [running]

theorem running_of_le {deadline : Option ℕ} {now later : ℕ} (hle : now ≤ later)
    (h : running deadline later = true) : running deadline now = true := by
  cases deadline with
  | none => simp [running] at h
  | some end_ =>
    rw [running_some] at h ⊢
    omega

section Alarms
variable {duration now : ℕ} {alarms : List ℕ}

/-- The deadline that the last of some alarms has set. -/
def deadline (duration : ℕ) (alarms : List ℕ) : Option ℕ := alarms.getLast?.map (· + duration)

theorem deadline_append (alarm : ℕ) :
    deadline duration (alarms ++ [alarm]) = some (alarm + duration) := by simp [deadline]

/-- The last alarm has the latest deadline. -/
theorem running_deadline (hsorted : alarms.Pairwise (· ≤ ·)) :
    running (deadline duration alarms) now = true ↔ ∃ alarm ∈ alarms, now < alarm + duration := by
  induction alarms using List.reverseRecOn with
  | nil => simp [running, deadline]
  | append_singleton alarms last _ =>
    have hlast : ∀ alarm ∈ alarms, alarm ≤ last := fun alarm halarm =>
      (List.pairwise_append.mp hsorted).2.2 alarm halarm last (by simp)
    rw [deadline_append]
    rw [running_some]
    constructor
    · exact fun h => ⟨last, by simp, h⟩
    · rintro ⟨alarm, halarm, h⟩
      rcases List.mem_append.mp halarm with hearlier | heq
      · have := hlast alarm hearlier
        omega
      · rwa [List.mem_singleton.mp heq] at h

/-- An alarm does not bring the deadline forward. -/
theorem deadline_le (hpast : ∀ alarm ∈ alarms, alarm ≤ now) {end_ : ℕ}
    (h : deadline duration alarms = some end_) : end_ ≤ now + duration := by
  obtain ⟨alarm, halarm, rfl⟩ := Option.map_eq_some_iff.mp h
  have := hpast alarm (List.mem_of_getLast? halarm)
  omega

end Alarms

/-- A reading of both clocks. -/
structure Moment where
  instant : ℕ
  wall : ℕ

namespace Moment

def unixSeconds (moment : Moment) : ℕ := wholeSeconds moment.wall

/-- A later reading of the same clocks. -/
def Before (moment later : Moment) : Prop :=
  moment.wall ≤ later.wall ∧ moment.wall + later.instant = later.wall + moment.instant

/-- The time that the second clock shows at an instant of the first one. -/
def wallAt (moment : Moment) (instant : ℕ) : ℤ := moment.wall + instant - moment.instant

theorem Before.wallAt_eq {moment later : Moment} (h : moment.Before later) (instant : ℕ) :
    later.wallAt instant = moment.wallAt instant := by
  obtain ⟨-, h⟩ := h
  simp only [wallAt]
  omega

/-- An instant that is not past, in whole seconds of the second clock. Both the reading
and the time that is left are rounded down. -/
def toUnix (moment : Moment) (instant : ℕ) : ℕ :=
  moment.unixSeconds + wholeSeconds (instant - moment.instant)

/-- The instant of a second of the second clock, or the present one if it is past. -/
def ofUnix (moment : Moment) (seconds : ℕ) : ℕ :=
  moment.instant + (seconds - moment.unixSeconds) * second

variable {moment : Moment} {instant seconds : ℕ}

theorem toUnix_of_le (h : instant ≤ moment.instant) :
    moment.toUnix instant = moment.unixSeconds := by
  rw [toUnix, Nat.sub_eq_zero_of_le h]
  simp [wholeSeconds]

/-- Rounding loses less than two seconds. -/
theorem toUnix_bounds (h : moment.instant ≤ instant) :
    (moment.toUnix instant : ℤ) * second ≤ moment.wallAt instant ∧
      moment.wallAt instant < (moment.toUnix instant + 2) * second := by
  simp only [toUnix, unixSeconds, wholeSeconds, wallAt, second]
  push_cast
  omega

theorem ofUnix_of_le (h : seconds ≤ moment.unixSeconds) :
    moment.ofUnix seconds = moment.instant := by
  rw [ofUnix, Nat.sub_eq_zero_of_le h]
  simp

/-- A restored instant lies in the second it is restored from. -/
theorem wallAt_ofUnix (h : moment.unixSeconds < seconds) :
    (seconds : ℤ) * second ≤ moment.wallAt (moment.ofUnix seconds) ∧
      moment.wallAt (moment.ofUnix seconds) < (seconds + 1) * second := by
  simp only [ofUnix, unixSeconds, wholeSeconds, wallAt, second] at *
  push_cast
  omega

/-- An instant in a second is stored as that second or the one before. -/
theorem toUnix_of_second (h : moment.instant ≤ instant)
    (hfirst : (seconds : ℤ) * second ≤ moment.wallAt instant)
    (hlast : moment.wallAt instant < (seconds + 1) * second) :
    moment.toUnix instant = seconds ∨ moment.toUnix instant + 1 = seconds := by
  obtain ⟨hdown, hup⟩ := toUnix_bounds h
  generalize moment.toUnix instant = stored at *
  generalize moment.wallAt instant = wall at *
  simp only [second] at *
  omega

end Moment

end Spex.Timers
