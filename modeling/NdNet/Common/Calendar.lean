import Mathlib.Algebra.Ring.Int.Defs
import Mathlib.Algebra.Ring.Nat
import Mathlib.Data.Int.Basic

/-!
# Local days and weeks

The functions of `nd_time.c` that count days, weeks and seconds in local time.
Each of them adds the zone, divides and takes the zone off again on its own.
-/

namespace NdNet.Calendar

/-- A `time_t`, or an `NDINT64` -/
def timeT (value : Int) : Int :=
  value.bmod (2 ^ 64)

/-- An `int` -/
def int (value : Int) : Int :=
  value.bmod (2 ^ 32)

/-- `gmtime_r`, as far as it gives `tm_wday`.  The epoch was a Thursday. -/
structure Gmtime where
  tmWday : Int → Int
  proleptic : ∀ time, tmWday time = (time / 86400 + 4) % 7

/-- A zone of whole hours. -/
structure Zone where
  hours : Int
  west : -12 ≤ hours
  east : hours ≤ 14

def secondOffsetFromday (timest tmZone : Int) : Int :=
  int ((timeT (timest + tmZone * 3600)).tmod (3600 * 24))

def dayIndex (timest tmZone : Int) : Int :=
  int ((timeT (timest + tmZone * 3600)).tdiv (3600 * 24))

def dayIntervalEx (endTm startTm tmZone : Int) : Int :=
  let start := int ((timeT (startTm + tmZone * 3600)).tdiv (3600 * 24))
  let last := int ((timeT (endTm + tmZone * 3600)).tdiv (3600 * 24))
  int (last - start)

def weekIndex (now tmZone : Int) : Int :=
  let tm64 := timeT (timeT (now + tmZone * 3600) - 3600 * 24 * 3)
  int ((if tm64 < 0 then 0 else tm64).tdiv (3600 * 24 * 7))

/-- `nd_time_from_offset`; `zone` is the answer of `nd_time_zone`. -/
def fromOffset (zone secondIndexOfDay now tmZone : Int) : Int :=
  let tmZone := if tmZone = 0xff then zone else tmZone
  let now := timeT (now + tmZone * 3600)
  let now := timeT (now.tdiv (3600 * 24) * (3600 * 24))
  timeT (now + (secondIndexOfDay - tmZone * 3600))

def fromWeek (gmtime : Gmtime) (zone weekDay secondIndexOfDay curTime
    tmZone : Int) : Int :=
  let stamp := timeT (curTime + tmZone * 3600)
  let stamp := timeT (stamp - stamp.tmod (3600 * 24))
  let curTime := timeT (curTime + (weekDay - gmtime.tmWday stamp) * 24 * 3600)
  fromOffset zone secondIndexOfDay curTime tmZone

def Zone.clock (z : Zone) (time : Int) : Int :=
  time + z.hours * 3600

def Zone.Midnight (z : Zone) (time : Int) : Prop :=
  z.clock time % 86400 = 0

def Zone.weekday (z : Zone) (gmtime : Gmtime) (time : Int) : Int :=
  gmtime.tmWday (z.clock time)

/-- The functions agree with each other for the times that are asked about:
those of `whole` in `nd_time_from_week`, of `times` in `nd_time_from_offset`,
and of `days` and `weeks` in the functions that count these. -/
structure Agrees (gmtime : Gmtime) (zone : Int) (z : Zone)
    (whole times days weeks : Int → Prop) : Prop where
  fromWeek : ∀ time weekDay second, whole time → 0 ≤ weekDay → weekDay ≤ 6 →
    0 ≤ second → second ≤ 86399 →
      let found := fromWeek gmtime zone weekDay second time z.hours
      z.weekday gmtime found = weekDay ∧
        secondOffsetFromday found z.hours = second ∧
        weekIndex found z.hours = weekIndex time z.hours
  fromOffset : ∀ time, times time →
    fromOffset zone (secondOffsetFromday time z.hours) time z.hours = time
  dayMono : ∀ time later, days time → days later → time ≤ later →
    dayIndex time z.hours ≤ dayIndex later z.hours
  dayChanges : ∀ time, days time → days (time + 1) →
    (dayIndex time z.hours ≠ dayIndex (time + 1) z.hours ↔
      z.Midnight (time + 1))
  weekMono : ∀ time later, weeks time → weeks later → time ≤ later →
    weekIndex time z.hours ≤ weekIndex later z.hours
  weekChanges : ∀ time, weeks time → weeks (time + 1) →
    (weekIndex time z.hours ≠ weekIndex (time + 1) z.hours ↔
      z.Midnight (time + 1) ∧ z.weekday gmtime (time + 1) = 0)
  interval : ∀ time other, days time → days other →
    dayIntervalEx other time z.hours =
      dayIndex other z.hours - dayIndex time z.hours

def AfterWeek (time : Int) : Prop :=
  604800 ≤ time ∧ time < 2 ^ 63

namespace Zone

variable (z : Zone)

/-- A `time_t` holds what the clock shows, too. -/
def Told (time : Int) : Prop :=
  AfterWeek time ∧ z.clock time < 2 ^ 63

/-- A `time_t` holds the end of the week, which begins with a Sunday. -/
def WeekTold (time : Int) : Prop :=
  AfterWeek time ∧
    ∀ ends, ends = ((z.clock time - 259200) / 604800 + 1) * 604800 + 259200 →
      ends ≤ 2 ^ 63 ∧ ends - z.hours * 3600 ≤ 2 ^ 63

def DayCounted (time : Int) : Prop :=
  z.Told time ∧ z.clock time / 86400 < 2 ^ 31

def WeekCounted (time : Int) : Prop :=
  z.Told time ∧ (z.clock time - 259200) / 604800 < 2 ^ 31

end Zone

section Answers

theorem timeT_eq {value : Int} (low : -(2 ^ 63) ≤ value)
    (high : value < 2 ^ 63) : timeT value = value :=
  Int.bmod_eq_of_le (by omega) (by omega)

theorem int_eq {value : Int} (low : -(2 ^ 31) ≤ value)
    (high : value < 2 ^ 31) : int value = value :=
  Int.bmod_eq_of_le (by omega) (by omega)

def Zone.Shown (z : Zone) (time : Int) : Prop :=
  0 ≤ z.clock time ∧ z.clock time < 2 ^ 63

variable {z : Zone} {time : Int}

theorem Zone.Shown.stamp (shown : z.Shown time) :
    timeT (time + z.hours * 3600) = z.clock time :=
  timeT_eq (Int.le_trans (by decide) shown.1) shown.2

theorem Zone.Told.shown (told : z.Told time) :
    z.Shown time ∧ 561600 ≤ z.clock time := by
  obtain ⟨⟨late, -⟩, high⟩ := told
  have west := z.west
  have late : 561600 ≤ z.clock time := by
    rw [Zone.clock]
    omega
  exact ⟨⟨by omega, high⟩, late⟩

theorem Zone.Shown.secondOffset (shown : z.Shown time) :
    secondOffsetFromday time z.hours = z.clock time % 86400 := by
  rw [secondOffsetFromday, shown.stamp, Int.tmod_eq_emod_of_nonneg shown.1]
  exact int_eq (by omega) (by omega)

theorem Zone.Shown.dayIndex (shown : z.Shown time) :
    dayIndex time z.hours = int (z.clock time / 86400) := by
  rw [Calendar.dayIndex, shown.stamp, Int.tdiv_eq_ediv_of_nonneg shown.1]
  rfl

theorem Zone.Shown.weekIndex (shown : z.Shown time)
    (late : 259200 ≤ z.clock time) :
    weekIndex time z.hours = int ((z.clock time - 259200) / 604800) := by
  have high := shown.2
  have moved : timeT (z.clock time - 3600 * 24 * 3) = z.clock time - 259200 :=
    timeT_eq (by omega) (by omega)
  rw [Calendar.weekIndex, shown.stamp, moved, if_neg (by omega),
    Int.tdiv_eq_ediv_of_nonneg (by omega)]
  rfl

theorem Zone.DayCounted.dayIndex (counted : z.DayCounted time) :
    dayIndex time z.hours = z.clock time / 86400 ∧
      0 ≤ z.clock time / 86400 := by
  obtain ⟨shown, late⟩ := counted.1.shown
  rw [shown.dayIndex]
  exact ⟨int_eq (by omega) counted.2, by omega⟩

theorem Zone.WeekCounted.weekIndex (counted : z.WeekCounted time) :
    weekIndex time z.hours = (z.clock time - 259200) / 604800 := by
  obtain ⟨shown, late⟩ := counted.1.shown
  rw [shown.weekIndex (by omega)]
  exact int_eq (by omega) counted.2

theorem Zone.Shown.fromOffset (shown : z.Shown time) (zone : Int) {second : Int}
    (nonneg : 0 ≤ second)
    (fits : z.clock time / 86400 * 86400 + second - z.hours * 3600 < 2 ^ 63) :
    z.clock (fromOffset zone second time z.hours) =
      z.clock time / 86400 * 86400 + second := by
  obtain ⟨first, high⟩ := shown
  have east := z.east
  have day : timeT ((z.clock time).tdiv (3600 * 24) * (3600 * 24)) =
      z.clock time / 86400 * 86400 := by
    rw [Int.tdiv_eq_ediv_of_nonneg first]
    exact timeT_eq (by omega) (by omega)
  rw [Calendar.fromOffset, if_neg (by omega), Zone.Shown.stamp ⟨first, high⟩]
  rw [timeT_eq (by omega) (by omega), Zone.clock]
  omega

theorem Zone.WeekTold.fromWeek (told : z.WeekTold time) (gmtime : Gmtime)
    (zone : Int) {weekDay second : Int} (first : 0 ≤ weekDay)
    (last : weekDay ≤ 6) (nonneg : 0 ≤ second) (small : second ≤ 86399) :
    z.clock (fromWeek gmtime zone weekDay second time z.hours) =
      (z.clock time / 86400 + weekDay - (z.clock time / 86400 + 4) % 7) * 86400 +
        second := by
  obtain ⟨after, room⟩ := told
  obtain ⟨ends, behind⟩ := room _ rfl
  have east := z.east
  have shows : z.Told time := ⟨after, by omega⟩
  obtain ⟨shown, late⟩ := shows.shown
  have midnight : timeT (z.clock time - (z.clock time).tmod (3600 * 24)) =
      z.clock time - z.clock time % 86400 := by
    rw [Int.tmod_eq_emod_of_nonneg shown.1]
    exact timeT_eq (by omega) (by omega)
  have weekday : gmtime.tmWday (z.clock time - z.clock time % 86400) =
      (z.clock time / 86400 + 4) % 7 := by
    rw [gmtime.proleptic]
    omega
  have same : z.clock time = time + z.hours * 3600 := rfl
  let moved := time + (weekDay - (z.clock time / 86400 + 4) % 7) * 24 * 3600
  have there : timeT moved = moved := timeT_eq (by omega) (by omega)
  have day : z.clock moved = z.clock time +
      (weekDay - (z.clock time / 86400 + 4) % 7) * 86400 := by
    rw [Zone.clock, same]
    omega
  have movedShown : z.Shown moved := by
    rw [Zone.Shown, day]
    omega
  rw [Calendar.fromWeek, shown.stamp]
  simp only [midnight, weekday]
  rw [there, movedShown.fromOffset zone nonneg (by omega)]
  omega

end Answers

section Law

/-- The functions agree where a `time_t` and an `int` hold what they compute
with. -/
theorem calendar_agrees (gmtime : Gmtime) (zone : Int) (z : Zone) :
    Agrees gmtime zone z z.WeekTold z.Told z.DayCounted z.WeekCounted := by
  constructor
  · intro time weekDay second told first last nonneg small found
    have shows := told.fromWeek gmtime zone first last nonneg small
    obtain ⟨after, room⟩ := told
    obtain ⟨ends, behind⟩ := room _ rfl
    have inTime : z.Told time := ⟨after, by omega⟩
    obtain ⟨shown, late⟩ := inTime.shown
    have foundShown : z.Shown found := by
      rw [Zone.Shown, shows]
      omega
    refine ⟨?_, ?_, ?_⟩
    · rw [Zone.weekday, gmtime.proleptic, shows]
      omega
    · rw [foundShown.secondOffset, shows]
      omega
    · have foundLate : 259200 ≤ z.clock found := by
        rw [shows]
        omega
      rw [foundShown.weekIndex foundLate, shown.weekIndex (by omega), shows]
      congr 1
      omega
  · intro time told
    obtain ⟨shown, late⟩ := told.shown
    have fits := told.1.2
    have same : z.clock time = time + z.hours * 3600 := rfl
    have back := @Zone.Shown.fromOffset z time shown zone
      (z.clock time % 86400) (by omega) (by omega)
    rw [shown.secondOffset]
    rw [Zone.clock] at back
    omega
  · intro time later counted other before
    rw [counted.dayIndex.1, other.dayIndex.1, Zone.clock, Zone.clock]
    omega
  · intro time counted other
    rw [counted.dayIndex.1, other.dayIndex.1, Zone.Midnight, Zone.clock,
      Zone.clock]
    omega
  · intro time later counted other before
    rw [counted.weekIndex, other.weekIndex, Zone.clock, Zone.clock]
    omega
  · intro time counted other
    rw [counted.weekIndex, other.weekIndex, Zone.Midnight, Zone.weekday,
      gmtime.proleptic, Zone.clock, Zone.clock]
    omega
  · intro time other counted counted'
    obtain ⟨index, nonneg⟩ := counted.dayIndex
    obtain ⟨index', nonneg'⟩ := counted'.dayIndex
    have small := counted.2
    have small' := counted'.2
    have difference : dayIntervalEx other time z.hours =
        int (dayIndex other z.hours - dayIndex time z.hours) := rfl
    rw [difference, index, index']
    exact int_eq (by omega) (by omega)

/-- `gmtime_r` and the zone of Greenwich. -/
def gmtimeR : Gmtime :=
  ⟨fun time => (time / 86400 + 4) % 7, fun _ => rfl⟩

def greenwich : Zone :=
  ⟨0, by decide, by decide⟩

/-- When 2^31 days are over, the index of the day becomes negative. -/
theorem lastDay_not_agrees :
    ¬ Agrees gmtimeR 0 greenwich AfterWeek AfterWeek AfterWeek AfterWeek := by
  intro agrees
  have mono := agrees.dayMono (2 ^ 31 * 86400 - 1) (2 ^ 31 * 86400)
    (by constructor <;> decide) (by constructor <;> decide) (by decide)
  exact absurd mono (by decide)

end Law

end NdNet.Calendar
