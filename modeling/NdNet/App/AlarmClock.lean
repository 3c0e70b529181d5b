import Mathlib.Algebra.GroupWithZero.Nat
import NdNet.App.Alarm

/-!
# The periodic functions of an alarm

`tick` calls `UpdateSecond`, `UpdateMinute` and `UpdateHour`.  Seconds and
minutes are counted down separately, and the minutes are looked at only when a
second is full; the two remainders stay those of the time that has passed.  The
hours are told by the number of minutes, of which only 32 bits are kept.
-/

namespace NdNet

open List

inductive ClockCall where
  | updateSecond
  | updateMinute
  | updateHour
  deriving DecidableEq, Repr

variable {Obj Func : Type}

def AlarmHooks.GoesOn (hooks : AlarmHooks Obj Func) : Prop :=
  ∀ alarm, hooks.updateSecond alarm ≠ -1 ∧ hooks.updateMinute alarm ≠ -1

namespace NDAlarm

def secondCalls (hooks : AlarmHooks Obj Func) (alarm : NDAlarm Obj Func) :
    List ClockCall :=
  .updateSecond ::
    if hooks.updateSecond alarm = -1 then []
    else
      let alarm := { alarm with
        tickSec :=
          if 2000 < alarm.tickSec.toNat then 0 else alarm.tickSec - 1000
        secondIndex := alarm.secondIndex + 1 }
      if 1000 * 60 ≤ alarm.tickMinute.toNat then
        .updateMinute ::
          if hooks.updateMinute alarm = -1 then []
          else if (alarm.minuteIndex + 1) % 60 = 0 then [.updateHour]
          else []
      else []

def clockCalls (hooks : AlarmHooks Obj Func) (alarm : NDAlarm Obj Func)
    (tminterval : BitVec 32) : List ClockCall :=
  let alarm := { alarm with
    tminterval := tminterval
    tickMinute := alarm.tickMinute + tminterval
    tickSec := alarm.tickSec + tminterval
    tickIndex := alarm.tickIndex + 1 }
  if 1000 ≤ alarm.tickSec.toNat then secondCalls hooks alarm else []

def runCalls (hooks : AlarmHooks Obj Func) :
    NDAlarm Obj Func → List (BitVec 32) → List ClockCall
  | _, [] => []
  | alarm, tminterval :: intervals =>
    clockCalls hooks alarm tminterval ++
      runCalls hooks (alarm.tick hooks tminterval).1 intervals

def totalTime (intervals : List (BitVec 32)) : Nat :=
  (intervals.map BitVec.toNat).sum

/-- How often an hour is full among the first `minutes` minutes, if only 32 bits
of their number are looked at. -/
def hourCalls (minutes : Nat) : Nat :=
  minutes / 2 ^ 32 * 71582789 + minutes % 2 ^ 32 / 60

theorem hourCalls_succ (minutes : Nat) :
    hourCalls (minutes + 1) = hourCalls minutes +
      if (minutes + 1) % 2 ^ 32 % 60 = 0 then 1 else 0 := by
  unfold hourCalls
  split_ifs <;> omega

theorem hourCalls_eq_iff (minutes : Nat) :
    hourCalls minutes = minutes / 60 ↔
      minutes < 2 ^ 32 ∨
        (minutes < 2 ^ 33 ∧ 44 ≤ (minutes - 2 ^ 32) % 60) := by
  unfold hourCalls
  omega

structure KeepsTime (alarm : NDAlarm Obj Func) (time : Nat) : Prop where
  seconds : alarm.tickSec.toNat = time % 1000
  minutes : alarm.tickMinute.toNat = time % 60000
  index : alarm.minuteIndex.toNat = time / 60000 % 2 ^ 32

variable {hooks : AlarmHooks Obj Func} {alarm : NDAlarm Obj Func}
  {tminterval : BitVec 32} {time : Nat}

theorem tick_eq_tickClock (tminterval : BitVec 32) :
    (alarm.tick hooks tminterval).1 = (tickClock hooks alarm tminterval).1 := by
  unfold tick
  cases tickClock hooks alarm tminterval with
  | mk next went =>
    cases went with
    | none => rfl
    | some _ =>
      dsimp only
      split
      · rename_i empty
        rw [updateTimer_of_isEmpty tminterval empty]
      · rfl

def advance (alarm : NDAlarm Obj Func) (tminterval : BitVec 32) :
    NDAlarm Obj Func :=
  { alarm with
    tminterval := tminterval
    tickMinute := alarm.tickMinute + tminterval
    tickSec := alarm.tickSec + tminterval
    tickIndex := alarm.tickIndex + 1 }

def fullSecond (alarm : NDAlarm Obj Func) : NDAlarm Obj Func :=
  { alarm with
    tickSec := if 2000 < alarm.tickSec.toNat then 0 else alarm.tickSec - 1000
    secondIndex := alarm.secondIndex + 1 }

def fullMinute (alarm : NDAlarm Obj Func) : NDAlarm Obj Func :=
  { alarm with
    minuteIndex := alarm.minuteIndex + 1
    tickMinute := alarm.tickMinute - 1000 * 60 }

theorem tick_cases (goesOn : hooks.GoesOn) (tminterval : BitVec 32) :
    ((alarm.advance tminterval).tickSec.toNat < 1000 ∧
      (alarm.tick hooks tminterval).1 = alarm.advance tminterval ∧
      clockCalls hooks alarm tminterval = []) ∨
    (1000 ≤ (alarm.advance tminterval).tickSec.toNat ∧
      (alarm.advance tminterval).tickMinute.toNat < 60000 ∧
      (alarm.tick hooks tminterval).1 = (alarm.advance tminterval).fullSecond ∧
      clockCalls hooks alarm tminterval = [.updateSecond]) ∨
    (1000 ≤ (alarm.advance tminterval).tickSec.toNat ∧
      60000 ≤ (alarm.advance tminterval).tickMinute.toNat ∧
      (alarm.tick hooks tminterval).1 =
        (alarm.advance tminterval).fullSecond.fullMinute ∧
      clockCalls hooks alarm tminterval = .updateSecond :: .updateMinute ::
        if (alarm.minuteIndex + 1) % 60 = 0 then [.updateHour] else []) := by
  rw [tick_eq_tickClock]
  unfold tickClock clockCalls tickSecond secondCalls
  by_cases second : 1000 ≤ (alarm.advance tminterval).tickSec.toNat
  · right
    have first := (goesOn (alarm.advance tminterval)).1
    have later := (goesOn (alarm.advance tminterval).fullSecond).2
    unfold advance at first second
    unfold fullSecond advance at later
    by_cases minute : 60000 ≤ (alarm.advance tminterval).tickMinute.toNat
    · right
      unfold advance at minute
      refine ⟨second, minute, ?_, ?_⟩
      · simp only [if_pos second, if_neg first, if_pos minute, if_neg later]
        rfl
      · simp only [if_pos second, if_neg first, if_pos minute, if_neg later]
    · left
      unfold advance at minute
      refine ⟨second, Nat.lt_of_not_le minute, ?_, ?_⟩
      · simp only [if_pos second, if_neg first, if_neg minute]
        rfl
      · simp only [if_pos second, if_neg first, if_neg minute]
  · left
    unfold advance at second
    refine ⟨Nat.lt_of_not_le second, ?_, ?_⟩
    · simp only [if_neg second]
      rfl
    · simp only [if_neg second]

/-- One tick: the counters keep the time, and every function is called as often
as its period becomes full. -/
theorem KeepsTime.tick (keeps : KeepsTime alarm time) (goesOn : hooks.GoesOn)
    (short : tminterval.toNat ≤ 1000) :
    KeepsTime (alarm.tick hooks tminterval).1 (time + tminterval.toNat) ∧
      time / 1000 + (clockCalls hooks alarm tminterval).count .updateSecond =
        (time + tminterval.toNat) / 1000 ∧
      time / 60000 + (clockCalls hooks alarm tminterval).count .updateMinute =
        (time + tminterval.toNat) / 60000 ∧
      hourCalls (time / 60000) +
        (clockCalls hooks alarm tminterval).count .updateHour =
          hourCalls ((time + tminterval.toNat) / 60000) := by
  obtain ⟨seconds, minutes, index⟩ := keeps
  have sec : (alarm.advance tminterval).tickSec.toNat =
      time % 1000 + tminterval.toNat := by
    change (alarm.tickSec + tminterval).toNat = _
    rw [BitVec.toNat_add, seconds]
    omega
  have minute : (alarm.advance tminterval).tickMinute.toNat =
      time % 60000 + tminterval.toNat := by
    change (alarm.tickMinute + tminterval).toNat = _
    rw [BitVec.toNat_add, minutes]
    omega
  have late : ¬ 2000 < (alarm.advance tminterval).tickSec.toNat := by omega
  have less : 1000 ≤ (alarm.advance tminterval).tickSec.toNat →
      (alarm.advance tminterval).fullSecond.tickSec.toNat =
        time % 1000 + tminterval.toNat - 1000 := by
    intro full
    change (if _ then _ else _ : BitVec 32).toNat = _
    rw [if_neg late, BitVec.toNat_sub, sec,
      show (1000 : BitVec 32).toNat = 1000 from rfl]
    omega
  rcases tick_cases goesOn tminterval with ⟨below, state, calls⟩ |
    ⟨full, below, state, calls⟩ | ⟨full, whole, state, calls⟩
  · rw [state, calls]
    simp only [count_nil]
    refine ⟨⟨by rw [sec]; omega, by rw [minute]; omega, ?_⟩, by omega,
      by omega, ?_⟩
    · change alarm.minuteIndex.toNat = _
      omega
    · rw [show (time + tminterval.toNat) / 60000 = time / 60000 by omega]
      exact Nat.add_zero _
  · rw [state, calls]
    have kept : (alarm.advance tminterval).fullSecond.tickMinute =
        (alarm.advance tminterval).tickMinute := rfl
    refine ⟨⟨?_, by rw [kept, minute]; omega, ?_⟩, ?_, ?_, ?_⟩
    · omega
    · change alarm.minuteIndex.toNat = _
      omega
    · change time / 1000 + 1 = _
      omega
    · change time / 60000 + 0 = _
      omega
    · rw [show (time + tminterval.toNat) / 60000 = time / 60000 by omega]
      exact Nat.add_zero _
  · rw [state, calls]
    have kept : (alarm.advance tminterval).fullSecond.fullMinute.tickSec =
        (alarm.advance tminterval).fullSecond.tickSec := rfl
    have added : (alarm.minuteIndex + 1).toNat = (time / 60000 + 1) % 2 ^ 32 := by
      rw [BitVec.toNat_add, index, show (1 : BitVec 32).toNat = 1 from rfl]
      omega
    have next : (time + tminterval.toNat) / 60000 = time / 60000 + 1 := by
      omega
    have hour : (alarm.minuteIndex + 1) % 60 = 0 ↔
        (time / 60000 + 1) % 2 ^ 32 % 60 = 0 := by
      rw [← BitVec.toNat_inj, BitVec.toNat_umod, added]
      rfl
    refine ⟨⟨?_, ?_, ?_⟩, ?_, ?_, ?_⟩
    · rw [kept, less (by omega)]
      omega
    · change ((alarm.advance tminterval).tickMinute - 1000 * 60).toNat = _
      rw [BitVec.toNat_sub, minute,
        show (1000 * 60 : BitVec 32).toNat = 60000 from rfl]
      omega
    · change (alarm.minuteIndex + 1).toNat = _
      rw [added, next]
    · split_ifs <;> change time / 1000 + 1 = _ <;> omega
    · rw [count_cons_of_ne (by decide), count_cons_self, next]
      split_ifs <;> rfl
    · rw [count_cons_of_ne (by decide), count_cons_of_ne (by decide),
        next, hourCalls_succ]
      by_cases full : (time / 60000 + 1) % 2 ^ 32 % 60 = 0
      · rw [if_pos (hour.mpr full), if_pos full]
        rfl
      · rw [if_neg fun same => full (hour.mp same), if_neg full]
        rfl

theorem base_goesOn : (AlarmHooks.base : AlarmHooks Obj Func).GoesOn := by
  have other : (0 : Int) ≠ -1 := by decide
  intro alarm
  exact ⟨other, other⟩

theorem keepsTime_new : KeepsTime (new : NDAlarm Obj Func) 0 where
  seconds := rfl
  minutes := rfl
  index := rfl

theorem KeepsTime.run (keeps : KeepsTime alarm time) (goesOn : hooks.GoesOn)
    {intervals : List (BitVec 32)}
    (short : ∀ tminterval ∈ intervals, tminterval.toNat ≤ 1000) :
    time / 1000 + (runCalls hooks alarm intervals).count .updateSecond =
        (time + totalTime intervals) / 1000 ∧
      time / 60000 + (runCalls hooks alarm intervals).count .updateMinute =
        (time + totalTime intervals) / 60000 ∧
      hourCalls (time / 60000) +
        (runCalls hooks alarm intervals).count .updateHour =
          hourCalls ((time + totalTime intervals) / 60000) := by
  induction intervals generalizing alarm time with
  | nil => simp [runCalls, totalTime]
  | cons tminterval intervals induction =>
    obtain ⟨first, others⟩ := forall_mem_cons.mp short
    obtain ⟨next, seconds, minutes, hours⟩ := keeps.tick goesOn first
    obtain ⟨laterSeconds, laterMinutes, laterHours⟩ := induction next others
    have total : time + totalTime (tminterval :: intervals) =
        time + tminterval.toNat + totalTime intervals := by
      unfold totalTime
      rw [map_cons, sum_cons, Nat.add_assoc]
    rw [runCalls, count_append, count_append, count_append, total]
    refine ⟨?_, ?_, ?_⟩ <;> omega

/-- Seconds and minutes are called as often as they are full, and hours are as
long as 32 bits hold the number of minutes. -/
theorem clock_exact (goesOn : hooks.GoesOn) {intervals : List (BitVec 32)}
    (short : ∀ tminterval ∈ intervals, tminterval.toNat ≤ 1000) :
    (runCalls hooks new intervals).count .updateSecond =
        totalTime intervals / 1000 ∧
      (runCalls hooks new intervals).count .updateMinute =
        totalTime intervals / 60000 ∧
      ((runCalls hooks new intervals).count .updateHour =
          totalTime intervals / 3600000 ↔
        totalTime intervals / 60000 < 2 ^ 32 ∨
          (totalTime intervals / 60000 < 2 ^ 33 ∧
            44 ≤ (totalTime intervals / 60000 - 2 ^ 32) % 60)) := by
  obtain ⟨seconds, minutes, hours⟩ :=
    (@keepsTime_new Obj Func).run goesOn short
  have none : hourCalls (0 / 60000) = 0 := rfl
  rw [Nat.zero_add] at seconds minutes hours
  refine ⟨by omega, by omega, ?_⟩
  have called : (runCalls hooks new intervals).count .updateHour =
      hourCalls (totalTime intervals / 60000) := by omega
  rw [called, show totalTime intervals / 3600000 =
    totalTime intervals / 60000 / 60 by rw [Nat.div_div_eq_div_mul]]
  exact hourCalls_eq_iff _

theorem clock_exact_second :
    (runCalls AlarmHooks.base (new : NDAlarm Nat Nat)
        [600, 700]).count .updateSecond = totalTime [600, 700] / 1000 ∧
      (runCalls AlarmHooks.base (new : NDAlarm Nat Nat)
        [600, 700]).count .updateMinute = totalTime [600, 700] / 60000 ∧
      ((runCalls AlarmHooks.base (new : NDAlarm Nat Nat)
        [600, 700]).count .updateHour = totalTime [600, 700] / 3600000 ↔
        totalTime [600, 700] / 60000 < 2 ^ 32 ∨
          (totalTime [600, 700] / 60000 < 2 ^ 33 ∧
            44 ≤ (totalTime [600, 700] / 60000 - 2 ^ 32) % 60)) :=
  clock_exact base_goesOn (by simp)

theorem totalTime_replicate (count : Nat) :
    totalTime (List.replicate count 1000) = count * 1000 := by
  induction count with
  | zero => rfl
  | succ count induction =>
    unfold totalTime at induction ⊢
    rw [replicate_succ, map_cons, sum_cons, induction,
      show (1000 : BitVec 32).toNat = 1000 from rfl]
    omega

/-- When 2^32 minutes are full, the number of minutes is zero again. -/
theorem wrapped_hour :
    (runCalls AlarmHooks.base (new : NDAlarm Nat Nat)
      (List.replicate 257698037760 1000)).count .updateHour ≠
        totalTime (List.replicate 257698037760 1000) / 3600000 := by
  have short : ∀ tminterval ∈ replicate 257698037760 (1000 : BitVec 32),
      tminterval.toNat ≤ 1000 := by
    intro tminterval member
    rw [eq_of_mem_replicate member]
    decide
  obtain ⟨-, -, hours⟩ := (@keepsTime_new Nat Nat).run base_goesOn short
  rw [totalTime_replicate] at hours ⊢
  have none : hourCalls (0 / 60000) = 0 := by decide
  have called : hourCalls ((0 + 257698037760 * 1000) / 60000) = 71582789 := by
    decide
  omega

end NDAlarm

end NdNet
