import Xtern.Basic
import Mathlib.Tactic.Ring

/-! # Physical to logical time

The timed wrappers turn a physical timeout into a number of turns. `pthreadMutexTimedLock`,
`pthreadCondTimedWait` and `semTimedWait` subtract the thread's base time from `abstime`
(`time_diff`), `relTimeToTurn` reads the difference as a signed 64-bit nanosecond count and hands
it to `time2turn` as `uint64_t`, which divides by `nanosec_per_turn` and caps at `MAX_REL`; the
result is raised to at least `5 * nthread + 1` and added to the turn count in `unsigned`
arithmetic. `sleep`, `usleep` and `nanosleep` build the interval themselves.

Machine integers are `Int`/`Nat` with the wrap made explicit: `int64`, `uint64` and `u32`.
On a normalised interval below `2^63` ns the conversion is the clamp the comments describe
(`timedDeadline_eq`); an interval that is already negative wraps to a huge `uint64_t` and gets
`MAX_REL` turns instead of the lower bound, and `usleep` wraps its 32-bit product. -/

namespace Xtern

/-- `struct timespec`: seconds and nanoseconds, both signed 64-bit. -/
structure Timespec where
  sec : Int
  nsec : Int
  deriving DecidableEq, Repr

/-- Nanoseconds in a second. -/
def nsPerSec : Int := 1000000000

/-- The value `int64_t` arithmetic keeps: two's-complement reduction into `[-2^63, 2^63)`. -/
def int64 (x : Int) : Int := (x + 9223372036854775808) % 18446744073709551616 - 9223372036854775808

/-- Conversion to `uint64_t`: reduction modulo `2^64`. -/
def uint64 (x : Int) : Nat := (x % 18446744073709551616).toNat

/-- `unsigned` (32-bit) arithmetic. -/
def u32 (x : Nat) : Nat := x % 4294967296

/-- A timespec as a number of nanoseconds. -/
def Timespec.ns (t : Timespec) : Int := t.sec * nsPerSec + t.nsec

/-- `0 <= tv_nsec < 10^9`. -/
def Timespec.Normal (t : Timespec) : Prop := 0 ≤ t.nsec ∧ t.nsec < nsPerSec

/-- `time_diff(start, end)`: `end - start`, borrowing a second when the nanoseconds underflow. -/
def timeDiff (start stop : Timespec) : Timespec :=
  if stop.nsec - start.nsec < 0 then
    ⟨int64 (stop.sec - start.sec - 1), int64 (1000000000 - start.nsec + stop.nsec)⟩
  else ⟨int64 (stop.sec - start.sec), int64 (stop.nsec - start.nsec)⟩

/-- `MAX_REL`: the most turns a physical timeout is mapped to. -/
def maxRel : Nat := 1000000

/-- `time2turn(nsec)`: `nsec / nanosec_per_turn`, capped at `MAX_REL`; `none` is the `exit(1)`
taken when the idle thread is not launched. -/
def time2turn (o : Options) (nsec : Nat) : Option Nat :=
  if !o.launchIdleThread then none
  else
    let ret64 := nsec / o.nanosecPerTurn
    some (if ret64 > maxRel then maxRel else ret64)

/-- `RecorderRT::relTimeToTurn(reltime)`: `0` for a null interval; otherwise the `int64_t`
nanosecond count, passed to `time2turn` as `uint64_t`, raised to at least `5 * nthread + 1`. -/
def relTimeToTurn (o : Options) (nthread : Nat) : Option Timespec → Option Nat
  | none => some 0
  | some r =>
    let ns := int64 (int64 (r.sec * 1000000000) + r.nsec)
    (time2turn o (uint64 ns)).map fun ret =>
      if ret < 5 * nthread + 1 then 5 * nthread + 1 else ret

/-- The base a timed wrapper subtracts from `abstime`: `my_base_time`, or the clock `now` when
`setBaseTime` was never called (`tv_sec == 0`). -/
def baseTime (myBase now : Timespec) : Timespec := if myBase.sec = 0 then now else myBase

/-- The deadline `pthreadMutexTimedLock`, `pthreadCondTimedWait` and `semTimedWait` pass to
`wait`: `getTurnCount() + relTimeToTurn(&rel_time)` as an `unsigned`. -/
def timedDeadline (o : Options) (nthread turn : Nat) (myBase now abstime : Timespec) :
    Option Nat :=
  (relTimeToTurn o nthread (some (timeDiff (baseTime myBase now) abstime))).map
    fun r => u32 (turn + r)

/-- `RecorderRT::sleep(seconds)`: `timespec ts = {seconds, 0}`. -/
def sleepTimespec (seconds : Nat) : Timespec := ⟨seconds, 0⟩

/-- `RecorderRT::usleep(usec)`: `timespec ts = {0, 1000 * usec}`, the product taken in the
32-bit `useconds_t`. -/
def usleepTimespec (usec : Nat) : Timespec := ⟨0, u32 (1000 * usec)⟩

/-- The deadline the sleep family passes to `wait(NULL, timeout)` for the interval `req`
(`nanosleep` passes its argument, which may be null). -/
def sleepDeadline (o : Options) (nthread turn : Nat) (req : Option Timespec) : Option Nat :=
  (relTimeToTurn o nthread req).map fun r => u32 (turn + r)

/-- The conversion the comments of `time2turn` and `relTimeToTurn` describe: the interval in
turns, clamped to `[5 * nthread + 1, MAX_REL]` from below first. -/
def clampTurns (o : Options) (nthread : Nat) (ns : Int) : Nat :=
  max (5 * nthread + 1) (min maxRel (ns.toNat / o.nanosecPerTurn))

/-! ### The conversion on intervals it was written for -/

theorem int64_of_lt {x : Int} (h1 : -9223372036854775808 ≤ x) (h2 : x < 9223372036854775808) :
    int64 x = x := by
  unfold int64; omega

theorem uint64_of_nonneg {x : Int} (h1 : 0 ≤ x) (h2 : x < 18446744073709551616) :
    uint64 x = x.toNat := by
  unfold uint64; rw [Int.emod_eq_of_lt h1 h2]

/-- `time_diff` of normalised times whose difference fits in `int64_t` nanoseconds is that
difference, normalised. -/
theorem timeDiff_ns {b a : Timespec} (hb : b.Normal) (ha : a.Normal)
    (h0 : 0 ≤ a.ns - b.ns) (h1 : a.ns - b.ns < 9223372036854775808) :
    (timeDiff b a).Normal ∧ (timeDiff b a).ns = a.ns - b.ns := by
  obtain ⟨hb0, hb1⟩ := hb
  obtain ⟨ha0, ha1⟩ := ha
  simp only [Timespec.ns, nsPerSec] at *
  unfold timeDiff
  split_ifs with h
  · rw [int64_of_lt (by omega) (by omega), int64_of_lt (by omega) (by omega)]
    simp only [Timespec.Normal, Timespec.ns, nsPerSec]; constructor <;> [omega; ring]
  · rw [int64_of_lt (by omega) (by omega), int64_of_lt (by omega) (by omega)]
    simp only [Timespec.Normal, Timespec.ns, nsPerSec]; constructor <;> [omega; ring]

theorem time2turn_eq {o : Options} (hl : o.launchIdleThread = true) (nsec : Nat) :
    time2turn o nsec = some (min maxRel (nsec / o.nanosecPerTurn)) := by
  simp only [time2turn, hl, Bool.not_true, Bool.false_eq_true, if_false, Option.some.injEq]
  split_ifs <;> omega

/-- On a normalised interval of `[0, 2^63)` nanoseconds `relTimeToTurn` is the clamp. -/
theorem relTimeToTurn_eq {o : Options} (hl : o.launchIdleThread = true) (nthread : Nat)
    {r : Timespec} (hr : r.Normal) (h0 : 0 ≤ r.ns) (h1 : r.ns < 9223372036854775808) :
    relTimeToTurn o nthread (some r) = some (clampTurns o nthread r.ns) := by
  obtain ⟨hr0, hr1⟩ := hr
  simp only [Timespec.ns, nsPerSec] at h0 h1 hr1
  have hsec : 0 ≤ r.sec := by omega
  have hmul : int64 (r.sec * 1000000000) = r.sec * 1000000000 := int64_of_lt (by omega) (by omega)
  have hns : int64 (int64 (r.sec * 1000000000) + r.nsec) = r.sec * 1000000000 + r.nsec := by
    rw [hmul, int64_of_lt (by omega) (by omega)]
  have hu : uint64 (r.sec * 1000000000 + r.nsec) = (r.sec * 1000000000 + r.nsec).toNat :=
    uint64_of_nonneg (by omega) (by omega)
  simp only [relTimeToTurn, hns, hu, time2turn_eq hl, Option.map_some', Option.some.injEq,
    clampTurns, Timespec.ns, nsPerSec, maxRel]
  split_ifs <;> omega

/-- With a base time set, the deadline of the timed wrappers on an interval that has not
expired and fits in `int64_t` nanoseconds is `turn` plus the clamp, when that sum fits in an
`unsigned`. -/
theorem timedDeadline_eq {o : Options} (hl : o.launchIdleThread = true) (nthread turn : Nat)
    {b a : Timespec} (now : Timespec) (hb : b.Normal) (hbs : b.sec ≠ 0) (ha : a.Normal)
    (h0 : 0 ≤ a.ns - b.ns) (h1 : a.ns - b.ns < 9223372036854775808)
    (hw : turn + clampTurns o nthread (a.ns - b.ns) < 4294967296) :
    timedDeadline o nthread turn b now a = some (turn + clampTurns o nthread (a.ns - b.ns)) := by
  obtain ⟨hn, hd⟩ := timeDiff_ns hb ha h0 h1
  simp only [timedDeadline, baseTime, hbs, if_false]
  rw [relTimeToTurn_eq hl nthread hn (hd ▸ h0) (hd ▸ h1), hd]
  simp only [Option.map_some', u32, Nat.mod_eq_of_lt hw]

/-! ### Where the conversion wraps -/

/-- An `abstime` one nanosecond before the base time: `time_diff` gives `-1` ns, `time2turn`
reads it as `2^64 - 1` and the wait gets `MAX_REL` turns where the clamp gives `6`; `usleep` of
five seconds wraps `1000 * usec` and waits `705032` turns where the clamp gives `MAX_REL`. -/
theorem timedDeadline_expired :
    timedDeadline ⟨false, false, true, 1000, true, false⟩ 1 0 ⟨1, 0⟩ ⟨0, 0⟩ ⟨0, 999999999⟩
        = some 1000000 ∧
      clampTurns ⟨false, false, true, 1000, true, false⟩ 1
        (Timespec.ns ⟨0, 999999999⟩ - Timespec.ns ⟨1, 0⟩) = 6 ∧
      sleepDeadline ⟨false, false, true, 1000, true, false⟩ 1 0 (some (usleepTimespec 5000000))
        = some 705032 ∧
      clampTurns ⟨false, false, true, 1000, true, false⟩ 1 5000000000 = 1000000 := by
  decide

end Xtern
