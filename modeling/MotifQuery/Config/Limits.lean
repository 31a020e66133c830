import MotifQuery.Failure

/-!
# `MotifQuery.Config.Limits`: limits of a query

The configuration limits the time of a query in seconds and its memory in bytes or as a
part of the memory of the machine. `resolve` turns that into a span of nanoseconds,
rounded to the nearest, half to even, and a number of bytes. A byte count wins over a
part; the time is checked first.
-/

set_option autoImplicit false

namespace MotifQuery

/-- Limits as configured. -/
structure QueryLimits where
  maxRamPart : Float := 0.5
  maxRamBytes : Option Nat := none
  maxSeconds : Option Float := some 120.0

/-- Limits of a worker; where there is none the worker runs free. -/
structure ResourceLimits where
  maxDuration : Option Span := none
  maxRamBytes : Option Nat := none
deriving DecidableEq

namespace QueryLimits

open Number

/-- The nanoseconds in a positive finite number of seconds. -/
def nanoseconds (seconds : Float) : Nat :=
  let i := RoundingInterval.ofBits (seconds.toBits.toNat % Nat.pow 2 63)
  let (left, right) := commonScale i.scale (-9)
  let below := i.value * left / right
  let rest := i.value * left % right
  if right < 2 * rest ∨ (2 * rest = right ∧ below % 2 = 1) then below + 1 else below

/-- The failure of a limit that makes no sense. -/
def invalid (message : String) : Failure :=
  .config "invalid_query_limits" message "config"

/-- The deadline of a query. -/
def duration (l : QueryLimits) : Except Failure (Option Span) :=
  match l.maxSeconds with
  | none => .ok none
  | some seconds =>
    if !isFinite seconds || seconds ≤ 0.0 then
      .error (invalid ("max_duration_seconds must be positive, got " ++ plainText seconds))
    else
      let span := nanoseconds seconds
      if span < Nat.pow 2 64 * Span.second then .ok (some span)
      else
        .error (invalid ("max_duration_seconds " ++ plainText seconds
          ++ " is out of range: cannot convert float seconds to Duration: "
          ++ "value is either too big or NaN"))

/-- The memory of a query on a machine with `total` bytes. -/
def ram (l : QueryLimits) (total : Nat) : Except Failure Nat :=
  match l.maxRamBytes with
  | some bytes => .ok bytes
  | none =>
    if !(l.maxRamPart > 0.0 && l.maxRamPart ≤ 1.0) then
      .error (invalid ("max_ram_pct must be in (0, 1], got " ++ plainText l.maxRamPart))
    else if total = 0 then
      .error ((Failure.config "total_ram_unavailable"
        "Cannot determine total system memory to derive the query RAM limit"
        "config").withHint "Set query_limits.max_ram_bytes explicitly")
    else .ok (Float.ofNat total * l.maxRamPart).toUInt64.toNat

/-- The limits on a machine with `total` bytes of memory. -/
def resolve (l : QueryLimits) (total : Nat) : Except Failure ResourceLimits := do
  let maxDuration ← l.duration
  let bytes ← l.ram total
  pure { maxDuration, maxRamBytes := some bytes }

end QueryLimits

end MotifQuery
