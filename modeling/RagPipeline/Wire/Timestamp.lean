import Mathlib.Algebra.Ring.Int.Defs
import Mathlib.Algebra.Ring.Nat
import RagPipeline.Wire.Text

/-!
# RFC 3339 timestamps in UTC

What `time.Time` and `datetime` print, and the texts Python takes back. Dates are those of the
proleptic Gregorian calendar; an instant is counted in nanoseconds from 1970.

## Main definitions

* `goTimestamp`, `pyTimestamp`: the two printers.
* `parseTimestamp`: the reader; it tells a text of the wrong shape from one that is no date.
-/
namespace Wire

/-- Days from 1970-01-01 to a civil date. -/
def daysFromCivil (year : Int) (month day : Nat) : Int :=
  let y := if month ≤ 2 then year - 1 else year
  let era := y / 400
  let yoe := y - era * 400
  let doy := (153 * (month + (if month > 2 then -3 else 9) : Int) + 2) / 5 + day - 1
  era * 146097 + (yoe * 365 + yoe / 4 - yoe / 100 + doy) - 719468

/-- The civil date of a day counted from 1970-01-01. -/
def civilFromDays (days : Int) : Int × Nat × Nat :=
  let z := days + 719468
  let era := z / 146097
  let doe := z - era * 146097
  let yoe := (doe - doe / 1460 + doe / 36524 - doe / 146096) / 365
  let doy := doe - (365 * yoe + yoe / 4 - yoe / 100)
  let mp := (5 * doy + 2) / 153
  let day := doy - (153 * mp + 2) / 5 + 1
  let month := if mp < 10 then mp + 3 else mp - 9
  (yoe + era * 400 + (if month ≤ 2 then 1 else 0), month.toNat, day.toNat)

def daysInMonth (year month : Nat) : Nat :=
  match month with
  | 2 => if year % 4 = 0 ∧ (year % 100 ≠ 0 ∨ year % 400 = 0) then 29 else 28
  | 4 | 6 | 9 | 11 => 30
  | _ => 31

def padded (width n : Nat) : String :=
  let digits := String.ofList (Nat.toDigits 10 n)
  String.ofList (List.replicate (width - digits.length) '0') ++ digits

/-- `YYYY-MM-DDTHH:MM:SS` and the nanoseconds of an instant, for years 0 to 9999. -/
def civilText (instant : Int) : Option (String × Nat) :=
  let second := instant / 10 ^ 9
  let (year, month, day) := civilFromDays (second / 86400)
  let s := (second % 86400).toNat
  if 0 ≤ year ∧ year ≤ 9999 then
    some (padded 4 year.toNat ++ "-" ++ padded 2 month ++ "-" ++ padded 2 day ++ "T" ++
      padded 2 (s / 3600) ++ ":" ++ padded 2 (s / 60 % 60) ++ ":" ++ padded 2 (s % 60),
      (instant % 10 ^ 9).toNat)
  else none

/-- `time.Time.MarshalJSON`: no fraction when it is zero, trailing zeros trimmed. -/
def goTimestamp (instant : Int) : Option String :=
  (civilText instant).map fun (text, nanos) =>
    let fraction := ((padded 9 nanos).toList.reverse.dropWhile (· = '0')).reverse
    text ++ (if fraction = [] then "" else "." ++ String.ofList fraction) ++ "Z"

/-- `isoformat(timespec="microseconds")` with `Z` for the offset. -/
def pyTimestamp (instant : Int) : Option String :=
  (civilText instant).map fun (text, nanos) => text ++ "." ++ padded 6 (nanos / 1000) ++ "Z"

def digits? (s : PyStr) : Option Nat :=
  s.foldlM (fun n c => if 48 ≤ c.val ∧ c.val ≤ 57 then some (n * 10 + (c.val - 48)) else none) 0

inductive TimestampError where
  | shape
  | date
  deriving DecidableEq, Repr

/-- `[0-9]{4}-[0-9]{2}-[0-9]{2}T[0-9]{2}:[0-9]{2}:[0-9]{2}(\.[0-9]{1,9})?Z` and then
`datetime.fromisoformat`, which keeps microseconds. -/
def parseTimestamp (s : PyStr) : Except TimestampError Int :=
  let part (start len : Nat) : Option Nat := digits? ((s.drop start).take len)
  let punctuated := s[4]? = some (.ofChar '-') ∧ s[7]? = some (.ofChar '-') ∧
    s[10]? = some (.ofChar 'T') ∧ s[13]? = some (.ofChar ':') ∧ s[16]? = some (.ofChar ':')
  let fraction : Option PyStr := match s.drop 19 with
    | [z] => if z = .ofChar 'Z' then some [] else none
    | dot :: rest =>
      let fs := rest.dropLast
      if dot = .ofChar '.' ∧ rest.getLast? = some (.ofChar 'Z') ∧ 1 ≤ fs.length ∧ fs.length ≤ 9
      then some fs else none
    | [] => none
  match part 0 4, part 5 2, part 8 2, part 11 2, part 14 2, part 17 2, fraction,
      fraction.bind digits? with
  | some year, some month, some day, some hour, some minute, some second, some fs, some f =>
    if ¬ punctuated then .error .shape
    else if 1 ≤ year ∧ 1 ≤ month ∧ month ≤ 12 ∧ 1 ≤ day ∧ day ≤ daysInMonth year month ∧
        hour ≤ 23 ∧ minute ≤ 59 ∧ second ≤ 59 then
      let nanos := f * 10 ^ (9 - fs.length)
      .ok ((daysFromCivil year month day * 86400 + hour * 3600 + minute * 60 + second) * 10 ^ 9 +
        (nanos / 1000 * 1000 : Nat))
    else .error .date
  | _, _, _, _, _, _, _, _ => .error .shape

example : goTimestamp 1791972000123000000 = some "2026-10-14T10:00:00.123Z" := by decide

example : parseTimestamp (ofString "2026-10-14T10:00:00.123456789Z") =
    .ok 1791972000123456000 := by decide

example : parseTimestamp (ofString "2026-02-30T10:00:00Z") = .error .date := by decide

end Wire
