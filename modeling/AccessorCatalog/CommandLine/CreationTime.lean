/-
# The time of creation

A catalog says when it was created, in the form `Mon Jan  5 09:07:00 2026`: the day of the month
stands flush right in two columns, and the parts of the time of day have two digits.
-/
import AccessorCatalog.Text.Basic
import Std.Time.Zoned

namespace AccessorCatalog.CommandLine

open Std.Time (PlainDateTime Weekday)

/-- The short name of a day of the week. -/
def weekdayName : Weekday → String
  | .monday => "Mon"
  | .tuesday => "Tue"
  | .wednesday => "Wed"
  | .thursday => "Thu"
  | .friday => "Fri"
  | .saturday => "Sat"
  | .sunday => "Sun"

/-- The short names of the months. -/
def monthNames : List String :=
  ["Jan", "Feb", "Mar", "Apr", "May", "Jun", "Jul", "Aug", "Sep", "Oct", "Nov", "Dec"]

/-- A number flush right in two columns, behind a filling character. -/
def twoColumns (fill : Char) (n : Nat) : Text :=
  List.replicate (2 - (Text.ofNat n).length) fill ++ Text.ofNat n

/-- A time of creation as it is written in a catalog. -/
def creationText (t : PlainDateTime) : Text :=
  let month := monthNames[t.date.month.val.toNat - 1]?.getD ""
  let clock := [t.time.hour.val.toNat, t.time.minute.val.toNat, t.time.second.val.toNat]
  Text.join [' '] [
    (weekdayName t.weekday).toList,
    month.toList,
    twoColumns ' ' t.date.day.val.toNat,
    Text.join [':'] (clock.map (twoColumns '0')),
    Text.ofNat t.date.year.toInt.toNat]

end AccessorCatalog.CommandLine
