import Ego.Command.Metadata
import Ego.Lib.Codes

/-! # Times for concrete runs -/

namespace Ego.Enginetest
open Persistence (goString)
open Lib (Code)
open Lib.Code (decimal flag behind)

/-- A time as RFC 3339 writes it, with nine digits for the fraction and the offset in
numbers: `2026-07-30T12:00:05.000000000+02:00`. -/
structure Stamp where
  year : Fin (10 ^ 4)
  month : Fin (10 ^ 2)
  day : Fin (10 ^ 2)
  hour : Fin (10 ^ 2)
  minute : Fin (10 ^ 2)
  second : Fin (10 ^ 2)
  nanosecond : Fin (10 ^ 9)
  east : Bool
  zoneHour : Fin (10 ^ 2)
  zoneMinute : Fin (10 ^ 2)

namespace Stamp

def zoneCode : Code (Bool × Fin (10 ^ 2) × Fin (10 ^ 2)) :=
  (flag 43 45 (by decide)).prod ((decimal 2).prod (behind (goString ":") (decimal 2)))

def code : Code Stamp :=
  ((decimal 4).prod ((behind (goString "-") (decimal 2)).prod ((behind (goString "-") (decimal 2)).prod
    ((behind (goString "T") (decimal 2)).prod ((behind (goString ":") (decimal 2)).prod
      ((behind (goString ":") (decimal 2)).prod ((behind (goString ".") (decimal 9)).prod zoneCode))))))).via
    (fun t => (t.year, t.month, t.day, t.hour, t.minute, t.second, t.nanosecond, t.east, t.zoneHour, t.zoneMinute))
    (fun (year, month, day, hour, minute, second, nanosecond, east, zoneHour, zoneMinute) =>
      ⟨year, month, day, hour, minute, second, nanosecond, east, zoneHour, zoneMinute⟩)
    fun _ => rfl

def daysIn (year month : ℕ) : ℕ :=
  if month = 2 then if year % 4 = 0 ∧ (year % 100 ≠ 0 ∨ year % 400 = 0) then 29 else 28
  else if month ∈ [4, 6, 9, 11] then 30 else 31

def Valid (t : Stamp) : Prop :=
  1 ≤ t.month.val ∧ t.month.val ≤ 12 ∧ 1 ≤ t.day.val ∧ t.day.val ≤ daysIn t.year t.month ∧
    t.hour.val < 24 ∧
    t.minute.val < 60 ∧ t.second.val < 60 ∧ t.zoneHour.val ≤ 24 ∧ t.zoneMinute.val < 60

instance Valid.decidable : DecidablePred Valid := fun _ => inferInstanceAs (Decidable (_ ∧ _))

/-- In nanoseconds, with the year and the month counted in days. -/
def instant (t : Stamp) : ℤ :=
  let year := t.year.val
  let days := 365 * year + (year + 3) / 4 - (year + 99) / 100 + (year + 399) / 400 +
    ((List.range' 1 (t.month - 1)).map (daysIn year)).sum + t.day
  let zone : ℤ := t.zoneHour * 60 + t.zoneMinute
  let minutes : ℤ := (days * 24 + t.hour) * 60 + t.minute - if t.east then zone else -zone
  (minutes * 60 + t.second) * 10 ^ 9 + t.nanosecond

end Stamp

open Stamp in
def rfc3339 : Command.TimePackage where
  Time := Stamp
  instant := instant
  Covered := Valid
  format := code.encode
  parse raw := (code.read raw).filter (decide <| Valid ·)
  parse_format t ht := ⟨t, by rw [Code.read_encode, Option.filter_some, if_pos (decide_eq_true ht)], rfl⟩
  covered_of_parse _ _ h := of_decide_eq_true (Option.filter_eq_some_iff.mp h).2

def noon (second : ℕ) : Stamp := ⟨2026, 7, 30, 12, 0, .ofNat _ second, 0, true, 2, 0⟩

end Ego.Enginetest
