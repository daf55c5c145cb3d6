import PrefixCalc.Number.Literal
import PrefixCalc.Yaml.Error

/-! # Timestamps of a document

A timestamp is a date, or a date with a time of day and perhaps a zone. It has to be a day
of the calendar; its written form names all its parts. -/

namespace PrefixCalc.Yaml
set_option autoImplicit false

/-- A time of day, and the offset of its zone in minutes if it has one. -/
structure Clock where
  hour : Nat
  minute : Nat
  second : Nat
  fraction : Text
  zone : Option Int
deriving DecidableEq

structure Timestamp where
  year : Nat
  month : Nat
  day : Nat
  clock : Option Clock
deriving DecidableEq

namespace Timestamp

/-! ## Reading -/

def digits? (least most : Nat) (t : Text) : Option (Nat × Text) :=
  let d := (t.take most).takeWhile Char.isDigit
  if least ≤ d.length then some (Text.toNat d, t.drop d.length) else none

def char? (c : Char) : Text → Option Text
  | d :: t => if c = d then some t else none
  | [] => none

def dropBlanks (t : Text) : Text := t.dropWhile fun c => c == ' ' || c == '\t'

/-- The zone that is the rest of a timestamp. -/
def zone? (t : Text) : Option (Option Int) :=
  match dropBlanks t with
  | [] => if t.isEmpty then some none else none
  | ['Z'] => some (some 0)
  | sign :: r =>
    if sign = '+' ∨ sign = '-' then do
      let (hours, r) ← digits? 1 2 r
      let minutes ← match r with
        | [] => some 0
        | r => do
          let (minutes, r) ← digits? 2 2 (← char? ':' r)
          if r.isEmpty then some minutes else none
      let offset : Int := hours * 60 + minutes
      some (some (if sign = '-' then -offset else offset))
    else none

/-- The time of day that is the rest of a timestamp, after a letter or blanks. -/
def clock? (t : Text) : Option Clock := do
  let t ← match t with
    | 'T' :: r => some r
    | 't' :: r => some r
    | t => if dropBlanks t = t then none else some (dropBlanks t)
  let (hour, t) ← digits? 1 2 t
  let (minute, t) ← digits? 2 2 (← char? ':' t)
  let (second, t) ← digits? 2 2 (← char? ':' t)
  let (fraction, t) := match t with
    | '.' :: r => (r.takeWhile Char.isDigit, r.dropWhile Char.isDigit)
    | t => ([], t)
  some ⟨hour, minute, second, fraction, ← zone? t⟩

def ofText? (t : Text) : Option Timestamp := do
  let (year, r) ← digits? 4 4 t
  let (month, r) ← digits? 1 2 (← char? '-' r)
  let (day, r) ← digits? 1 2 (← char? '-' r)
  if r.isEmpty then some ⟨year, month, day, none⟩
  else some ⟨year, month, day, some (← clock? r)⟩

/-- A plain scalar is a timestamp if it reads as one; without a time of day it also needs two
digits for the month and the day. -/
def isPlain (t : Text) : Bool :=
  match ofText? t with
  | some s => s.clock.isSome || t.length == 10
  | none => false

end Timestamp

/-! ## The calendar -/

def isLeapYear (year : Nat) : Bool := year % 4 == 0 && (year % 100 != 0 || year % 400 == 0)

def daysIn (year month : Nat) : Nat :=
  if month = 2 then (if isLeapYear year then 29 else 28)
  else if month = 4 ∨ month = 6 ∨ month = 9 ∨ month = 11 then 30 else 31

namespace Clock

def fault? (c : Clock) : Option TimeFault :=
  if 23 < c.hour then some .hour
  else if 59 < c.minute then some .minute
  else if 59 < c.second then some .second
  else none

def zoneFault? (c : Clock) : Option TimeFault :=
  (c.zone.filter (1440 ≤ ·.natAbs)).map .offset

end Clock

namespace Timestamp

def dateFault? (s : Timestamp) : Option TimeFault :=
  if s.year = 0 then some (.year 0)
  else if s.month = 0 ∨ 12 < s.month then some .month
  else if s.day = 0 ∨ daysIn s.year s.month < s.day then some .day
  else none

/-- The first fault of the zone, the date and the time of day. -/
def fault? (s : Timestamp) : Option TimeFault :=
  (s.clock.bind Clock.zoneFault?).or (s.dateFault?.or (s.clock.bind Clock.fault?))

end Timestamp

/-! ## Writing -/

namespace Clock

/-- Six digits of the fraction. -/
def microseconds (c : Clock) : Nat :=
  Text.toNat ((c.fraction ++ List.replicate 6 '0').take 6)

/-- Hour and minute, and the smaller parts down to the last that is not zero. -/
def parts (c : Clock) : List Nat :=
  [c.hour, c.minute]
    ++ if c.microseconds ≠ 0 then [c.second, c.microseconds]
      else if c.second ≠ 0 then [c.second] else []

def zoneText (c : Clock) : Text :=
  match c.zone with
  | none => []
  | some 0 => ", tzinfo=datetime.timezone.utc".toList
  | some minutes => ", tzinfo=datetime.timezone(".toList ++ spanText minutes ++ [')']

end Clock

namespace Timestamp

def toText (s : Timestamp) : Text :=
  let listed (ns : List Nat) : Text := Text.joinWith ", ".toList (ns.map Text.ofNat)
  match s.clock with
  | none => "datetime.date(".toList ++ listed [s.year, s.month, s.day] ++ [')']
  | some c =>
    "datetime.datetime(".toList ++ listed ([s.year, s.month, s.day] ++ c.parts) ++ c.zoneText
      ++ [')']

end Timestamp

/-- The written form of the timestamp that the text is. -/
def timestampScalar (text : Text) : Result Text :=
  match Timestamp.ofText? text with
  | none => .error (.scalar .notTimestamp)
  | some s =>
    match s.fault? with
    | some f => .error (.scalar (.time f))
    | none => .ok s.toText

end PrefixCalc.Yaml
