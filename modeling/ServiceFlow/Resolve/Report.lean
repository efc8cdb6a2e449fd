import ServiceFlow.Resolve.Analysis

/-!
# Reports

The two reports of an analysis as text: the calls that could not be resolved, and the resolved
calls with the methods they were resolved from.
-/

namespace ServiceFlow

/-- A date and a time of day. -/
structure Stamp where
  year : Int
  month : Nat
  day : Nat
  hour : Nat
  minute : Nat
  second : Nat
deriving DecidableEq, Inhabited

namespace Stamp

def isLeapYear (year : Int) : Bool := year % 4 = 0 && (year % 100 ≠ 0 || year % 400 = 0)

def daysOfMonth (year : Int) (month : Nat) : Nat :=
  if month = 2 then (if isLeapYear year then 29 else 28)
  else if month = 4 || month = 6 || month = 9 || month = 11 then 30
  else 31

/-- The day exists in the calendar, and the time on a clock. -/
def isValid (s : Stamp) : Bool :=
  -262143 ≤ s.year && s.year ≤ 262142 && 1 ≤ s.month && s.month ≤ 12
    && 1 ≤ s.day && s.day ≤ daysOfMonth s.year s.month
    && s.hour < 24 && s.minute < 60 && s.second < 60

/-- A number with zeros in front up to the width. -/
def padded (width n : Nat) : String :=
  String.ofList (List.leftpad width '0' (toString n).toList)

/-- A year of four digits; other years have a sign. -/
def yearText (year : Int) : String :=
  if 0 ≤ year && year ≤ 9999 then padded 4 year.toNat
  else (if year < 0 then "-" else "+") ++ padded 4 year.natAbs

def text (s : Stamp) : String :=
  padded 2 s.day ++ "/" ++ padded 2 s.month ++ "/" ++ yearText s.year ++ " "
    ++ padded 2 s.hour ++ ":" ++ padded 2 s.minute ++ ":" ++ padded 2 s.second

end Stamp

namespace Report

def failedHeader (generatedOn : String) : String :=
  "------------ Failed Propagation Information Report generated On " ++ generatedOn
    ++ " ------------\n"

def failedItem (d : Diagnostic) : String :=
  "ClassName: " ++ d.cls.text ++ " \n"
    ++ (if d.reason?.isSome then "\t\t Solver was null" else "")
    ++ "\t\t" ++ d.call.text ++ "\n"

/-- The calls that could not be resolved. -/
def failed (generatedOn : String) (diagnostics : List Diagnostic) : String :=
  failedHeader generatedOn ++ String.join (diagnostics.map failedItem)

def findingText (f : Finding) : String :=
  "\t\t " ++ f.entry.text ++ "\n\t\t\t " ++ f.call.text ++ " \n"

def resolutionText (r : Resolution) : String :=
  "\t " ++ r.method.text ++ "\n" ++ String.join (r.findings.map findingText)

def analysisText (a : ClassAnalysis) : String :=
  if a.isEmpty then ""
  else a.cls.text ++ " \n" ++ String.join (a.resolutions.map resolutionText)

/-- The resolved calls; classes without any are left out. -/
def resolved (analyses : List ClassAnalysis) : String :=
  "PROP REPORT \n" ++ String.join (analyses.map analysisText)

end Report

end ServiceFlow
