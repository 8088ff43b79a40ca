import CannedApi.Entries
import CannedApi.Text.Digits

/-!
# Counters

What a server counts: answered requests by method and status, requests without a route by method,
reloads by outcome; and how many routes there are now.  A counter that was never touched is not shown.
-/

namespace CannedApi

structure Metrics where
  answered : Entries (String × Nat) Nat := []
  unmatched : Entries String Nat := []
  reloads : Entries Bool Nat := []
  /-- the number of routes in use -/
  routes : Nat := 0
  deriving Repr, DecidableEq

namespace Metrics

variable {κ : Type} [DecidableEq κ]

/-- one more under a key -/
def bump (counts : Entries κ Nat) (k : κ) : Entries κ Nat :=
  Entries.put counts k ((Entries.get? counts k).getD 0 + 1)

def countAnswer (m : Metrics) (method : String) (status : Nat) : Metrics :=
  { m with answered := bump m.answered (method, status) }

def countUnmatched (m : Metrics) (method : String) : Metrics :=
  { m with unmatched := bump m.unmatched method }

/-- A reload that succeeded tells how many routes there are; a failed one changes nothing there. -/
def countReload (m : Metrics) : Option Nat → Metrics
  | some routes => { m with reloads := bump m.reloads true, routes := routes }
  | none => { m with reloads := bump m.reloads false }

/-- how many requests have been answered, whatever their method and status -/
def answers (m : Metrics) : Nat := m.answered.foldr (fun e n => e.2 + n) 0

/-! ## Text -/

/-- A label value with its quotes and line feeds escaped.  A backslash is held back: with a second one,
with any character that needs no escape, or at the end it makes an escaped backslash; a quote takes it as
its own. -/
def escapeLabel (held : Bool) : List Char → List Char
  | [] => if held then ['\\', '\\'] else []
  | c :: rest =>
    if c = '\n' then '\\' :: 'n' :: escapeLabel held rest
    else if c = '"' then '\\' :: '"' :: escapeLabel false rest
    else if c = '\\' then
      if held then '\\' :: '\\' :: escapeLabel false rest else escapeLabel true rest
    else if held then '\\' :: '\\' :: c :: escapeLabel false rest
    else c :: escapeLabel false rest

def labelText (s : String) : String := String.ofList (escapeLabel false s.toList)

/-- the start of a line: a name with its labels -/
def series (name : String) (labels : List (String × String)) : String :=
  let inner := ",".intercalate (labels.map fun p => p.1 ++ "=\"" ++ labelText p.2 ++ "\"")
  name ++ if labels.isEmpty then "" else "\x7b" ++ inner ++ "\x7d"

/-- The counters as text, in the order of the lines.  Counters whose labels are written alike share one
line, which shows one of them. -/
def lines (m : Metrics) : List String :=
  let answered := m.answered.map fun e =>
    (series "mock_requests_total" [("method", e.1.1), ("status", Text.decimalText e.1.2)], e.2)
  let unmatched := m.unmatched.map fun e =>
    (series "mock_unmatched_requests_total" [("method", e.1)], e.2)
  let reloads := m.reloads.map fun e =>
    (series "mock_route_reloads_total" [("outcome", if e.1 then "success" else "failure")], e.2)
  let durations :=
    if m.answered.isEmpty then [] else [(series "mock_request_duration_seconds_count" [], m.answers)]
  let all := answered ++ unmatched ++ reloads ++ durations ++ [(series "mock_routes" [], m.routes)]
  ((Entries.ofList all).map fun e => e.1 ++ " " ++ Text.decimalText e.2).mergeSort
    fun a b => decide (a ≤ b)

end Metrics

end CannedApi
