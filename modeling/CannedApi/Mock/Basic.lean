import CannedApi.Json.Writer

/-!
# Canned answers

The JSON of a file with an answer is the body of the answer.  An object may hold, under one reserved
key, settings for the answer: a status, a delay, and anything else.  The settings are taken out of the
body.
-/

namespace CannedApi

structure MockSettings where
  /-- the status that was asked for -/
  status : Option Nat
  /-- milliseconds to wait before answering, if it is more than none -/
  delay : Option Nat
  /-- the other settings -/
  extra : Entries String Json
  deriving Repr, Inhabited

/-- A setting with a value that it cannot have. -/
inductive SettingError where
  | status (got : Json)
  | delay (got : Json)

def SettingError.message : SettingError → String
  | .status got => "status must be an integer between 100 and 999, got " ++ got.write
  | .delay got => "delay must be a number of milliseconds, got " ++ got.write

/-- A canned answer: its body, with slots to fill in, and its settings. -/
structure Mock where
  body : Json
  settings : MockSettings
  deriving Repr, Inhabited

namespace MockSettings

def none : MockSettings := ⟨.none, .none, []⟩

/-- Zero and `null` ask for nothing. -/
def readStatus : Option Json → Except SettingError (Option Nat)
  | .none => .ok .none
  | some .null => .ok .none
  | some x =>
    match x.asNat? with
    | some 0 => .ok .none
    | some n => if 100 ≤ n ∧ n ≤ 999 then .ok (some n) else .error (.status x)
    | .none => .error (.status x)

/-- the longest delay in milliseconds -/
def longestDelay : Nat := 18446744073709551615

/-- Parts of a millisecond count as a whole one; what is not above zero asks for nothing. -/
def readDelay : Option Json → Except SettingError (Option Nat)
  | .none => .ok .none
  | some .null => .ok .none
  | some (.number n) =>
    let ms := n.toBinary64
    .ok (if ms.isPositive then some (min ms.ceil longestDelay) else .none)
  | some x => .error (.delay x)

/-- Settings that are no object ask for nothing. -/
def ofJson : Json → Except SettingError MockSettings
  | .object entries =>
    (readStatus (Entries.get? entries "status")).bind fun status =>
      (readDelay (Entries.get? entries "delay")).map fun delay =>
        ⟨status, delay, Entries.erase (Entries.erase entries "status") "delay"⟩
  | _ => .ok none

/-- the status of the answer -/
def statusCode (s : MockSettings) : Nat := s.status.getD 200

/-- milliseconds to wait -/
def delayMillis (s : MockSettings) : Nat := s.delay.getD 0

end MockSettings

namespace Mock

/-- the key that holds settings -/
def settingsKey : String := "$config"

/-- The answer that a JSON value describes. -/
def ofJson : Json → Except SettingError Mock
  | .object entries =>
    match Entries.get? entries settingsKey with
    | some c =>
      (MockSettings.ofJson c).map fun s => ⟨.object (Entries.erase entries settingsKey), s⟩
    | none => .ok ⟨.object entries, .none⟩
  | x => .ok ⟨x, .none⟩

end Mock

end CannedApi
