/-
Settings from the environment.

Three variables are read, each with a default: the port, the debounce of the search in milliseconds, and the policy for
triggers. Numbers may have a plus sign and leading zeros and are trimmed; the policy is taken as it stands. The first
variable that does not fit is reported as it was given.
-/
import Corkboard.Content.Registry
import Corkboard.Double.Numeral
import Corkboard.History

namespace Corkboard

structure Config where
  port : Nat
  debounce : Nat
  policy : PrefixPolicy
  deriving DecidableEq

/-- a variable that does not fit -/
inductive ConfigError where
  | invalid (name value : String)
  deriving DecidableEq

def ConfigError.report : ConfigError → Report
  | .invalid name value => ⟨"E_CONFIG_PARSE", "invalid " ++ name ++ ": " ++ value, false⟩

namespace Config

def default : Config := ⟨3000, 200, .firstRegistered⟩

/-- a natural number up to a bound, after at most one plus sign -/
def natural? (greatest : Nat) (cs : List Char) : Option Nat :=
  let ds := if cs.head? = some '+' then cs.drop 1 else cs
  if ds = [] ∨ !ds.all Double.isDigit then none
  else
    let n := Double.digitsFrom 0 ds
    if n ≤ greatest then some n else none

def number (name : String) (greatest default : Nat) : Option String → Except ConfigError Nat
  | none => .ok default
  | some raw =>
    match natural? greatest (Text.trimChars raw.toList) with
    | some n => .ok n
    | none => .error (.invalid name raw)

def policyOf : Option String → Except ConfigError PrefixPolicy
  | none => .ok .firstRegistered
  | some raw =>
    if raw = "first" then .ok .firstRegistered
    else if raw = "longest" then .ok .longestMatch
    else .error (.invalid "PREFIX_MATCH" raw)

def variableNames : List String := ["PORT", "SEARCH_DEBOUNCE_MS", "PREFIX_MATCH"]

/-- the settings from the variables that are set -/
def ofEnvironment (value : String → Option String) : Except ConfigError Config := do
  let port ← number "PORT" 0xffff default.port (value "PORT")
  let debounce ← number "SEARCH_DEBOUNCE_MS" 0xffffffffffffffff default.debounce (value "SEARCH_DEBOUNCE_MS")
  let policy ← policyOf (value "PREFIX_MATCH")
  .ok ⟨port, debounce, policy⟩

end Config

end Corkboard
