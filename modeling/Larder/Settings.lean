import Larder.Failure
import Larder.Text.Blank

/-! Settings come from named texts, each optional. A text that says nothing readable counts as
missing, so the default stands. Blanks around a number or a policy do not matter; numbers have
an optional plus and decimal digits and have to stay below a bound. -/

namespace Larder

/-- What to do with a line of the journal that is no record: give up, or leave it out. -/
inductive Policy
  | strict
  | skip
  deriving DecidableEq, Repr

namespace Policy

def name : Policy → String
  | .strict => "Strict"
  | .skip => "Skip"

def parse (text : List Char) : Except Objection Policy :=
  let word := String.ofList ((Text.trim text).map Char.toLower)
  if word = "strict" then .ok .strict
  else if word = "skip" ∨ word = "lenient" then .ok .skip
  else .error (.unknownPolicy word)

end Policy

structure Settings where
  maxEntries : Nat
  journalPath : String
  sweepInterval : Duration
  sweepBatch : Nat
  defaultTtl : Option Duration
  policy : Policy
  port : Nat
  deriving DecidableEq, Repr

namespace Settings

def default : Settings where
  maxEntries := 1000
  journalPath := "data/cache.aof"
  sweepInterval := .ofMillis 1000
  sweepBatch := 128
  defaultTtl := none
  policy := .skip
  port := 3000

/-- 2^64. -/
def wordBound : Nat := 18446744073709551616

/-- 2^16. -/
def portBound : Nat := 65536

def isDigit (c : Char) : Bool := '0' ≤ c && c ≤ '9'

def digitsBelow (bound : Nat) (digits : List Char) : Option Nat :=
  if digits = [] ∨ digits.any (!isDigit ·) then none
  else
    let n := Nat.ofDigitChars 10 digits 0
    if n < bound then some n else none

def numberBelow (bound : Nat) (text : List Char) : Option Nat :=
  match Text.trim text with
  | '+' :: digits => digitsBelow bound digits
  | digits => digitsBelow bound digits

/-- Texts by their names. -/
abbrev Environment := String → Option (List Char)

def Environment.number (env : Environment) (name : String) (bound : Nat) : Option Nat :=
  (env name).bind (numberBelow bound)

def Environment.path (env : Environment) : Option String :=
  (env "LOG_PATH").bind fun text => if text = [] then none else some (String.ofList text)

def Environment.policy (env : Environment) : Option Policy :=
  (env "CORRUPTION_POLICY").bind fun text => (Policy.parse text).toOption

/-- A time to live of zero seconds is none at all. -/
def ttlOfSeconds (n : Nat) : Option Duration := if n = 0 then none else some (.ofSeconds n)

def ofEnvironment (env : Environment) : Settings :=
  { maxEntries := (env.number "MAX_ENTRIES" wordBound).getD default.maxEntries
    journalPath := env.path.getD default.journalPath
    sweepInterval :=
      ((env.number "SWEEP_INTERVAL_MS" wordBound).map Duration.ofMillis).getD default.sweepInterval
    sweepBatch := (env.number "SWEEP_BATCH_SIZE" wordBound).getD default.sweepBatch
    defaultTtl := ((env.number "DEFAULT_TTL" wordBound).map ttlOfSeconds).getD default.defaultTtl
    policy := env.policy.getD default.policy
    port := (env.number "SERVER_PORT" portBound).getD default.port }

/-- The first setting the store cannot work with, if any. -/
def objection? (s : Settings) : Option Objection :=
  if s.maxEntries = 0 then some .noEntries
  else if s.sweepInterval.nanos = 0 then some .noInterval
  else if s.sweepBatch = 0 then some .noBatch
  else none

end Settings

end Larder
