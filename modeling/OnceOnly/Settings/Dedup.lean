import OnceOnly.Settings.Calls
import OnceOnly.Text.Quoted

/-!
The settings of the server's memory of requests.
-/

namespace OnceOnly

/-- What becomes of a request in progress that falls below its client's low-water mark. -/
inductive StalePolicy where
  /-- Its driver goes on, and answers everyone who waits. -/
  | alwaysComplete
  /-- Everyone who waits is answered at once, and the driver may stop. -/
  | abandonEarly
deriving DecidableEq, Repr

namespace StalePolicy

def name : StalePolicy → String
  | alwaysComplete => "always_complete"
  | abandonEarly => "abandon_early"

def debugText : StalePolicy → String
  | alwaysComplete => "AlwaysComplete"
  | abandonEarly => "AbandonEarly"

def ofName? (bs : Bytes) : Option StalePolicy :=
  [alwaysComplete, abandonEarly].find? fun p => Settings.Json.word p.name == bs

end StalePolicy

structure DedupSettings where
  /-- How often results are collected in the background. -/
  collectEveryMillis : UInt64
  /-- A client not heard from for so long has its results dropped. -/
  clientTtlMillis : UInt64
  /-- When memory is short, results at least this old are dropped too. -/
  pressureMinAgeMillis : UInt64
  memoryLimit : Option Int64
  stalePolicy : StalePolicy
deriving DecidableEq, Repr

namespace DedupSettings

def standard : DedupSettings := ⟨1000, 3600000, 10000, none, .alwaysComplete⟩

def names : List String :=
  ["gc_interval_ms", "client_inactivity_ttl_ms", "memory_pressure_min_age_ms",
    "memory_limit_bytes", "stale_policy"]

def fields : Settings.Json.Fields DedupSettings where
  names := names.map Settings.Json.word
  read
    | 0, s, bs => do
      let (n, rest) ← Settings.Json.readNatural bs
      pure ({ s with collectEveryMillis := n }, rest)
    | 1, s, bs => do
      let (n, rest) ← Settings.Json.readNatural bs
      pure ({ s with clientTtlMillis := n }, rest)
    | 2, s, bs => do
      let (n, rest) ← Settings.Json.readNatural bs
      pure ({ s with pressureMinAgeMillis := n }, rest)
    | 3, s, bs => do
      let (n, rest) ← Settings.Json.readOption Settings.Json.readInteger bs
      pure ({ s with memoryLimit := n }, rest)
    | _, s, bs => do
      let (p, rest) ← Settings.Json.readChoice StalePolicy.ofName? bs
      pure ({ s with stalePolicy := p }, rest)

def ofJson (text : String) : Except Settings.Mismatch DedupSettings :=
  Settings.Json.ofText fields standard text

/-- The values in the order of the fields, as JSON. -/
def jsonValues (s : DedupSettings) : List String :=
  [toString s.collectEveryMillis.toNat, toString s.clientTtlMillis.toNat,
    toString s.pressureMinAgeMillis.toNat,
    CallSettings.optionText (fun n => toString n.toInt) s.memoryLimit,
    "\"" ++ s.stalePolicy.name ++ "\""]

/-- The settings without blanks, the fields in order. -/
def toJson (s : DedupSettings) : String :=
  "\x7b" ++ ",".intercalate ((names.zip s.jsonValues).map fun f => "\"" ++ f.1 ++ "\":" ++ f.2) ++
    "\x7d"

def debugText (s : DedupSettings) : String :=
  Text.record "ResultTrackerConfig" (names.zip
    [toString s.collectEveryMillis.toNat, toString s.clientTtlMillis.toNat,
      toString s.pressureMinAgeMillis.toNat,
      Text.option (s.memoryLimit.map fun n => toString n.toInt), s.stalePolicy.debugText])

def collectEvery (s : DedupSettings) : Duration := .ofMillis s.collectEveryMillis.toNat

def clientTtl (s : DedupSettings) : Duration := .ofMillis s.clientTtlMillis.toNat

def pressureMinAge (s : DedupSettings) : Duration := .ofMillis s.pressureMinAgeMillis.toNat

end DedupSettings

end OnceOnly
