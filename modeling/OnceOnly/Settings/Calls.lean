import OnceOnly.Settings.Json
import OnceOnly.Time
import OnceOnly.Wire.Frame

/-!
The settings that calls on both sides share.
-/

namespace OnceOnly

structure CallSettings where
  /-- Larger frames are refused, sent or received. -/
  maxMessageSize : UInt64
  /-- For calls whose controller sets no timeout of its own. -/
  defaultTimeoutMillis : Option UInt64
deriving DecidableEq, Repr

namespace CallSettings

def standard : CallSettings := ⟨.ofNat Frame.defaultLimit, none⟩

def fields : Settings.Json.Fields CallSettings where
  names := [Settings.Json.word "max_message_size", Settings.Json.word "default_timeout_ms"]
  read
    | 0, s, bs => do
      let (n, rest) ← Settings.Json.readNatural bs
      pure ({ s with maxMessageSize := n }, rest)
    | _, s, bs => do
      let (n, rest) ← Settings.Json.readOption Settings.Json.readNatural bs
      pure ({ s with defaultTimeoutMillis := n }, rest)

def ofJson (text : String) : Except Settings.Mismatch CallSettings :=
  Settings.Json.ofText fields standard text

def optionText {α : Type} (render : α → String) : Option α → String
  | none => "null"
  | some a => render a

/-- The settings without blanks, the fields in order. -/
def toJson (s : CallSettings) : String :=
  "\x7b\"max_message_size\":" ++ toString s.maxMessageSize.toNat ++ ",\"default_timeout_ms\":" ++
    optionText (fun n => toString n.toNat) s.defaultTimeoutMillis ++ "\x7d"

def limit (s : CallSettings) : Nat := s.maxMessageSize.toNat

def defaultTimeout (s : CallSettings) : Option Duration :=
  s.defaultTimeoutMillis.map fun n => .ofMillis n.toNat

end CallSettings

end OnceOnly
