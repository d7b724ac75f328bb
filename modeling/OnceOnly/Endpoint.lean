import OnceOnly.Address

/-!
What a call is addressed to: a method of a service, over a connection that belongs to one remote
address and one user.
-/

namespace OnceOnly

structure Method where
  service : String
  name : String
deriving DecidableEq, Repr

def Method.text (m : Method) : String := s!"{m.service}.{m.name}"

def Method.debugText (m : Method) : String :=
  Text.record "RemoteMethod"
    [("service_name", Text.quote m.service), ("method_name", Text.quote m.name)]

/-- Whom a connection acts for. -/
structure Credentials where
  user : Option String
deriving DecidableEq, Repr

def Credentials.text (c : Credentials) : String :=
  match c.user with
  | some user => "\x7breal_user=" ++ user ++ "\x7d"
  | none => "\x7b\x7d"

def Credentials.debugText (c : Credentials) : String :=
  Text.record "UserCredentials" [("real_user", Text.option (c.user.map Text.quote))]

/-- Two users of one server never share a connection. -/
structure ConnectionId where
  remote : Address
  credentials : Credentials
deriving DecidableEq, Repr

def ConnectionId.text (c : ConnectionId) : String :=
  "\x7bremote=" ++ c.remote.text ++ ", user_credentials=" ++ c.credentials.text ++ "\x7d"

def ConnectionId.debugText (c : ConnectionId) : String :=
  Text.record "ConnectionId"
    [("remote", c.remote.text), ("user_credentials", c.credentials.debugText)]

/-- What both sides of a connection may agree to support. -/
inductive Feature where
  | applicationFeatureFlags
deriving DecidableEq, Repr

def Feature.name : Feature → String
  | .applicationFeatureFlags => "APPLICATION_FEATURE_FLAGS"

/-- What a server supports unless told otherwise. -/
def Feature.standard : List Feature := [.applicationFeatureFlags]

end OnceOnly
