import OnceOnly.Wire.Codec

/-!
What a server answers in place of a result: a class of error, a message, the features that it
lacks, and what the application adds.
-/

namespace OnceOnly

inductive ErrorCode where
  | fatalUnknown
  | applicationError
  | noSuchMethod
  | noSuchService
  | serverTooBusy
  | invalidRequest
  /-- The request lies below its client's own low-water mark; its result is not kept any more. -/
  | requestStale
  | unavailable
  | fatalServerShuttingDown
  | fatalVersionMismatch
  | fatalUnauthorized
deriving DecidableEq, Repr

namespace ErrorCode

/-- In the order of their indices on the wire. -/
def all : List ErrorCode :=
  [fatalUnknown, applicationError, noSuchMethod, noSuchService, serverTooBusy, invalidRequest,
    requestStale, unavailable, fatalServerShuttingDown, fatalVersionMismatch, fatalUnauthorized]

def name : ErrorCode → String
  | fatalUnknown => "FatalUnknown"
  | applicationError => "ApplicationError"
  | noSuchMethod => "NoSuchMethod"
  | noSuchService => "NoSuchService"
  | serverTooBusy => "ServerTooBusy"
  | invalidRequest => "InvalidRequest"
  | requestStale => "RequestStale"
  | unavailable => "Unavailable"
  | fatalServerShuttingDown => "FatalServerShuttingDown"
  | fatalVersionMismatch => "FatalVersionMismatch"
  | fatalUnauthorized => "FatalUnauthorized"

def ofName? (s : String) : Option ErrorCode := all.find? fun c => c.name == s

def codec : Codec ErrorCode := .variant all fun c => all.idxOf c

end ErrorCode

/-- What an application says about its own error. -/
structure AppError where
  extension : Int32
  payload : Bytes
deriving DecidableEq, Repr

def AppError.codec : Codec AppError :=
  (Codec.int32.pair (.list .byte)).map (fun v => ⟨v.1, v.2⟩) fun a => (a.extension, a.payload)

structure ErrorStatus where
  message : String
  code : ErrorCode
  unsupported : List UInt32
  app : Option AppError
deriving DecidableEq, Repr

namespace ErrorStatus

def plain (code : ErrorCode) (message : String) : ErrorStatus := ⟨message, code, [], none⟩

/-- The answer to a call that needs features the server lacks. -/
def lacking (features : List UInt32) : ErrorStatus :=
  ⟨"server does not support required application features", .invalidRequest, features, none⟩

def application (extension : Int32) (message : String) (payload : Bytes) : ErrorStatus :=
  ⟨message, .applicationError, [], some ⟨extension, payload⟩⟩

def text (s : ErrorStatus) : String :=
  s!"{s.code.name}: {s.message}" ++
    if s.unsupported.isEmpty then ""
    else
      " (unsupported features: " ++ Text.list (s.unsupported.map fun f => toString f.toNat) ++ ")"

def codec : Codec ErrorStatus :=
  (Codec.string.pair
    (ErrorCode.codec.pair (Codec.pair (.list .word32) (.option AppError.codec)))).map
    (fun v => ⟨v.1, v.2.1, v.2.2.1, v.2.2.2⟩) fun s => (s.message, s.code, s.unsupported, s.app)

end ErrorStatus

end OnceOnly
