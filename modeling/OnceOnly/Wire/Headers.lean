import OnceOnly.RequestId
import OnceOnly.Wire.Status

/-!
The headers that precede the body of a request and of a response. Offsets of sidecars count from
the start of the body.
-/

namespace OnceOnly

def RequestId.codec : Codec RequestId :=
  (Codec.string.pair (Codec.int64.pair (Codec.int64.pair .int64))).map
    (fun v => ⟨v.1, v.2.1, v.2.2.1, v.2.2.2⟩)
    fun r => (r.client, r.seq, r.firstIncomplete, r.attempt)

def Method.codec : Codec Method :=
  (Codec.string.pair .string).map (fun v => ⟨v.1, v.2⟩) fun m => (m.service, m.name)

structure RequestHeader where
  callId : Int32
  method : Method
  /-- How long the caller waits; lets a server skip work for callers that are gone. -/
  timeoutMillis : Option UInt32
  /-- Application features that the server must support. -/
  requiredFeatures : List UInt32
  /-- Present on calls that are to take effect once. -/
  requestId : Option RequestId
  sidecarOffsets : List UInt32
deriving DecidableEq, Repr

def RequestHeader.codec : Codec RequestHeader :=
  (Codec.int32.pair (Method.codec.pair (Codec.pair (.option .word32) (Codec.pair (.list .word32)
    (Codec.pair (.option RequestId.codec) (.list .word32)))))).map
    (fun v => ⟨v.1, v.2.1, v.2.2.1, v.2.2.2.1, v.2.2.2.2.1, v.2.2.2.2.2⟩)
    fun h =>
      (h.callId, h.method, h.timeoutMillis, h.requiredFeatures, h.requestId, h.sidecarOffsets)

structure ResponseHeader where
  callId : Int32
  /-- The body holds an error status. -/
  isError : Bool
  sidecarOffsets : List UInt32
deriving DecidableEq, Repr

def ResponseHeader.codec : Codec ResponseHeader :=
  (Codec.int32.pair (Codec.bool.pair (.list .word32))).map (fun v => ⟨v.1, v.2.1, v.2.2⟩)
    fun h => (h.callId, h.isError, h.sidecarOffsets)

end OnceOnly
