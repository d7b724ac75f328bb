import OnceOnly.Wire.Body
import OnceOnly.Wire.Headers

/-!
A response as its caller sees it: the header, the message, the sidecars. The message of an error
response is an encoded status.
-/

namespace OnceOnly

structure Response where
  header : ResponseHeader
  message : Bytes
  sidecars : List Bytes
deriving DecidableEq, Repr

namespace Response

/-- Reads a whole response frame. -/
def parse (bs : Bytes) (limit : Nat) : Except Problem Response := do
  let frame ← Frame.parse ResponseHeader.codec bs limit
  let layout ← Body.layout frame frame.header.sidecarOffsets
  pure ⟨frame.header, layout.message.of bs, layout.sidecars.map (·.of bs)⟩

def isSuccess (r : Response) : Bool := !r.header.isError

def callId (r : Response) : Int32 := r.header.callId

/-- The status that an error response carries. -/
def errorStatus (r : Response) : Except Problem ErrorStatus :=
  if r.isSuccess then .error (.illegalState (.notAnError r.callId))
  else
    match ErrorStatus.codec.value r.message with
    | .error e => .error (.codec e)
    | .ok status => .ok status

def sidecar (r : Response) (index : Nat) : Except Problem Bytes :=
  match r.sidecars[index]? with
  | some s => .ok s
  | none => .error (.sidecarOutOfRange index r.sidecars.length)

end Response

end OnceOnly
