import Mathlib.Data.Nat.Notation

/-!
# Session states

The states of a connection, client or server, as `ntrip_common.h` lists them. What else a session
holds is declared next to the functions that use it.
-/

namespace ChilopodCaster

/-- `enum ntrip_session_state`. -/
inductive SessionState
  | init
  | waitHttpMethod
  | waitHttpStatus
  | waitHttpHeader
  | registerSource
  | waitStreamGet
  | waitStreamSource
  | waitCallbackLine
  | waitClientInput
  | waitClientContent
  | waitServerContent
  | waitChunkedContent
  | waitClose
  | forceClose
  | idleClient
  | ntripEnd
  deriving DecidableEq, Repr

end ChilopodCaster
