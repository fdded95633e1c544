import ChatApi.Http.Header
import ChatApi.Http.Status

/-!
# Responses
-/

namespace ChatApi.Http

/-- A response that was read in full. -/
structure Response where
  status : Status
  headers : Headers
  body : ByteArray
  deriving Inhabited

end ChatApi.Http
