/-
  rtperrors.h — the error code that several classes of jrtplib share.
-/
import Mathlib.Data.Int.Notation

namespace RayionClient

/-- `ERR_RTP_OUTOFMEM` -/
def outOfMem : ℤ := -1

end RayionClient
