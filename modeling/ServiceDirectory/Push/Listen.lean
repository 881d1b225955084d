import ServiceDirectory.Net.Address

/-!
# Listening for pushes

The push listener is bound to an address in numbers that belongs to this
machine. Which ones do is for the machine to say.
-/

namespace ServiceDirectory.Push

/-- The address cannot be listened on. -/
structure BindError where
  address : String
  deriving DecidableEq

def BindError.message (e : BindError) : String := "Failed to bind push listener to " ++ e.address

/-- The address that a listener is bound to; port zero leaves the choice of a port open. -/
def bind (isLocal : Net.Host → Bool) (address : String) : Except BindError Net.SocketAddress :=
  match Net.SocketAddress.parse? address with
  | some a => if isLocal a.host then .ok a else .error ⟨address⟩
  | none => .error ⟨address⟩

end ServiceDirectory.Push
