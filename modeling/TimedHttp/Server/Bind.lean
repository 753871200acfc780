import TimedHttp.Net.SocketAddress

/-!
# Binding

A server is bound to a socket address given as text.
-/

namespace TimedHttp

/-- **Bind error**: the text is no socket address. -/
structure BindError where
  address : String
  deriving DecidableEq

/-- What is wrong with a text that is no socket address. -/
def SocketAddress.syntaxFault : String := "invalid socket address syntax"

def BindError.text (e : BindError) : String :=
  "invalid socket address `" ++ e.address ++ "`: " ++ SocketAddress.syntaxFault

/-- The address that a server is bound to. -/
def bind (address : String) : Except BindError SocketAddress :=
  match SocketAddress.parse? address with
  | some parsed => .ok parsed
  | none => .error ⟨address⟩

end TimedHttp
