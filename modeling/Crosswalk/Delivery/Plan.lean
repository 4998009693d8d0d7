/-
  Crosswalk.Delivery.Plan
  ──────────────────────────────────────
  **WHAT TO DO WITH A MESSAGE.**

  A plan names the route of a message and says whether its translation is
  encrypted, and whether it is forwarded.  Both are asked for apart from what
  they need, so that a plan can ask for what it does not provide.
-/
import Crosswalk.Delivery.Cipher

namespace Crosswalk.Delivery

/-- What to do with a message.  Times are in milliseconds. -/
structure Plan where
  route : Text
  encrypt : Bool
  cipher : Cipher
  key : Option Text
  forward : Bool
  endpoint : Option Text
  apiKey : Option Text
  connectTime : Nat
  readTime : Nat
  deriving DecidableEq, Repr

namespace Plan

/-- Translates, and nothing else. -/
def translateOnly (route : Text) : Plan where
  route := route
  encrypt := false
  cipher := .aes
  key := none
  forward := false
  endpoint := none
  apiKey := none
  connectTime := 5000
  readTime := 30000

/-- Encrypts the translation too. -/
def withEncryption (p : Plan) (cipher : Cipher) (key : Text) : Plan :=
  { p with encrypt := true, cipher := cipher, key := some key }

/-- Forwards the message too. -/
def withForwarding (p : Plan) (endpoint : Text) (apiKey : Option Text) : Plan :=
  { p with forward := true, endpoint := some endpoint, apiKey := apiKey }

/-- Sets the times that forwarding may take. -/
def withTimes (p : Plan) (connectTime readTime : Nat) : Plan :=
  { p with connectTime := connectTime, readTime := readTime }

/-- The endpoint, when it is more than white space. -/
def endpoint? (p : Plan) : Option Text :=
  p.endpoint.filter (fun e => !Text.blank e)

end Plan

end Crosswalk.Delivery
