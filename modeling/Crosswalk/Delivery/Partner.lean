/-
  Crosswalk.Delivery.Partner
  ──────────────────────────────────────
  **WHO ENCRYPTS AND FORWARDS.**

  An encryptor and a forwarder may be there or not.  Each answers or fails
  with a reason.  The calls that are made to them are kept in their order.
-/
import Crosswalk.Delivery.Plan

namespace Crosswalk.Delivery

/-- A message to encrypt. -/
structure Plaintext where
  content : Text
  cipher : Cipher
  key : Option Text
  deriving DecidableEq, Repr

/-- A message to forward.  Times are in milliseconds. -/
structure Parcel where
  endpoint : Text
  body : Text
  apiKey : Option Text
  connectTime : Nat
  readTime : Nat
  deriving DecidableEq, Repr

/-- A call to an encryptor or to a forwarder. -/
inductive Call
  | encrypt (p : Plaintext)
  | forward (p : Parcel)
  deriving DecidableEq, Repr

/-- Encrypts a message, or fails with a reason. -/
abbrev Encryptor := Plaintext → Except Text Text

/-- Forwards a message and gives the answer of the other side, or fails with a reason. -/
abbrev Forwarder := Parcel → Except Text Text

/-- The partners that are there. -/
structure Partners where
  encryptor : Option Encryptor
  forwarder : Option Forwarder

/-- Nobody encrypts or forwards. -/
def Partners.none : Partners :=
  ⟨.none, .none⟩

end Crosswalk.Delivery
