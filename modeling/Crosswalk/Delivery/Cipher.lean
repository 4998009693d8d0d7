/-
  Crosswalk.Delivery.Cipher
  ──────────────────────────────────────
  **CIPHERS.**

  A cipher is known by its tag, which is read without regard to white space
  around it and to the case of ASCII letters.
-/
import Crosswalk.Text.Basic

namespace Crosswalk.Delivery

/-- What a message is encrypted with. -/
inductive Cipher
  /-- A symmetric cipher. -/
  | aes
  /-- Encryption to a public key. -/
  | pgp
  deriving DecidableEq, Repr

/-- A text that is the tag of no cipher, in the form in which it was looked up. -/
structure UnknownCipher where
  tag : Text
  deriving DecidableEq, Repr

/-- The wording of an unknown cipher. -/
def UnknownCipher.message (u : UnknownCipher) : Text :=
  "unknown encryption type '".toList ++ u.tag ++ ['\'']

namespace Cipher

/-- The tag of a cipher. -/
def tag : Cipher → Text
  | aes => "AES".toList
  | pgp => "PGP".toList

/-- The cipher with the tag. -/
def ofTag (s : Text) : Except UnknownCipher Cipher :=
  let wanted := Text.upperAscii (Text.trim s)
  match [aes, pgp].find? (·.tag = wanted) with
  | some c => .ok c
  | none => .error ⟨wanted⟩

end Cipher

end Crosswalk.Delivery
