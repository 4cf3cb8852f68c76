/-
Minting a logout token (`auth/jwt/logout_token.go`): the payload that
`MintLogoutToken` signs.

golang-jwt writes the audience as a list and a `NumericDate` as whole
seconds, rounded down. The signature itself, and the key identifier in the
header, are not modelled: what is signed with the published key verifies.
-/
import Tokyo3Base.Go.Time
import Tokyo3Base.Go.Unmarshal

namespace Tokyo3Base.Jwt

open Go

/-- A `Signer`, as far as the payload goes. -/
structure Signer where
  issuer : GoString

def backchannelLogoutEventURI : GoString :=
  ascii "http://schemas.openid.net/event/backchannel-logout"

def logoutTokenTTL : Int := 2 * minute

/-- The text of a fresh UUID: hexadecimal digits and hyphens. -/
abbrev UUID := { s : GoString // s.length = 36 ∧ ∀ b ∈ s, b < 0x80 }

/-- The times that a token can be minted at: seconds from year 1 on are an
`int64`, also when the token expires. -/
abbrev MintTime := { m : Int //
  minDuration ≤ m / second ∧ (m + logoutTokenTTL) / second ≤ maxDuration }

/-- A `NumericDate`, marshalled. -/
def numericDate (t : Int) : Json := .num (formatInt (wrap (unix t)))

/-- The payload of `MintLogoutToken`; `uuid` is the fresh identifier, used
if the caller gives none. -/
def Signer.mintLogoutToken (s : Signer) (audience sub sid jti : GoString)
    (uuid : UUID) (now : MintTime) : Members :=
  let jti := if jti = [] then uuid.val else jti
  encodeStruct [
    (ascii "iss", encodeNonempty s.issuer),
    (ascii "sub", encodeNonempty sub),
    (ascii "aud", some (.arr [encodeString audience])),
    (ascii "exp", some (numericDate (now.val + logoutTokenTTL))),
    (ascii "iat", some (numericDate now.val)),
    (ascii "jti", encodeNonempty jti),
    (ascii "sid", encodeNonempty sid),
    (ascii "events", some (.obj [(backchannelLogoutEventURI, .obj [])]))]

end Tokyo3Base.Jwt
