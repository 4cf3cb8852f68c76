/-
The check of a peer's chain (`tls/tls.go`, and `fallbackServerName` of
`tls/reloader/loader.go`).

`X509` has what the standard library decides: whether two PEM texts are
a key pair, which certificates a bundle has, and whether a chain leads
to one of the roots and is for a host.
-/
import Tokyo3Base.Go.Bytes

namespace Tokyo3Base.Tls

open Go

-- ==== x509

/-- `crypto/tls` and `crypto/x509`: `C` is a certificate with its key,
`P` a pool of roots, `X` a certificate of a peer. -/
structure X509 (C P X : Type) where
  keyPair : GoString → GoString → Except GoString C
  /-- `AppendCertsFromPEM` on an empty pool; `none` is false -/
  appendCerts : GoString → Option P
  systemRoots : Except GoString P
  /-- `Certificate.Verify`: roots, leaf, intermediates, host; `none` is
  success -/
  verify : P → X → List X → GoString → Option GoString

variable {C P X : Type}

/-- The fields of a `tls.ConnectionState` that are read. -/
structure ConnectionState (X : Type) where
  serverName : GoString
  peerCertificates : List X

/-- `VerifyPeerChain`; `none` is success. -/
def verifyPeerChain (x : X509 C P X) (roots : Option P)
    (cs : ConnectionState X) : Option GoString :=
  match roots with
  | none => some (ascii "no CA pool loaded")
  | some roots =>
      match cs.peerCertificates with
      | [] => some (ascii "peer presented no certificates")
      | leaf :: intermediates =>
          if cs.serverName = [] then
            some (ascii "no server name to verify the peer against (set tls.Config.ServerName)")
          else x.verify roots leaf intermediates cs.serverName

/-- `fallbackServerName`, on what it passes on. -/
def fallbackServerName (serverName : GoString) (cs : ConnectionState X) :
    ConnectionState X :=
  if cs.serverName = [] then { cs with serverName := serverName } else cs

/-- A chain that passes leads from a certificate of the peer to the
roots, for a host that has a name. -/
theorem verifyPeerChain_eq_none {x : X509 C P X} {roots : Option P}
    {cs : ConnectionState X} (h : verifyPeerChain x roots cs = none) :
    ∃ pool leaf intermediates, roots = some pool
      ∧ cs.peerCertificates = leaf :: intermediates
      ∧ cs.serverName ≠ []
      ∧ x.verify pool leaf intermediates cs.serverName = none := by
  unfold verifyPeerChain at h
  split at h
  · cases h
  · rename_i pool
    split at h
    · cases h
    · rename_i leaf intermediates hpeers
      split at h
      · cases h
      · rename_i hname
        exact ⟨pool, leaf, intermediates, rfl, hpeers, hname, h⟩

def certPoolFromPEM (x : X509 C P X) (pemData : GoString) :
    Except GoString P :=
  match x.appendCerts pemData with
  | none => .error (ascii "no valid certificates found in PEM data")
  | some pool => .ok pool

end Tokyo3Base.Tls
