/-
The client of a request that comes through proxies (`clientip/clientip.go`).
A request is its `RemoteAddr` and the values of its `X-Forwarded-For`
lines, in order.
-/
import Tokyo3Base.Go.NetIP
import Tokyo3Base.Go.Strings

namespace Tokyo3Base.ClientIP

open Go NetIP

def comma : UInt8 := 0x2c

structure Extractor where
  trusted : List IPNet

structure Request where
  remoteAddr : GoString
  forwardedFor : List GoString
deriving DecidableEq

def Extractor.isTrusted (e : Extractor) (ip : GoString) : Bool :=
  match parseIP ip with
  | none => false
  | some parsed => e.trusted.any fun n => n.contains parsed

def hostOnly (remoteAddr : GoString) : GoString :=
  match splitHostPort remoteAddr with
  | some (host, _) => host
  | none => remoteAddr

def canonical (host : GoString) : GoString :=
  match parseAddr host with
  | none => host
  | some addr => addr.unmap.string

/-- The loop of `FromRequest`, over the hops from the last on. -/
def Extractor.scan (e : Extractor) (peer : GoString) :
    List GoString → GoString
  | [] => peer
  | part :: parts =>
      let ip := trimSpace part
      if parseIP ip = none then peer
      else if !e.isTrusted ip then canonical ip
      else e.scan peer parts

def Extractor.fromRequest (e : Extractor) (r : Request) : GoString :=
  let peer := canonical (hostOnly r.remoteAddr)
  if e.trusted.length = 0 ∨ !e.isTrusted peer then peer
  else
    let xff := join comma r.forwardedFor
    if xff = [] then peer
    else e.scan peer (split comma xff).reverse

def Extractor.hasTrustedProxies (e : Extractor) : Bool :=
  decide (0 < e.trusted.length)

def Extractor.isTrustedPeer (e : Extractor) (r : Request) : Bool :=
  e.hasTrustedProxies && e.isTrusted (canonical (hostOnly r.remoteAddr))

end Tokyo3Base.ClientIP
