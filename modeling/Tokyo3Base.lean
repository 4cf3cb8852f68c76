import Tokyo3Base.Journal.Policy
import Tokyo3Base.Journal.Proofs.Search
import Tokyo3Base.Journal.Proofs.Window
import Tokyo3Base.Journal.Proofs.Replay
import Tokyo3Base.Go.Bytes
import Tokyo3Base.Go.Time
import Tokyo3Base.Lib.Run
import Tokyo3Base.Oidc.Logout
import Tokyo3Base.Oidc.Proofs.LogoutReplay
import Tokyo3Base.Tls.FileValue
import Tokyo3Base.Tls.Proofs.Staleness
import Tokyo3Base.Tls.Concurrent
import Tokyo3Base.Tls.Proofs.Freshness
import Tokyo3Base.Crypto.KeyProviderCache
import Tokyo3Base.Crypto.Proofs.CacheInv
import Tokyo3Base.Crypto.Proofs.CacheSteps
import Tokyo3Base.Crypto.Proofs.ForKey
import Tokyo3Base.Go.Path
import Tokyo3Base.Go.URL
import Tokyo3Base.Session.Clients
import Tokyo3Base.Session.Proofs.Expiry
import Tokyo3Base.Session.Proofs.Sliding
import Tokyo3Base.Go.Proofs.Path
import Tokyo3Base.Go.Proofs.URL
import Tokyo3Base.Session.ReturnTo
import Tokyo3Base.Session.Proofs.ReturnTo
import Tokyo3Base.Journal.Proofs.Resume
import Tokyo3Base.Journal.Proofs.Reset
import Tokyo3Base.Go.Strconv
import Tokyo3Base.Journal.Sse
import Tokyo3Base.Lib.Window
import Tokyo3Base.Journal.Proofs.Sse
import Tokyo3Base.Go.JSON
import Tokyo3Base.Go.Proofs.JSON
import Tokyo3Base.Go.Base64
import Tokyo3Base.Oidc.Login
import Tokyo3Base.Oidc.Browser
import Tokyo3Base.Oidc.Proofs.Flows
import Tokyo3Base.Oidc.Proofs.Binding
import Tokyo3Base.Oidc.Proofs.Tabs
import Tokyo3Base.Lib.Lock
import Tokyo3Base.OidcClient.Cache
import Tokyo3Base.OidcClient.Proofs.Issuer
import Tokyo3Base.OidcClient.Proofs.Rotation
import Tokyo3Base.Api.BearerToken
import Tokyo3Base.Api.Proofs.Flight
import Tokyo3Base.Api.Proofs.Answers
import Tokyo3Base.Api.Proofs.Pacing
import Tokyo3Base.Lib.EventSource
import Tokyo3Base.Journal.Proofs.Framing
import Tokyo3Base.Run.Group
import Tokyo3Base.Run.Proofs.Group
import Tokyo3Base.Lib.Table
import Tokyo3Base.Lib.TokenBucket
import Tokyo3Base.RateLimit.Limiter
import Tokyo3Base.RateLimit.Proofs.Buckets
import Tokyo3Base.RateLimit.Proofs.Window
import Tokyo3Base.SealedCookie.Cookie
import Tokyo3Base.Session.Presented
import Tokyo3Base.Session.Proofs.Admission
import Tokyo3Base.Db.Placeholders
import Tokyo3Base.Lib.PgLexer
import Tokyo3Base.Db.Proofs.Literals
import Tokyo3Base.Db.Proofs.Placeholders
import Tokyo3Base.Go.NetURL
import Tokyo3Base.Db.ConnString
import Tokyo3Base.Lib.ConnInfo
import Tokyo3Base.Db.Proofs.ConnString
import Tokyo3Base.Nats.Redact
import Tokyo3Base.Go.Proofs.Replace
import Tokyo3Base.Nats.Proofs.Redact
import Tokyo3Base.Api.RequestLogger
import Tokyo3Base.Api.RestyLogger
import Tokyo3Base.Api.Proofs.RestyLogger
import Tokyo3Base.OidcClient.Proofs.Lifetime
import Tokyo3Base.OidcClient.DeviceFlow
import Tokyo3Base.OidcClient.Proofs.DeviceFlow
import Tokyo3Base.Go.Unmarshal
import Tokyo3Base.Oidc.Verifier
import Tokyo3Base.Oidc.Proofs.LogoutTimes
import Tokyo3Base.Oidc.Proofs.Tokens
import Tokyo3Base.Jwt.LogoutToken
import Tokyo3Base.Oidc.Proofs.Mint
import Tokyo3Base.Crypto.Envelope
import Tokyo3Base.Crypto.Proofs.Envelope
import Tokyo3Base.Csrf.Token
import Tokyo3Base.Session.Forms
import Tokyo3Base.Session.Proofs.Forms
import Tokyo3Base.ClientIP.Extractor
import Tokyo3Base.ClientIP.Proofs.Forwarded
import Tokyo3Base.Envutil.CIDRList
import Tokyo3Base.Go.Proofs.NetIP
import Tokyo3Base.ClientIP.Proofs.Trust
import Tokyo3Base.Envutil.Proofs.CIDRList
import Tokyo3Base.Session.Proofs.RoundTrip
import Tokyo3Base.Journal.Proofs.Probes
import Tokyo3Base.Journal.Proofs.Ring
import Tokyo3Base.Journal.Limits
import Tokyo3Base.Journal.Proofs.Limits
import Tokyo3Base.OidcClient.Loopback
import Tokyo3Base.OidcClient.Proofs.Loopback
import Tokyo3Base.Journal.Encoded
import Tokyo3Base.Journal.Proofs.Encoded
import Tokyo3Base.Journal.EnsureStream
import Tokyo3Base.Journal.Proofs.EnsureStream
import Tokyo3Base.Db.Proofs.Scan
import Tokyo3Base.Go.Gzip
import Tokyo3Base.Api.ErrorBody
import Tokyo3Base.Go.Proofs.Stream
import Tokyo3Base.Api.Proofs.ErrorBody
import Tokyo3Base.Api.PathParams
import Tokyo3Base.Go.Proofs.Absolute
import Tokyo3Base.Go.Proofs.Insert
import Tokyo3Base.Api.Proofs.PathParams
import Tokyo3Base.Tls.PeerChain
import Tokyo3Base.Tls.Reloader
import Tokyo3Base.Tls.Proofs.Loader
import Tokyo3Base.Tls.Proofs.Reloader
import Tokyo3Base.Tls.Proofs.Serving
import Tokyo3Base.Tls.Proofs.Refresh
import Tokyo3Base.Journal.Delivery
import Tokyo3Base.Journal.Proofs.Delivery
