/-
Who calls `Begin` and `CallbackHandler`.

- A browser that makes its requests one at a time and keeps the last flow
  cookie (`Authenticator.browse`).
- Any number of tabs, and an attacker beside them (`Authenticator.attend`).
  The handlers keep nothing between two requests, so what an interleaving
  can bring about is which cookie comes with which request. Here it is any
  cookie that was ever set, or none: that covers every order of requests
  and responses, and every cookie that was kept or stolen.
-/
import Tokyo3Base.Oidc.Login

namespace Tokyo3Base.Oidc

-- ==== one at a time

/-- The cookie the browser holds after a response. -/
def keepCookie (cookie : Option SealedFlows) :
    Option FlowWrite → Option SealedFlows
  | none => cookie
  | some (.set c) => some c
  | some .clear => none

/-- What a cookie carries. -/
def carried (cookie : Option SealedFlows) : List OidcFlow :=
  (cookie.map SealedFlows.flows).getD []

/-- The browser. The logins it started, oldest first, are there for the
statements only. -/
structure Browser where
  cookie : Option SealedFlows
  started : List OidcFlow

def Browser.init : Browser := ⟨none, []⟩

/-- One request and its response. -/
inductive BrowserEvent where
  | begin (b : BeginCall)
  | callback (now : Int) (q : CallbackQuery) (w : CallbackWorld)

def Authenticator.browse (a : Authenticator) (e : BrowserEvent)
    (s : Browser) : Option Browser :=
  match e with
  | .begin b =>
      some { cookie := keepCookie s.cookie (a.begin s.cookie b).1
             started := s.started ++ [a.newFlow b] }
  | .callback now q w =>
      some { s with
        cookie := keepCookie s.cookie (a.callback s.cookie now q w).1 }

-- ==== anybody

/-- A login that was handed over: the callback, and how many `Begin`s
came before it. -/
structure Handover where
  now : Int
  query : CallbackQuery
  completion : Completion
  before : Nat

/-- Every flow cookie ever set, and, for the statements only, the
`Begin`s in their order and the logins handed over. -/
structure Attended where
  issued : List SealedFlows
  begun : List BeginCall
  handed : List Handover

def Attended.init : Attended := ⟨[], [], []⟩

/-- One request, with the number of the cookie it brings. A number that
was never issued stands for a forged cookie. -/
inductive AttendedEvent where
  | begin (cookie : Option Nat) (b : BeginCall)
  | callback (cookie : Option Nat) (now : Int) (q : CallbackQuery)
      (w : CallbackWorld)

/-- The cookie that a request brings. -/
def Attended.brought (s : Attended) (cookie : Option Nat) :
    Option SealedFlows :=
  cookie.bind fun i => s.issued[i]?

/-- The cookies issued, with those of a response. -/
def Attended.issue (s : Attended) : Option FlowWrite → List SealedFlows
  | some (.set c) => s.issued ++ [c]
  | _ => s.issued

def Authenticator.attend (a : Authenticator) (e : AttendedEvent)
    (s : Attended) : Option Attended :=
  match e with
  | .begin cookie b =>
      some { s with
        issued := s.issue (a.begin (s.brought cookie) b).1
        begun := s.begun ++ [b] }
  | .callback cookie now q w =>
      let r := a.callback (s.brought cookie) now q w
      some { s with
        issued := s.issue r.1
        handed :=
          match r.2 with
          | .completed c => s.handed ++ [⟨now, q, c, s.begun.length⟩]
          | _ => s.handed }

end Tokyo3Base.Oidc
