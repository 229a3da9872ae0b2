/-
The gate in front of the routes and the handlers of logging in and out, as programs of calls: what
every request goes through, from the cookie to the answer.
-/
import Nixbox.Auth.State
import Nixbox.Go.Http

namespace Nixbox.Auth

open Effect Prog

/-- What the handlers work with besides their calls: whether there are backends to ask (`s.authn` is
not nil), the groups that may log in, the hash of tokens, and `url.Parse`. -/
structure Server where
  authn : Bool
  groups : List String
  hashToken : String → String
  urlParse : String → Option Go.URL

/-- The methods that are told apart. -/
inductive Method
  | get
  | head
  | post
  | other
  deriving DecidableEq

/-- A request, as far as the gate and these handlers read it. -/
structure Request where
  method : Method
  path : String
  /-- `r.URL.RequestURI()`. -/
  requestURI : String
  /-- The value of the session cookie, if there is one. -/
  cookie : Option String
  /-- `HX-Request` is `true`. -/
  hxRequest : Bool
  /-- `Accept` contains `text/event-stream`. -/
  eventStream : Bool
  /-- `clientIP(r)`. -/
  clientIP : String
  username : String
  password : String
  /-- The form field or query parameter `next`. -/
  next : String

/-- The answers, as far as sessions and redirects go. -/
inductive Response
  /-- What a handler behind the gate answers the user. -/
  | page (username : String)
  | seeOther (location : String)
  /-- Redirected, with the session cookie set. -/
  | loggedIn (token location : String)
  /-- Redirected, with the session cookie deleted. -/
  | loggedOut (location : String)
  | hxRedirect (location : String)
  | unauthenticated
  /-- The login form, with its status, the key of its error line, and `next`. -/
  | loginPage (status : Nat) (msg next : String)
  | internalError
  deriving DecidableEq

/-! ## The gate -/

/-- `publicPath`. -/
def publicPath (path : String) : Bool := path == "/login" || path == "/lang" || Go.hasPrefix path "/static/"

variable (srv : Server) (r : Request)

/-- `http.Redirect(w, r, target, …)`: the Location it sets. -/
def location (target : String) : String := Go.redirect srv.urlParse r.path target

/-- `denyUnauthenticated`: the login page by way of HTMX, a refusal of a stream, or a redirect to the login page. -/
def denyUnauthenticated : Response :=
  if r.hxRequest then .hxRedirect "/login"
  else if r.eventStream then .unauthenticated
  else if r.method = .get ∨ r.method = .head then
    .seeOther (location srv r ("/login?next=" ++ Go.queryEscape r.requestURI))
  else .seeOther (location srv r "/login")

/-- The handler behind the gate is reached. -/
def serveHTTP (next : String → Prog Op Response) (username : String) : Prog Op Response := do
  perform (.serveHTTP username)
  next username

/-- The deadline is pushed out once the session is old enough; a failure is passed over. -/
def refresh (sess : Session) (now : Time) : Prog Op Unit :=
  if sess.expiresAt - now < sessionTTL - sessionTouchAfter then do
    let _ ← perform (.touchSession sess.tokenHash (now + sessionTTL))
    return ()
  else return ()

/-- `requireAuth`, around the handler `next`. -/
def requireAuth (next : String → Prog Op Response) : Prog Op Response :=
  if !srv.authn || publicPath r.path then serveHTTP next ""
  else match r.cookie with
  | none => return denyUnauthenticated srv r
  | some c => do
    let now ← perform .now
    match ← perform (.validSession (srv.hashToken c) now) with
    | .error .notFound => return denyUnauthenticated srv r
    | .error .failed => return .internalError
    | .ok sess => do
      refresh sess now
      serveHTTP next sess.username

/-! ## Who may log in -/

/-- `ErrNotAuthorized`, or any other error of `Authorize`. -/
inductive AuthzErr
  | notAuthorized
  | failed
  deriving DecidableEq

/-- One of the groups with these ids is allowed; an id that resolves to none is passed over. -/
def inAllowedGroup (groups : List String) : List String → Prog Op Bool
  | [] => return false
  | gid :: ids => do
    match ← perform (.lookupGroup gid) with
    | .error _ => inAllowedGroup groups ids
    | .ok name => if name ∈ groups then return true else inAllowedGroup groups ids

/-- `GroupGate.Authorize`. -/
def authorize (groups : List String) (username : String) : Prog Op (Except AuthzErr Unit) := do
  match ← perform (.lookupUser username) with
  | .error _ => return .error .failed
  | .ok u =>
    if u.uid = "0" then return .ok ()
    else match ← perform (.groupIDs u) with
    | .error _ => return .error .failed
    | .ok ids =>
      if ← inAllowedGroup groups ids then return .ok () else return .error .notAuthorized

/-! ## Where a login leads -/

/-- A control character. -/
def isControl (c : Char) : Bool := c.toNat < 0x20 || c.toNat == 0x7f

/-- `isLocalURL`. -/
def isLocalURL (next : String) : Bool :=
  if Go.containsFunc next isControl then false
  else Go.hasPrefix next "/" && !Go.hasPrefix next "//" && !Go.hasPrefix next "/\\"

/-- `safeNext`. -/
def safeNext (next : String) : String := if isLocalURL next then next else "/"

/-! ## Logging in and out -/

/-- `loggedIn`: the request carries a live session. -/
def loggedIn : Prog Op Bool :=
  match r.cookie with
  | none => return false
  | some c => do
    let now ← perform .now
    match ← perform (.validSession (srv.hashToken c) now) with
    | .ok _ => return true
    | .error _ => return false

/-- `handleLoginPage`: the form, or home for a user who is logged in. -/
def handleLoginPage : Prog Op Response :=
  if !srv.authn then return .seeOther (location srv r "/")
  else do
    if ← loggedIn srv r then return .seeOther (location srv r "/")
    else return .loginPage 200 "" (safeNext r.next)

/-- The failure is counted against the client. -/
def failLogin (next : String) : Prog Op Response := do
  perform (.fail r.clientIP)
  return .loginPage 401 "login.failed" next

/-- A login whose user may administer the machine: the session and the cookie. -/
def startSession (next : String) : Prog Op Response := do
  match ← perform .randomToken with
  | .error _ => return .internalError
  | .ok token =>
    let now ← perform .now
    match ← perform (.createSession (srv.hashToken token) r.username (now + sessionTTL)) with
    | .error _ => return .internalError
    | .ok _ =>
      perform (.clear r.clientIP)
      let _ ← perform (.deleteExpiredSessions now)
      return .loggedIn token (location srv r next)

/-- The password, then the groups. -/
def checkLogin (next : String) : Prog Op Response := do
  match ← perform (.authenticate r.username r.password) with
  | .error .badCredentials => failLogin r next
  | .error .backend => return .internalError
  | .ok _ =>
    match ← authorize srv.groups r.username with
    | .error .notAuthorized => return .loginPage 403 "login.denied" next
    | .error .failed => return .internalError
    | .ok _ => startSession srv r next

/-- `handleLoginSubmit`: the limiter first, then what is missing, then the password. -/
def handleLoginSubmit : Prog Op Response :=
  if !srv.authn then return .seeOther (location srv r "/")
  else do
    let next := safeNext r.next
    if ← perform (.blocked r.clientIP) then return .loginPage 429 "login.throttled" next
    else if r.username = "" ∨ r.password = "" then failLogin r next
    else checkLogin srv r next

/-- `handleLogout`: the row is deleted, and then the cookie. -/
def handleLogout : Prog Op Response :=
  if !srv.authn then return .seeOther (location srv r "/")
  else match r.cookie with
  | none => return .loggedOut (location srv r "/login")
  | some c => do
    match ← perform (.deleteSession (srv.hashToken c)) with
    | .error _ => return .internalError
    | .ok _ => return .loggedOut (location srv r "/login")

/-- The routes: those of the login, and the others, which answer the user they are told. -/
def mux (username : String) : Prog Op Response :=
  match r.method, r.path with
  | .get, "/login" => handleLoginPage srv r
  | .head, "/login" => handleLoginPage srv r
  | .post, "/login" => handleLoginSubmit srv r
  | .post, "/logout" => handleLogout srv r
  | _, _ => return .page username

/-- What a request goes through. -/
def serve : Prog Op Response := requireAuth srv r (mux srv r)

end Nixbox.Auth
