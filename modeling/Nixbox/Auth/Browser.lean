/-
A browser with its cookie: it keeps the session cookie for Max-Age from the response that set it,
while the server pushes the deadline of the session's row out at the requests that come in.
-/
import Nixbox.Lib.Runs
import Nixbox.Auth.Redirect

namespace Nixbox.Auth

open Effect Prog

/-! ## The browser -/

/-- The `MaxAge` of the cookie: `sessionTTL` in whole seconds. -/
def maxAge : Time := sessionTTL / second * second

theorem maxAge_eq : maxAge = sessionTTL := by decide

/-- The server, and the jar of one browser: the token and when it is dropped. -/
structure Browser where
  server : State
  jar : Option (String × Time)

/-- What happens next: time goes by, the browser sends a request, or someone else does. -/
inductive Visit
  | wait (d : Nat)
  | send (r : Request)
  | other (r : Request)

namespace Browser

variable (srv : Server) (b : Browser)

/-- The cookie the browser still has. -/
def cookie : Option String := b.jar.bind fun c => if b.server.time < c.2 then some c.1 else none

/-- The request as the browser sends it. -/
def sent (r : Request) : Request := { r with cookie := b.cookie }

/-- What the server answers the request. -/
def answer (r : Request) : Response := ((serve srv (b.sent r)).run b.server).1

/-- The jar after a response: only the one of a login sets the cookie, that of a logout deletes it. -/
def jarAfter (a : Response) : Option (String × Time) :=
  match a with
  | .loggedIn token _ => some (token, b.server.time + maxAge)
  | .loggedOut _ => none
  | _ => b.jar

/-- The browser after a request. -/
def visit (r : Request) : Browser := ⟨((serve srv (b.sent r)).run b.server).2, b.jarAfter (b.answer srv r)⟩

/-- One step of the browser, of another client or of the clock. -/
def step (b : Browser) : Visit → Option Browser
  | .wait d => some { b with server.time := b.server.time + d }
  | .send r => some (b.visit srv r)
  | .other r => some { b with server := ((serve srv r).run b.server).2 }

end Browser

/-! ## The properties of a run -/

/-- The request posts the logout form. -/
def Request.logsOut (r : Request) : Bool := r.method == .post && r.path == "/logout"

/-- The visit does not log the session of the jar out. -/
def StaysIn (srv : Server) (b : Browser) : Visit → Prop
  | .wait _ => True
  | .send r => r.logsOut = false
  | .other r => r.logsOut = true → ∀ token e, b.jar = some (token, e) →
      r.cookie.map srv.hashToken ≠ some (srv.hashToken token)

/-- A request of the browser to a route behind the gate is answered to a user. -/
def Served (srv : Server) (b : Browser) : Visit → Prop
  | .send r => publicPath r.path = false → ∃ username, b.answer srv r = .page username
  | _ => True

/-- A request of the browser to a route behind the gate comes within Max-Age of the last response
that set the cookie. -/
def WithinMaxAge (b : Browser) : Visit → Prop
  | .send r => publicPath r.path = false → ∃ token e, b.jar = some (token, e) ∧ b.server.time < e
  | _ => True

/-- No more than `sessionTTL - sessionTouchAfter` passes from one request behind the gate to the
next; `since` has passed since the last. -/
def Frequent (since : Time) : List Visit → Prop
  | [] => True
  | .wait d :: vs => since + d ≤ sessionTTL - sessionTouchAfter ∧ Frequent (since + d) vs
  | .send r :: vs => Frequent (if publicPath r.path then since else 0) vs
  | .other _ :: vs => Frequent since vs

/-! ## The row of a session -/

section Row

variable {h : String} {e t : Time} {s : State}

/-- The session of the hash `h` is good until `e` at least. -/
def Live (h : String) (e : Time) (s : State) : Prop := ∃ row ∈ s.sessions, row.tokenHash = h ∧ e ≤ row.expiresAt

/-- The calls that leave a session good until `e`. -/
def Sparing (h : String) (e : Time) : ∀ {β : Type}, Op β → Prop
  | _, .touchSession hash e' => hash = h → e ≤ e'
  | _, .deleteSession hash => hash ≠ h
  | _, .deleteExpiredSessions now => now < e
  | _, _ => True

theorem live_exec {β : Type} {op : Op β} (hop : Sparing h e op) (hs : s.time = t ∧ Live h e s) :
    (Calls.exec op s).2.time = t ∧ Live h e (Calls.exec op s).2 := by
  obtain ⟨ht, row, hrow, hh, he⟩ := hs
  cases op with
  | createSession hash username e' =>
    show (State.exec _ s).2.time = t ∧ Live h e (State.exec _ s).2
    unfold State.exec
    dsimp only
    split
    · rename_i hc
      exact ⟨ht, row, (Sessions.mem_create hc).2 (.inl hrow), hh, he⟩
    · exact ⟨ht, row, hrow, hh, he⟩
  | validSession hash now =>
    show (State.exec _ s).2.time = t ∧ Live h e (State.exec _ s).2
    unfold State.exec
    dsimp only
    split <;> exact ⟨ht, row, hrow, hh, he⟩
  | touchSession hash e' =>
    refine ⟨ht, ?_⟩
    by_cases hhash : hash = h
    · exact ⟨_, Sessions.mem_touch.2 (.inr ⟨row, hrow, hh.trans hhash.symm, rfl⟩), hh, hop hhash⟩
    · exact ⟨row, Sessions.mem_touch.2 (.inl ⟨hrow, fun heq => hhash (heq.symm.trans hh)⟩), hh, he⟩
  | deleteSession hash =>
    exact ⟨ht, row, Sessions.mem_delete.2 ⟨hrow, fun heq => hop (heq.symm.trans hh)⟩, hh, he⟩
  | deleteExpiredSessions now =>
    have hlate : ¬ row.expiresAt ≤ now := Int.not_le.2 (Int.lt_of_lt_of_le hop he)
    exact ⟨ht, row, Sessions.mem_deleteWhere.2 ⟨hrow, decide_eq_false hlate⟩, hh, he⟩
  | _ => exact ⟨ht, row, hrow, hh, he⟩

/-- What a request keeps: the instant, and a session good until `e`. -/
def Lives (t : Time) (h : String) (e : Time) (s : State) : Prop := s.time = t ∧ Live h e s

/-- A call that spares the session, and then the rest of the program. -/
theorem Lives.then {α β : Type} {op : Op β} {f : β → Prog Op α} {Q : α → State → Prop} (hs : Lives t h e s)
    (hop : Sparing h e op) (hf : ∀ b s', Lives t h e s' → (f b).Ends Q s') : (perform op >>= f).Ends Q s :=
  EndsIf.seq (P := fun _ => Lives t h e) (ends_perform.2 ⟨live_exec hop hs, fun _ _ => hs⟩) hf

/-- The clock is read within the instant of the request. -/
theorem ends_clock {α : Type} {f : Time → Prog Op α} {Q : α → State → Prop} (ht : s.time = t)
    (hf : (f t).Ends Q s) : (perform Op.now >>= f).Ends Q s :=
  ends_bind.2 (ends_perform.2 ⟨by rw [← ht] at hf; exact hf, nofun⟩)

theorem uses_sparing {α : Type} {p : Prog Op α} (hp : p.Uses fun _ op => Sparing h e op) (hs : Lives t h e s) :
    p.Ends (fun _ => Lives t h e) s :=
  Uses.ends (fun _ _ _ hop hs => live_exec hop hs) hp hs

/-! ## What the handlers keep of it -/

variable {srv : Server} {r : Request} {a : Response} {next : String}

theorem loggedIn_uses : (loggedIn srv r).Uses fun _ op => Sparing h e op := by
  unfold loggedIn
  split
  · exact uses_pure _
  · refine uses_bind (uses_perform trivial) fun now => uses_bind (uses_perform trivial) fun found => ?_
    split <;> exact uses_pure _

theorem handleLoginPage_uses : (handleLoginPage srv r).Uses fun _ op => Sparing h e op := by
  unfold handleLoginPage
  split
  · exact uses_pure _
  · refine uses_bind loggedIn_uses fun found => ?_
    split <;> exact uses_pure _

theorem failLogin_uses : (failLogin r next).Uses fun _ op => Sparing h e op :=
  uses_bind (uses_perform trivial) fun _ => uses_pure _

theorem inAllowedGroup_uses {groups ids : List String} :
    (inAllowedGroup groups ids).Uses fun _ op => Sparing h e op := by
  induction ids with
  | nil =>
    unfold inAllowedGroup
    exact uses_pure _
  | cons gid ids ih =>
    refine uses_bind (uses_perform trivial) fun found => ?_
    split
    · exact ih
    · split
      · exact uses_pure _
      · exact ih

theorem authorize_uses {groups : List String} {username : String} :
    (authorize groups username).Uses fun _ op => Sparing h e op := by
  refine uses_bind (uses_perform trivial) fun found => ?_
  split
  · exact uses_pure _
  · split
    · exact uses_pure _
    · refine uses_bind (uses_perform trivial) fun ids => ?_
      split
      · exact uses_pure _
      · refine uses_bind inAllowedGroup_uses fun allowed => ?_
        split <;> exact uses_pure _

/-- A session that is good later than the login sweeps is not swept. -/
theorem startSession_lives (hte : t < e) (hs : Lives t h e s) :
    (startSession srv r next).Ends (fun _ => Lives t h e) s := by
  refine hs.then trivial fun drawn s hs => ?_
  cases drawn with
  | error _ => exact ends_pure.2 hs
  | ok token =>
    refine ends_clock hs.1 ?_
    refine hs.then trivial fun created s hs => ?_
    cases created with
    | error _ => exact ends_pure.2 hs
    | ok _ =>
      refine hs.then trivial fun _ s hs => ?_
      exact hs.then hte fun _ s hs => ends_pure.2 hs

theorem checkLogin_lives (hte : t < e) (hs : Lives t h e s) :
    (checkLogin srv r next).Ends (fun _ => Lives t h e) s := by
  refine hs.then trivial fun checked s hs => ?_
  match checked with
  | .error .badCredentials => exact uses_sparing failLogin_uses hs
  | .error .backend => exact ends_pure.2 hs
  | .ok _ =>
    refine (uses_sparing authorize_uses hs).seq fun allowed s hs => ?_
    match allowed with
    | .error .notAuthorized => exact ends_pure.2 hs
    | .error .failed => exact ends_pure.2 hs
    | .ok _ => exact startSession_lives hte hs

theorem handleLoginSubmit_lives (hte : t < e) (hs : Lives t h e s) :
    (handleLoginSubmit srv r).Ends (fun _ => Lives t h e) s := by
  unfold handleLoginSubmit
  split
  · exact ends_pure.2 hs
  · refine hs.then trivial fun blocked s hs => ?_
    split
    · exact ends_pure.2 hs
    split
    · exact uses_sparing failLogin_uses hs
    · exact checkLogin_lives hte hs

theorem handleLogout_uses (hne : r.cookie.map srv.hashToken ≠ some h) :
    (handleLogout srv r).Uses fun _ op => Sparing h e op := by
  unfold handleLogout
  split
  · exact uses_pure _
  · split
    · exact uses_pure _
    · rename_i c hc
      refine uses_bind (uses_perform fun heq => hne ?_) fun deleted => ?_
      · rw [hc, Option.map_some, heq]
      · split <;> exact uses_pure _

theorem mux_lives (hte : t < e) (hout : r.logsOut = true → r.cookie.map srv.hashToken ≠ some h)
    (hs : Lives t h e s) (username : String) : (mux srv r username).Ends (fun _ => Lives t h e) s := by
  unfold mux
  split
  · exact uses_sparing handleLoginPage_uses hs
  · exact uses_sparing handleLoginPage_uses hs
  · exact handleLoginSubmit_lives hte hs
  · rename_i hmethod hpath
    refine uses_sparing (handleLogout_uses (hout ?_)) hs
    simp [Request.logsOut, hmethod, hpath]
  · exact ends_pure.2 hs

/-- A session touched is good for longer than it was. -/
theorem refresh_lives {sess : Session} (hs : Lives t h e s) (he : sess.tokenHash = h → e ≤ sess.expiresAt) :
    (refresh sess t).Ends (fun _ => Lives t h e) s := by
  unfold refresh
  split
  · rename_i hold
    refine hs.then (fun hh => ?_) fun _ s hs => ends_pure.2 hs
    have hlt : sess.expiresAt - t < sessionTTL :=
      Int.lt_trans hold (Int.sub_lt_self sessionTTL (by decide : (0 : Int) < sessionTouchAfter))
    exact Int.le_trans (he hh) (Int.le_of_lt (Int.lt_add_of_sub_left_lt hlt))
  · exact ends_pure.2 hs

theorem ends_validSession {hash : String} {now : Time} (hs : Lives t h e s) :
    (perform (Op.validSession hash now)).Ends (fun found s' => Lives t h e s' ∧
      ∀ sess, found = .ok sess → sess.tokenHash = h → e ≤ sess.expiresAt) s := by
  refine ends_perform.2 ⟨⟨live_exec trivial hs, fun sess hfound hh => ?_⟩, fun b hb => ?_⟩
  · change (State.exec _ s).1 = _ at hfound
    unfold State.exec at hfound
    dsimp only at hfound
    split at hfound
    · rename_i row hrow
      cases hfound
      obtain ⟨hmem, -, -⟩ := Sessions.valid_some hrow
      obtain ⟨-, x, hx, hxh, hxe⟩ := hs
      -- the hash is the key of the table
      rw [List.inj_on_of_nodup_map s.sessions.unique hmem hx (hh.trans hxh.symm)]
      exact hxe
    · cases hfound
  · cases hb
    exact ⟨hs, nofun⟩

/-- A request other than a logout of the session leaves it good. -/
theorem serve_lives (hte : t < e) (hout : r.logsOut = true → r.cookie.map srv.hashToken ≠ some h)
    (hs : Lives t h e s) : (serve srv r).Ends (fun _ => Lives t h e) s := by
  unfold serve requireAuth
  split
  · exact hs.then trivial fun _ s hs => mux_lives hte hout hs _
  · split
    · exact ends_pure.2 hs
    · refine ends_clock hs.1 ?_
      refine (ends_validSession hs).seq fun found s hs => ?_
      obtain ⟨hs, hfound⟩ := hs
      match found, hfound with
      | .error .notFound, _ => exact ends_pure.2 hs
      | .error .failed, _ => exact ends_pure.2 hs
      | .ok sess, hfound =>
        refine (refresh_lives hs (hfound sess rfl)).seq fun _ s hs => ?_
        exact hs.then trivial fun _ s hs => mux_lives hte hout hs _

/-! ## A login -/

theorem exec_time {β : Type} (op : Op β) (s : State) : (Calls.exec op s).2.time = s.time := by
  cases op with
  | createSession | validSession =>
    show (State.exec _ s).2.time = s.time
    unfold State.exec
    dsimp only
    split <;> rfl
  | _ => rfl

theorem ends_createSession {username : String} : (perform (Op.createSession h username e)).Ends
    (fun created s' => s'.time = s.time ∧ (created = .ok () → Live h e s')) s := by
  refine ends_perform.2 ⟨⟨exec_time _ s, fun hcreated => ?_⟩, fun b hb => ?_⟩
  · show Live h e (State.exec _ s).2
    change (State.exec _ s).1 = _ at hcreated
    unfold State.exec at hcreated ⊢
    dsimp only at hcreated ⊢
    split at hcreated
    · rename_i rows hc
      exact ⟨_, (Sessions.mem_create hc).2 (.inr rfl), rfl, Int.le_refl _⟩
    · cases hcreated
  · cases hb
    exact ⟨rfl, nofun⟩

/-- The session a login starts is good for `sessionTTL`. -/
def StartsSession (srv : Server) (t : Time) (a : Response) (s : State) : Prop :=
  ∀ token loc, a = .loggedIn token loc → Live (srv.hashToken token) (t + sessionTTL) s

theorem startSession_starts : (startSession srv r next).Ends (StartsSession srv s.time) s := by
  have htime : (perform Op.randomToken).Ends (fun _ s' => s'.time = s.time) s :=
    ends_perform.2 ⟨exec_time _ s, fun _ _ => rfl⟩
  refine htime.seq fun drawn s' ht => ?_
  cases drawn with
  | error _ => exact ends_pure.2 nofun
  | ok token =>
    refine ends_clock ht (ends_createSession.seq fun created u hu => ?_)
    cases created with
    | error _ => exact ends_pure.2 nofun
    | ok _ =>
      have hlives : Lives s.time (srv.hashToken token) (s.time + sessionTTL) u := ⟨hu.1.trans ht, hu.2 rfl⟩
      have hpos : (0 : Int) < sessionTTL := by decide
      refine hlives.then trivial fun _ u hu => hu.then (Int.lt_add_of_pos_right _ hpos) fun _ u hu => ?_
      refine ends_pure.2 fun tok loc ha => ?_
      cases ha
      exact hu.2

theorem checkLogin_starts : (checkLogin srv r next).Ends (StartsSession srv s.time) s := by
  have hauth : (perform (Op.authenticate r.username r.password)).Ends (fun _ s' => s'.time = s.time) s :=
    ends_perform.2 ⟨exec_time _ s, fun _ _ => rfl⟩
  refine hauth.seq fun checked s' ht => ?_
  match checked with
  | .error .badCredentials => exact ends_after fun _ _ => ends_pure.2 nofun
  | .error .backend => exact ends_pure.2 nofun
  | .ok _ =>
    have hgroups : (authorize srv.groups r.username).Ends (fun _ u => u.time = s.time) s' :=
      ends_of_calls (fun _ op u hu => (exec_time op u).trans hu) _ ht
    refine hgroups.seq fun allowed u hu => ?_
    match allowed with
    | .error .notAuthorized => exact ends_pure.2 nofun
    | .error .failed => exact ends_pure.2 nofun
    | .ok _ => exact hu ▸ startSession_starts

theorem handleLoginSubmit_starts : (handleLoginSubmit srv r).Ends (StartsSession srv s.time) s := by
  unfold handleLoginSubmit
  split
  · exact ends_pure.2 nofun
  · have hblocked : (perform (Op.blocked r.clientIP)).Ends (fun _ s' => s'.time = s.time) s :=
      ends_perform.2 ⟨exec_time _ s, fun _ _ => rfl⟩
    refine hblocked.seq fun blocked s' ht => ?_
    split
    · exact ends_pure.2 nofun
    split
    · exact ends_after fun _ _ => ends_pure.2 nofun
    · exact ht ▸ checkLogin_starts

theorem handleLoginPage_starts : (handleLoginPage srv r).Ends (StartsSession srv s.time) s := by
  unfold handleLoginPage
  split
  · exact ends_pure.2 nofun
  · refine ends_after fun found _ => ?_
    split <;> exact ends_pure.2 nofun

theorem handleLogout_starts : (handleLogout srv r).Ends (StartsSession srv s.time) s := by
  unfold handleLogout
  split
  · exact ends_pure.2 nofun
  · split
    · exact ends_pure.2 nofun
    · refine ends_after fun deleted _ => ?_
      split <;> exact ends_pure.2 nofun

theorem mux_starts (username : String) : (mux srv r username).Ends (StartsSession srv s.time) s := by
  unfold mux
  split
  · exact handleLoginPage_starts
  · exact handleLoginPage_starts
  · exact handleLoginSubmit_starts
  · exact handleLogout_starts
  · exact ends_pure.2 nofun

theorem deny_ne_loggedIn {token loc : String} : denyUnauthenticated srv r ≠ .loggedIn token loc := by
  unfold denyUnauthenticated
  split
  · nofun
  split
  · nofun
  split <;> nofun

theorem serve_starts : (serve srv r).Ends (StartsSession srv s.time) s := by
  have hmux : ∀ u s', s'.time = s.time → (serveHTTP (mux srv r) u).Ends (StartsSession srv s.time) s' :=
    fun u s' ht => (ends_perform.2 ⟨exec_time _ s', fun _ _ => rfl⟩ :
      (perform (Op.serveHTTP u)).Ends (fun _ v => v.time = s'.time) s').seq fun _ v hv =>
        (hv.trans ht) ▸ mux_starts u
  unfold serve requireAuth
  split
  · exact hmux _ s rfl
  · split
    · exact ends_pure.2 fun _ _ ha => absurd ha deny_ne_loggedIn
    · refine ends_clock rfl ?_
      have hvalid : ∀ hash, (perform (Op.validSession hash s.time)).Ends (fun _ s' => s'.time = s.time) s :=
        fun hash => ends_perform.2 ⟨exec_time _ s, fun _ _ => rfl⟩
      refine (hvalid _).seq fun found s' ht => ?_
      match found with
      | .error .notFound => exact ends_pure.2 fun _ _ ha => absurd ha deny_ne_loggedIn
      | .error .failed => exact ends_pure.2 nofun
      | .ok sess =>
        have hrefresh : (refresh sess s.time).Ends (fun _ u => u.time = s.time) s' :=
          ends_of_calls (fun _ op u hu => (exec_time op u).trans hu) _ ht
        exact hrefresh.seq fun _ u hu => hmux _ u hu

/-! ## The gate -/

theorem deny_ne_page {username : String} : denyUnauthenticated srv r ≠ .page username := by
  unfold denyUnauthenticated
  split
  · nofun
  split
  · nofun
  split <;> nofun

theorem mux_page (hpath : publicPath r.path = false) (hout : r.logsOut = false) (username : String) :
    mux srv r username = pure (.page username) := by
  have hlogin : r.path ≠ "/login" := by
    intro heq
    rw [heq] at hpath
    exact absurd hpath (by decide)
  unfold mux
  split
  · rename_i h; exact absurd h hlogin
  · rename_i h; exact absurd h hlogin
  · rename_i h; exact absurd h hlogin
  · rename_i hm h
    simp [Request.logsOut, hm, h] at hout
  · rfl

/-- A request with the cookie of a live session is served to its user. -/
theorem serve_page (hauthn : srv.authn = true) (hpath : publicPath r.path = false) (hout : r.logsOut = false)
    {c : String} (hc : r.cookie = some c) (hlive : Live (srv.hashToken c) e s) (he : s.time < e) :
    ∃ username, ((serve srv r).run s).1 = .page username := by
  obtain ⟨row, hrow, hh, hle⟩ := hlive
  have hvalid : ∃ sess, s.sessions.valid (srv.hashToken c) s.time = some sess := by
    refine Option.isSome_iff_exists.1 (List.find?_isSome.2 ⟨row, hrow, ?_⟩)
    rw [Bool.and_eq_true, beq_iff_eq, decide_eq_true_eq]
    exact ⟨hh, Int.lt_of_lt_of_le he hle⟩
  obtain ⟨sess, hsess⟩ := hvalid
  refine ⟨sess.username, ?_⟩
  have hgate : (!srv.authn || publicPath r.path) = false := by rw [hauthn, hpath]; rfl
  have hexec : Calls.exec (Op.validSession (srv.hashToken c) s.time) s = (.ok sess, s) := by
    show State.exec _ s = _
    unfold State.exec
    dsimp only
    rw [hsess]
  unfold serve requireAuth
  rw [hgate, if_neg Bool.false_ne_true, hc]
  dsimp only
  rw [run_bind, run_perform]
  show (Prog.run (perform (Op.validSession (srv.hashToken c) s.time) >>= _) s).1 = _
  rw [run_bind, run_perform, hexec]
  dsimp only
  rw [run_bind, serveHTTP, run_bind, mux_page hpath hout, run_pure]

/-- Without a cookie it is refused. -/
theorem serve_denied (hauthn : srv.authn = true) (hpath : publicPath r.path = false) (hc : r.cookie = none) :
    ((serve srv r).run s).1 = denyUnauthenticated srv r := by
  have hgate : (!srv.authn || publicPath r.path) = false := by rw [hauthn, hpath]; rfl
  unfold serve requireAuth
  rw [hgate, if_neg Bool.false_ne_true, hc]
  rfl

end Row

/-! ## Runs of the browser -/

namespace Browser

variable {srv : Server} {b b' : Browser} {v : Visit} {vs : List Visit}

/-- While the browser has the cookie the session is good. -/
def Sound (srv : Server) (b : Browser) : Prop :=
  ∀ token e, b.jar = some (token, e) → b.server.time < e → Live (srv.hashToken token) e b.server

theorem run_ends {r : Request} {s : State} {Q : Response → State → Prop} (h : (serve srv r).Ends Q s) :
    Q ((serve srv r).run s).1 ((serve srv r).run s).2 := by
  have hq := h.runWith []
  rwa [runWith_nil] at hq

theorem serve_time (srv : Server) (r : Request) (s : State) : ((serve srv r).run s).2.time = s.time :=
  run_ends (ends_of_calls (fun _ op u hu => (exec_time op u).trans hu) _ rfl)

/-- After a login the browser has the cookie of a session that is good for Max-Age. -/
theorem sound_login {r : Request} {token loc : String} (ha : b.answer srv r = .loggedIn token loc) :
    (b.visit srv r).Sound srv := by
  intro tok e hjar _
  have hserve : (serve srv (b.sent r)).Ends (StartsSession srv b.server.time) b.server := serve_starts
  have hstarts := run_ends hserve token loc ha
  change b.jarAfter (b.answer srv r) = _ at hjar
  rw [ha] at hjar
  cases hjar
  rw [maxAge_eq]
  exact hstarts

theorem sound_serve {r : Request} (h : b.Sound srv)
    (hout : r.logsOut = true → ∀ token e, b.jar = some (token, e) →
      r.cookie.map srv.hashToken ≠ some (srv.hashToken token)) :
    ({ b with server := ((serve srv r).run b.server).2 } : Browser).Sound srv := by
  intro token e hjar hlt
  have hlt' : b.server.time < e := serve_time srv r b.server ▸ hlt
  exact (run_ends (serve_lives (t := b.server.time) hlt' (fun ho => hout ho token e hjar)
    ⟨rfl, h token e hjar hlt'⟩)).2

theorem sound_step (h : b.Sound srv) (hv : StaysIn srv b v) (hs : b.step srv v = some b') : b'.Sound srv := by
  cases v with
  | wait d =>
    cases hs
    intro token e hjar hlt
    exact h token e hjar (Int.lt_of_le_of_lt (Int.le_add_of_nonneg_right (Int.natCast_nonneg d)) hlt)
  | other r =>
    cases hs
    exact sound_serve h hv
  | send r =>
    cases hs
    cases ha : b.answer srv r with
    | loggedIn token loc => exact sound_login ha
    | loggedOut loc =>
      intro token e hjar
      change b.jarAfter (b.answer srv r) = _ at hjar
      rw [ha] at hjar
      cases hjar
    | _ =>
      have hkept := sound_serve (r := b.sent r) h fun ho => by
        rw [show (b.sent r).logsOut = r.logsOut from rfl, hv] at ho
        cases ho
      intro token e hjar
      change b.jarAfter (b.answer srv r) = _ at hjar
      rw [ha] at hjar
      exact hkept token e hjar

theorem served_iff (hauthn : srv.authn = true) (h : b.Sound srv) (hv : StaysIn srv b v) :
    Served srv b v ↔ WithinMaxAge b v := by
  cases v with
  | wait d => exact Iff.rfl
  | other r => exact Iff.rfl
  | send r =>
    refine imp_congr_right fun hpath => ⟨?_, ?_⟩
    · rintro ⟨username, ha⟩
      by_contra hold
      have hnone : b.cookie = none := by
        unfold cookie
        cases hjar : b.jar with
        | none => rfl
        | some c => exact if_neg fun hlt => hold ⟨c.1, c.2, hjar, hlt⟩
      have hdeny : b.answer srv r = _ := serve_denied hauthn (r := b.sent r) hpath hnone
      rw [hdeny] at ha
      exact deny_ne_page ha
    · rintro ⟨token, e, hjar, hlt⟩
      refine serve_page hauthn (r := b.sent r) hpath hv ?_ (h token e hjar hlt) hlt
      show b.cookie = _
      unfold cookie
      rw [hjar]
      exact if_pos hlt

/-- After a login, in a run without a logout, the requests behind the gate are all served to a user
exactly if each comes within Max-Age of the last response that set the cookie: the server pushes
the deadline of its row out, but not the browser's. -/
theorem session_slides {r : Request} {token loc : String} (hauthn : srv.authn = true)
    (hlogin : b.answer srv r = .loggedIn token loc)
    (hstay : Runs.Along (step srv) (StaysIn srv) (b.visit srv r) vs) :
    Runs.Along (step srv) (Served srv) (b.visit srv r) vs ↔
      Runs.Along (step srv) WithinMaxAge (b.visit srv r) vs := by
  have hall : Runs.Along (step srv) (fun b v => Served srv b v ↔ WithinMaxAge b v) (b.visit srv r) vs :=
    Runs.along_of_inv (fun _ _ _ hv h hs => sound_step h hv hs) (fun _ _ hv h => served_iff hauthn h hv) hstay
      (sound_login hlogin)
  exact ⟨fun h => (h.and hall).mono fun _ _ hv => hv.2.1 hv.1,
    fun h => (h.and hall).mono fun _ _ hv => hv.2.2 hv.1⟩

/-- A page behind the gate. -/
def pageRequest : Request := ⟨.get, "/workloads", "/workloads", none, false, false, "192.0.2.1", "", "", ""⟩

/-- Six days in nanoseconds. -/
def sixDays : Nat := 518400000000000

/-- A request every six days, `n` times. -/
def everySixDays (n : Nat) : List Visit := (List.replicate n [.wait sixDays, .send pageRequest]).flatten

/-- The browser once alice has logged in. -/
def aliceIn : Browser := (⟨exampleState, none⟩ : Browser).visit exampleServer (loginRequest "pw" "/")

theorem staysIn_everySixDays (n : Nat) (b : Browser) :
    Runs.Along (step exampleServer) (StaysIn exampleServer) b (everySixDays n) := by
  refine Runs.along_iff.2 fun pre v post b' hv _ => ?_
  have hmem : v ∈ everySixDays n := hv ▸ List.mem_append_right pre (List.mem_cons_self ..)
  obtain ⟨l, hl, hv⟩ := List.mem_flatten.1 hmem
  rw [List.eq_of_mem_replicate hl] at hv
  rcases List.mem_pair.1 hv with rfl | rfl
  · exact trivial
  · exact (by decide : pageRequest.logsOut = false)

theorem session_slides_once :
    Runs.Along (step exampleServer) (Served exampleServer) aliceIn (everySixDays 1) ↔
      Runs.Along (step exampleServer) WithinMaxAge aliceIn (everySixDays 1) :=
  session_slides (b := ⟨exampleState, none⟩) (r := loginRequest "pw" "/") rfl
    (by decide +kernel : _ = Response.loggedIn "a" "/") (staysIn_everySixDays 1 aliceIn)

/-- The browser after the login, with a request on the sixth day and one on the twelfth. -/
def afterTwelveDays : Browser :=
  (Runs.exec (step exampleServer) aliceIn [.wait sixDays, .send pageRequest, .wait sixDays]).get (by decide +kernel)

/-- The second request is refused: the browser has dropped the cookie, which no response has set
since the login. -/
theorem session_not_sliding : ¬ ∀ (srv : Server) (b : Browser) (r : Request) (token loc : String) (vs : List Visit),
    srv.authn = true → b.answer srv r = .loggedIn token loc →
    Runs.Along (step srv) (StaysIn srv) (b.visit srv r) vs → Frequent 0 vs →
      Runs.Along (step srv) (Served srv) (b.visit srv r) vs := by
  intro h
  have hserved := h exampleServer ⟨exampleState, none⟩ (loginRequest "pw" "/") "a" "/" (everySixDays 2) rfl
    (by decide +kernel) (staysIn_everySixDays 2 _) ⟨by decide, by decide, trivial⟩
  have hsplit : everySixDays 2 = [.wait sixDays, .send pageRequest, .wait sixDays] ++ .send pageRequest :: [] := rfl
  rw [hsplit] at hserved
  have hlast : Served exampleServer afterTwelveDays (.send pageRequest) := hserved.at (Option.some_get _).symm
  obtain ⟨username, ha⟩ := hlast (by decide)
  have hdeny : afterTwelveDays.answer exampleServer pageRequest =
      denyUnauthenticated exampleServer (afterTwelveDays.sent pageRequest) := by decide +kernel
  exact deny_ne_page (hdeny.symm.trans ha)

end Browser

end Nixbox.Auth
