/-
The order of the calls of a request: what has been asked, and answered how, before each of them.
-/
import Nixbox.Auth.Serve
import Nixbox.Lib.Threads

namespace Nixbox.Auth

open Effect Prog

/-- The calls of one request so far, with their answers. -/
abbrev Trace := List (Exchange Op)

/-- Among these calls is `op`, answered `b`. -/
def Called {β : Type} (l : Trace) (op : Op β) (b : β) : Prop := (⟨op, b⟩ : Exchange Op) ∈ l

/-- The limiter let the client try. -/
def admits (c : Exchange Op) : Bool :=
  match c with
  | ⟨.blocked _, false⟩ => true
  | _ => false

/-- The credentials were wrong. -/
def rejects (c : Exchange Op) : Bool :=
  match c with
  | ⟨.authenticate .., .error .badCredentials⟩ => true
  | _ => false

/-- A session row was to be created. -/
def creates (c : Exchange Op) : Bool :=
  match c with
  | ⟨.createSession .., _⟩ => true
  | _ => false

/-- A failure is counted against a client. -/
def isFail {β : Type} : Op β → Bool
  | .fail _ => true
  | _ => false

/-- The last of the calls satisfies `P`. -/
def lastCall (P : Exchange Op → Bool) (l : Trace) : Bool := l.getLast?.any P

/-- The user is root or in an allowed group, as the lookups went. -/
def Authorized (groups : List String) (l : Trace) (username : String) : Prop :=
  ∃ u, Called l (.lookupUser username) (.ok u) ∧ (u.uid = "0" ∨ ∃ ids gid name,
    Called l (.groupIDs u) (.ok ids) ∧ gid ∈ ids ∧ Called l (.lookupGroup gid) (.ok name) ∧ name ∈ groups)

/-- The login may have its session: neither the limiter nor the backend nor the gate refused it. -/
structure Checked (srv : Server) (r : Request) (l : Trace) : Prop where
  unblocked : Called l (.blocked r.clientIP) false
  authenticated : Called l (.authenticate r.username r.password) (.ok ())
  authorized : Authorized srv.groups l r.username

/-- The gate found a session for the cookie, by the request's own reading of the clock. -/
structure LookedUp (srv : Server) (r : Request) (l : Trace) (token : String) (now : Time) (sess : Session) : Prop where
  cookie : r.cookie = some token
  read : Called l .now now
  found : Called l (.validSession (srv.hashToken token) now) (.ok sess)

/-- What is so of the calls before each call of a request. -/
def Due (srv : Server) (r : Request) (l : Trace) {β : Type} : Op β → Prop
  | .serveHTTP username => srv.authn = true → publicPath r.path = false →
      ∃ token now sess, LookedUp srv r l token now sess ∧ username = sess.username
  | .touchSession hash e => publicPath r.path = false ∧
      ∃ token now sess, LookedUp srv r l token now sess ∧ hash = srv.hashToken token ∧ e = now + sessionTTL
  | .deleteSession hash => ∃ token, r.cookie = some token ∧ hash = srv.hashToken token
  | .createSession hash username e => Checked srv r l ∧ username = r.username ∧ l.any creates = false ∧
      ∃ token now, Called l .randomToken (.ok token) ∧ Called l .now now ∧ hash = srv.hashToken token ∧
        e = now + sessionTTL
  | .blocked ip => ip = r.clientIP
  | .authenticate .. => lastCall admits l = true
  | .fail ip => ip = r.clientIP ∧ (lastCall admits l = true ∨ lastCall rejects l = true)
  | .clear ip => ip = r.clientIP ∧ ∃ hash e, Called l (.createSession hash r.username e) (.ok ())
  | _ => True

/-- Each call comes where it is due, and wrong credentials are counted at once. -/
def order (srv : Server) (r : Request) : Discipline Op Trace where
  allows l op := Due srv r l op ∧ (lastCall rejects l = true → isFail op = true)
  next l op b := l ++ [⟨op, b⟩]

section Rules

variable {srv : Server} {r : Request} {l l' : Trace} {α β : Type} {op : Op β} {b : β}

theorem order_after (l l' : Trace) : (order srv r).after l l' = l ++ l' := by
  induction l' generalizing l with
  | nil => exact (List.append_nil l).symm
  | cons c l' ih =>
    show (order srv r).after (l ++ [c]) l' = _
    rw [ih, List.append_assoc]
    rfl

theorem lastCall_snoc {P : Exchange Op → Bool} {c : Exchange Op} : lastCall P (l ++ [c]) = P c := by
  unfold lastCall
  rw [List.getLast?_concat]
  rfl

theorem Called.mono (h : Called l op b) (hl : l ⊆ l') : Called l' op b := hl h

theorem Authorized.mono {groups : List String} {username : String} (h : Authorized groups l username) (hl : l ⊆ l') :
    Authorized groups l' username := by
  obtain ⟨u, hu, hmay⟩ := h
  refine ⟨u, hu.mono hl, hmay.imp_right ?_⟩
  rintro ⟨ids, gid, name, hids, hgid, hname, hmem⟩
  exact ⟨ids, gid, name, hids.mono hl, hgid, hname.mono hl, hmem⟩

theorem Checked.mono (h : Checked srv r l) (hl : l ⊆ l') : Checked srv r l' :=
  ⟨h.unblocked.mono hl, h.authenticated.mono hl, h.authorized.mono hl⟩

theorem LookedUp.mono {token : String} {now : Time} {sess : Session} (h : LookedUp srv r l token now sess)
    (hl : l ⊆ l') : LookedUp srv r l' token now sess :=
  ⟨h.cookie, h.read.mono hl, h.found.mono hl⟩

/-- Where a request may stand: its last call has not found the credentials wrong, and it has started
no session. -/
def Plain (l : Trace) : Prop := lastCall rejects l = false ∧ l.any creates = false

theorem Plain.snoc (h : Plain l) {c : Exchange Op} (hr : rejects c = false) (hc : creates c = false) :
    Plain (l ++ [c]) := by
  refine ⟨lastCall_snoc.trans hr, ?_⟩
  rw [List.any_append, h.2, List.any_cons, hc]
  rfl

theorem order_allows (h : lastCall rejects l = false) (hdue : Due srv r l op) : (order srv r).allows l op := by
  refine ⟨hdue, fun hr => ?_⟩
  rw [h] at hr
  cases hr

theorem Plain.allows (h : Plain l) (hdue : Due srv r l op) : (order srv r).allows l op := order_allows h.1 hdue

end Rules

/-! ## The programs -/

section Programs

variable {srv : Server} {r : Request} {l : Trace}

/-- A request ends when its last call has not found the credentials wrong. -/
def Ended (_ : Response) (l : Trace) : Prop := lastCall rejects l = false

/-- What the lookups of the gate add to the calls. -/
theorem inAllowedGroup_order (groups ids : List String) (hl : Plain l) :
    (inAllowedGroup groups ids).Keeps (order srv r) (fun found l' => Plain l' ∧ l ⊆ l' ∧ (found = true →
      ∃ gid name, gid ∈ ids ∧ Called l' (.lookupGroup gid) (.ok name) ∧ name ∈ groups)) l := by
  induction ids generalizing l with
  | nil => exact keeps_ret.2 ⟨hl, List.Subset.refl _, nofun⟩
  | cons gid ids ih =>
    refine keeps_next (hl.allows trivial) fun group _ => ?_
    have hl' := hl.snoc (c := ⟨.lookupGroup gid, group⟩) rfl rfl
    have hrest : (inAllowedGroup groups ids).Keeps (order srv r)
        (fun found l' => Plain l' ∧ l ⊆ l' ∧ (found = true →
          ∃ g name, g ∈ gid :: ids ∧ Called l' (.lookupGroup g) (.ok name) ∧ name ∈ groups))
        (l ++ [⟨.lookupGroup gid, group⟩]) := by
      refine (ih hl').mono ?_
      rintro found l' ⟨hplain, hsub, hfound⟩
      refine ⟨hplain, List.Subset.trans (List.subset_append_left ..) hsub, fun h => ?_⟩
      obtain ⟨g, name, hg, hname, hmem⟩ := hfound h
      exact ⟨g, name, List.mem_cons_of_mem _ hg, hname, hmem⟩
    cases group with
    | error _ => exact hrest
    | ok name =>
      dsimp only
      split
      · rename_i hmem
        refine keeps_ret.2 ⟨hl', List.subset_append_left ..,
          fun _ => ⟨gid, name, List.mem_cons_self .., ?_, hmem⟩⟩
        exact List.mem_append_right _ (List.mem_singleton_self _)
      · exact hrest

theorem authorize_order (groups : List String) (username : String) (hl : Plain l) :
    (authorize groups username).Keeps (order srv r) (fun res l' => Plain l' ∧ l ⊆ l' ∧
      (res = .ok () → Authorized groups l' username)) l := by
  refine keeps_next (hl.allows trivial) fun found _ => ?_
  have hl' := hl.snoc (c := ⟨.lookupUser username, found⟩) rfl rfl
  have hsub := List.subset_append_left l [(⟨.lookupUser username, found⟩ : Exchange Op)]
  cases found with
  | error _ => exact keeps_ret.2 ⟨hl', hsub, nofun⟩
  | ok u =>
    have hu : Called (l ++ [⟨.lookupUser username, .ok u⟩]) (.lookupUser username) (.ok u) :=
      List.mem_append_right _ (List.mem_singleton_self _)
    dsimp only
    split
    · rename_i huid
      exact keeps_ret.2 ⟨hl', hsub, fun _ => ⟨u, hu, .inl huid⟩⟩
    · refine keeps_next (hl'.allows trivial) fun ids _ => ?_
      have hl'' := hl'.snoc (c := ⟨.groupIDs u, ids⟩) rfl rfl
      have hsub' := List.subset_append_left (l ++ [⟨.lookupUser username, .ok u⟩])
        [(⟨.groupIDs u, ids⟩ : Exchange Op)]
      cases ids with
      | error _ => exact keeps_ret.2 ⟨hl'', List.Subset.trans hsub hsub', nofun⟩
      | ok ids =>
        refine keeps_bind.2 ((inAllowedGroup_order groups ids hl'').mono ?_)
        rintro allowed l' ⟨hplain, hsub'', hallowed⟩
        cases allowed with
        | false => exact keeps_ret.2 ⟨hplain, List.Subset.trans hsub (List.Subset.trans hsub' hsub''), nofun⟩
        | true =>
          obtain ⟨gid, name, hgid, hname, hmem⟩ := hallowed rfl
          refine keeps_ret.2 ⟨hplain, List.Subset.trans hsub (List.Subset.trans hsub' hsub''), fun _ => ?_⟩
          refine ⟨u, hsub'' (hsub' hu), .inr ?_⟩
          exact ⟨ids, gid, name, hsub'' (List.mem_append_right _ (List.mem_singleton_self _)), hgid, hname, hmem⟩

theorem failLogin_order (next : String) (hl : lastCall admits l = true ∨ lastCall rejects l = true) :
    (failLogin r next).Keeps (order srv r) Ended l := by
  refine keeps_next ⟨⟨rfl, hl⟩, fun _ => rfl⟩ fun _ _ => keeps_ret.2 ?_
  exact lastCall_snoc

theorem startSession_order (next : String) (hl : Plain l) (hchecked : Checked srv r l) :
    (startSession srv r next).Keeps (order srv r) Ended l := by
  refine keeps_next (hl.allows trivial) fun drawn _ => ?_
  have hl₁ := hl.snoc (c := ⟨.randomToken, drawn⟩) rfl rfl
  cases drawn with
  | error _ => exact keeps_ret.2 hl₁.1
  | ok token =>
    refine keeps_next (hl₁.allows trivial) fun now _ => ?_
    have hl₂ := hl₁.snoc (c := ⟨.now, now⟩) rfl rfl
    have hdue : Due srv r (l ++ [⟨.randomToken, .ok token⟩] ++ [⟨.now, now⟩])
        (.createSession (srv.hashToken token) r.username (now + sessionTTL)) := by
      refine ⟨hchecked.mono fun c hc => ?_, rfl, hl₂.2, token, now, ?_, ?_, rfl, rfl⟩
      · exact List.mem_append_left _ (List.mem_append_left _ hc)
      · exact List.mem_append_left _ (List.mem_append_right _ (List.mem_singleton_self _))
      · exact List.mem_append_right _ (List.mem_singleton_self _)
    refine keeps_next (hl₂.allows hdue) fun created _ => ?_
    cases created with
    | error _ => exact keeps_ret.2 lastCall_snoc
    | ok _ =>
      have hclear : Due srv r (l ++ [⟨.randomToken, .ok token⟩] ++ [⟨.now, now⟩] ++
          [⟨.createSession (srv.hashToken token) r.username (now + sessionTTL), .ok ()⟩]) (.clear r.clientIP) :=
        ⟨rfl, srv.hashToken token, now + sessionTTL, List.mem_append_right _ (List.mem_singleton_self _)⟩
      refine keeps_next (order_allows lastCall_snoc hclear) fun _ _ => ?_
      exact keeps_next (order_allows lastCall_snoc trivial) fun _ _ => keeps_ret.2 lastCall_snoc

theorem checkLogin_order (next : String) (hl : Plain l) (hlast : lastCall admits l = true)
    (hunblocked : Called l (.blocked r.clientIP) false) :
    (checkLogin srv r next).Keeps (order srv r) Ended l := by
  refine keeps_next (hl.allows hlast) fun checked _ => ?_
  match checked with
  | .error .badCredentials => exact failLogin_order next (.inr lastCall_snoc)
  | .error .backend => exact keeps_ret.2 lastCall_snoc
  | .ok _ =>
    have hl' := hl.snoc (c := ⟨.authenticate r.username r.password, .ok ()⟩) rfl rfl
    refine keeps_bind.2 ((authorize_order srv.groups r.username hl').mono ?_)
    rintro res l' ⟨hplain, hsub, hres⟩
    match res with
    | .error .notAuthorized => exact keeps_ret.2 hplain.1
    | .error .failed => exact keeps_ret.2 hplain.1
    | .ok _ =>
      refine startSession_order next hplain ⟨?_, ?_, hres rfl⟩
      · exact hsub (List.mem_append_left _ hunblocked)
      · exact hsub (List.mem_append_right _ (List.mem_singleton_self _))

theorem handleLoginSubmit_order (hl : Plain l) : (handleLoginSubmit srv r).Keeps (order srv r) Ended l := by
  unfold handleLoginSubmit
  split
  · exact keeps_ret.2 hl.1
  · refine keeps_next (hl.allows rfl) fun blocked _ => ?_
    have hl' := hl.snoc (c := ⟨.blocked r.clientIP, blocked⟩) rfl rfl
    cases blocked with
    | true => exact keeps_ret.2 hl'.1
    | false =>
      rw [if_neg Bool.false_ne_true]
      split
      · exact failLogin_order _ (.inl lastCall_snoc)
      · exact checkLogin_order _ hl' lastCall_snoc (List.mem_append_right _ (List.mem_singleton_self _))

theorem exec_validSession {s : State} {hash : String} {now : Time} {sess : Session}
    (h : (Calls.exec (Op.validSession hash now) s).1 = Except.ok sess) : s.sessions.valid hash now = some sess := by
  change (State.exec (.validSession hash now) s).1 = _ at h
  unfold State.exec at h
  dsimp only at h
  split at h
  · rename_i row hrow
    cases h
    exact hrow
  · cases h

/-- A session that is found has the hash asked for. -/
theorem answers_validSession {hash : String} {now : Time} {sess : Session}
    (h : Calls.Answers (Op.validSession hash now) (Except.ok sess)) : sess.tokenHash = hash := by
  rcases h with ⟨s, hs⟩ | hs
  · exact (Sessions.valid_some (exec_validSession hs)).2.1
  · cases hs

theorem loggedIn_order (hl : Plain l) : (loggedIn srv r).Keeps (order srv r) (fun _ => Plain) l := by
  unfold loggedIn
  split
  · exact keeps_ret.2 hl
  · rename_i token _
    refine keeps_next (hl.allows trivial) fun now _ => ?_
    have hl' := hl.snoc (c := ⟨.now, now⟩) rfl rfl
    refine keeps_next (hl'.allows trivial) fun found _ => ?_
    have hl'' := hl'.snoc (c := ⟨.validSession (srv.hashToken token) now, found⟩) rfl rfl
    cases found with
    | error _ => exact keeps_ret.2 hl''
    | ok _ => exact keeps_ret.2 hl''

theorem handleLoginPage_order (hl : Plain l) : (handleLoginPage srv r).Keeps (order srv r) Ended l := by
  unfold handleLoginPage
  split
  · exact keeps_ret.2 hl.1
  · refine keeps_bind.2 ((loggedIn_order hl).mono fun found l' hl' => ?_)
    split
    · exact keeps_ret.2 hl'.1
    · exact keeps_ret.2 hl'.1

theorem handleLogout_order (hl : Plain l) : (handleLogout srv r).Keeps (order srv r) Ended l := by
  unfold handleLogout
  split
  · exact keeps_ret.2 hl.1
  split
  · exact keeps_ret.2 hl.1
  · rename_i c hc
    refine keeps_next (hl.allows ⟨c, hc, rfl⟩) fun deleted _ => ?_
    have hl' := hl.snoc (c := ⟨.deleteSession (srv.hashToken c), deleted⟩) rfl rfl
    cases deleted with
    | error _ => exact keeps_ret.2 hl'.1
    | ok _ => exact keeps_ret.2 hl'.1

theorem mux_order (username : String) (hl : Plain l) : (mux srv r username).Keeps (order srv r) Ended l := by
  unfold mux
  split
  · exact handleLoginPage_order hl
  · exact handleLoginPage_order hl
  · exact handleLoginSubmit_order hl
  · exact handleLogout_order hl
  · exact keeps_ret.2 hl.1

theorem serveHTTP_order {username : String} (hl : Plain l) (hdue : Due srv r l (.serveHTTP username)) :
    (serveHTTP (mux srv r) username).Keeps (order srv r) Ended l :=
  keeps_next (hl.allows hdue) fun _ _ => mux_order username (hl.snoc rfl rfl)

/-- Every request makes its calls where they are due. -/
theorem serve_order (srv : Server) (r : Request) : (serve srv r).Keeps (order srv r) Ended [] := by
  have hnil : Plain [] := ⟨rfl, rfl⟩
  unfold serve requireAuth
  split
  · rename_i hopen
    refine serveHTTP_order hnil fun hauth hpath => ?_
    rw [hauth, hpath] at hopen
    cases hopen
  rename_i hgated
  have hpath : publicPath r.path = false := by
    rw [Bool.or_eq_true_iff, not_or] at hgated
    simpa using hgated.2
  split
  · exact keeps_ret.2 hnil.1
  · rename_i token htoken
    -- a gated request with a cookie: the clock, then the session, then perhaps a new expiry
    refine keeps_next (hnil.allows trivial) fun now _ => ?_
    have hl := hnil.snoc (c := ⟨.now, now⟩) rfl rfl
    refine keeps_next (hl.allows trivial) fun found hanswer => ?_
    have hl' := hl.snoc (c := ⟨.validSession (srv.hashToken token) now, found⟩) rfl rfl
    match found, hanswer with
    | .error .notFound, _ => exact keeps_ret.2 hl'.1
    | .error .failed, _ => exact keeps_ret.2 hl'.1
    | .ok sess, hanswer =>
      have hlooked : LookedUp srv r ([⟨.now, now⟩] ++ [⟨.validSession (srv.hashToken token) now, .ok sess⟩])
          token now sess :=
        ⟨htoken, List.mem_append_left _ (List.mem_singleton_self _),
          List.mem_append_right _ (List.mem_singleton_self _)⟩
      have hserve : ∀ l', Plain l' →
        [⟨.now, now⟩] ++ [⟨.validSession (srv.hashToken token) now, .ok sess⟩] ⊆ l' →
          (serveHTTP (mux srv r) sess.username).Keeps (order srv r) Ended l' :=
        fun l' hplain hsub => serveHTTP_order hplain fun _ _ => ⟨token, now, sess, hlooked.mono hsub, rfl⟩
      unfold refresh
      refine keeps_bind.2 ?_
      split
      · have hdue : Due srv r ([⟨.now, now⟩] ++ [⟨.validSession (srv.hashToken token) now, .ok sess⟩])
            (.touchSession sess.tokenHash (now + sessionTTL)) :=
          ⟨hpath, token, now, sess, hlooked, answers_validSession hanswer, rfl⟩
        refine keeps_next (hl'.allows hdue) fun touched _ => keeps_ret.2 ?_
        exact hserve _ (hl'.snoc rfl rfl) (List.subset_append_left ..)
      · exact keeps_ret.2 (hserve _ hl' (List.Subset.refl _))

end Programs

end Nixbox.Auth
