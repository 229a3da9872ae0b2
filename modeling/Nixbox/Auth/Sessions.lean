/-
Who gets past the gate, whatever the order of the calls of all requests: each row of the sessions
table goes back to a login, its deadline to that login or to a request that was let through, and no
row outlives a logout.
-/
import Nixbox.Auth.Redirect
import Nixbox.Auth.Threads

namespace Nixbox.Auth

open Effect Prog

/-! ## What a log says of a token -/

section Definitions

variable (srv : Server) (log : List Event) (token : String)

/-- By its call `e` a login has got the token: it passed all checks, drew the token, read the clock at
`now`, and created the row. -/
structure Login (e : Event) (now : Time) : Prop where
  mem : e ∈ log
  created : e.toExchange = ⟨.createSession (srv.hashToken token) e.tag.username (now + sessionTTL), .ok ()⟩
  checked : Checked srv e.tag (trace e.thread log)
  minted : Did log e.thread .randomToken (.ok token)
  read : Did log e.thread .now now

/-- The row of the token has been created. -/
def Created : Prop :=
  ∃ e ∈ log, ∃ username x, e.toExchange = ⟨.createSession (srv.hashToken token) username x, .ok ()⟩

/-- The gate has let a request through with the token, at its reading `now` of the clock. -/
def LetThrough (now : Time) : Prop :=
  ∃ e ∈ log, publicPath e.tag.path = false ∧ e.tag.cookie = some token ∧
    ∃ sess, e.toExchange = ⟨.validSession (srv.hashToken token) now, .ok sess⟩

/-- A logout of the token has deleted its row. -/
def LoggedOut : Prop := ∃ e ∈ log, e.toExchange = ⟨.deleteSession (srv.hashToken token), .ok ()⟩

/-- The token's session runs from `m`: its login's reading of the clock, or that of a request let
through with it. -/
def RunsFrom (username : String) (m : Time) : Prop :=
  ∃ e now, Login srv log token e now ∧ e.tag.username = username ∧ ¬ LoggedOut srv log token ∧
    (m = now ∨ LetThrough srv log token m)

/-- A request reaches its handler as `username` by the call `e`: its cookie is a token whose session,
when the request looked it up, ran from less than a lifetime before its reading of the clock. -/
def Justified (e : Event) (username : String) : Prop :=
  ∃ token now, e.tag.cookie = some token ∧ Did log e.thread .now now ∧
    ∃ pre lookup post sess m, log = pre ++ lookup :: post ∧ lookup.thread = e.thread ∧
      lookup.toExchange = ⟨.validSession (srv.hashToken token) now, .ok sess⟩ ∧
        RunsFrom srv pre token username m ∧ now < m + sessionTTL

end Definitions

/-- The hashes of the tokens drawn are distinct. -/
def Distinct (srv : Server) (h : Host) : Prop :=
  ∀ i j, srv.hashToken (h.token i) = srv.hashToken (h.token j) → i = j

/-- No cookie is a token whose session is not there yet, and none has the hash of another token. -/
def Unguessed (srv : Server) (h : Host) (p : Pool) : Move → Prop
  | .start r => ∀ c, r.cookie = some c → ∀ i, srv.hashToken c = srv.hashToken (h.token i) →
      c = h.token i ∧ Created srv p.log c
  | _ => True

/-- The token opens the gate. -/
def Valid (srv : Server) (p : Pool) (token : String) : Prop :=
  ∃ row ∈ p.state.sessions, row.tokenHash = srv.hashToken token ∧ p.state.time < row.expiresAt

/-- The call is the last of a login that gets the token, or the push of the deadline, from its reading
of the clock, by a request that was let through with the token. -/
def Validates (srv : Server) (log : List Event) (e : Event) (token : String) : Prop :=
  (∃ now, Login srv (log ++ [e]) token e now) ∨
    (publicPath e.tag.path = false ∧ ∃ now sess, LookedUp srv e.tag (trace e.thread log) token now sess ∧
      e.toExchange = ⟨.touchSession (srv.hashToken token) (now + sessionTTL), .ok ()⟩)

/-! ## One call -/

/-- The call has deleted a row for a logout. -/
def deletes (c : Exchange Op) : Bool :=
  match c with
  | ⟨.deleteSession _, .ok _⟩ => true
  | _ => false

/-- The call has drawn a token. -/
def draws (c : Exchange Op) : Bool :=
  match c with
  | ⟨.randomToken, .ok _⟩ => true
  | _ => false

section Calls

variable {c : Exchange Op} {s s' : State} {row : Session}

/-- Where the rows of the table come from: they were there, and no logout took them; or a login
created them; or their deadline was pushed. -/
theorem sessions_call (h : (Calls.exec c.op s = (c.answer, s')) ∨ (Calls.fault c.op = some c.answer ∧ s' = s))
    (hrow : row ∈ s'.sessions) :
    (row ∈ s.sessions ∧ c ≠ ⟨.deleteSession row.tokenHash, .ok ()⟩) ∨
      c = ⟨.createSession row.tokenHash row.username row.expiresAt, .ok ()⟩ ∨
      ∃ r ∈ s.sessions, r.tokenHash = row.tokenHash ∧ r.username = row.username ∧
        c = ⟨.touchSession row.tokenHash row.expiresAt, .ok ()⟩ := by
  have hnot : deletes c = false → c ≠ ⟨.deleteSession row.tokenHash, .ok ()⟩ := by
    rintro hno rfl
    cases hno
  obtain ⟨op, b⟩ := c
  -- the call takes effect, or fails and leaves the table
  rcases h with h | ⟨hfault, rfl⟩
  · cases op with
    | createSession hash username e =>
      change State.exec _ s = _ at h
      unfold State.exec at h
      dsimp only at h
      split at h
      · rename_i t ht
        cases h
        rcases (Sessions.mem_create ht).1 hrow with hrow | rfl
        · exact .inl ⟨hrow, hnot rfl⟩
        · exact .inr (.inl rfl)
      · cases h
        exact .inl ⟨hrow, hnot rfl⟩
    | validSession hash now =>
      change State.exec _ s = _ at h
      unfold State.exec at h
      dsimp only at h
      split at h
      all_goals
        cases h
        exact .inl ⟨hrow, hnot rfl⟩
    | touchSession hash e =>
      cases h
      rcases Sessions.mem_touch.1 hrow with ⟨hrow, -⟩ | ⟨r, hr, rfl, rfl⟩
      · exact .inl ⟨hrow, hnot rfl⟩
      · exact .inr (.inr ⟨r, hr, rfl, rfl, rfl⟩)
    | deleteSession hash =>
      cases h
      obtain ⟨hrow, hne⟩ := Sessions.mem_delete.1 hrow
      refine .inl ⟨hrow, fun heq => ?_⟩
      cases heq
      exact hne rfl
    | deleteExpiredSessions now =>
      cases h
      exact .inl ⟨Sessions.mem_of_mem_deleteExpired hrow, hnot rfl⟩
    | _ =>
      cases h
      exact .inl ⟨hrow, hnot rfl⟩
  · refine .inl ⟨hrow, fun heq => ?_⟩
    cases heq
    cases hfault

/-- The tokens drawn: each call draws the next one or none. -/
theorem minted_call (h : (Calls.exec c.op s = (c.answer, s')) ∨ (Calls.fault c.op = some c.answer ∧ s' = s)) :
    s'.host = s.host ∧ s'.time = s.time ∧
    ((s'.minted = s.minted ∧ ∀ token, c ≠ ⟨.randomToken, .ok token⟩) ∨
      (s'.minted = s.minted + 1 ∧ c = ⟨.randomToken, .ok (s.host.token s.minted)⟩)) := by
  have hnot : draws c = false → ∀ token, c ≠ ⟨.randomToken, .ok token⟩ := by
    rintro hno token rfl
    cases hno
  obtain ⟨op, b⟩ := c
  rcases h with h | ⟨hfault, rfl⟩
  · cases op with
    | randomToken =>
      cases h
      exact ⟨rfl, rfl, .inr ⟨rfl, rfl⟩⟩
    | createSession =>
      change State.exec _ s = _ at h
      unfold State.exec at h
      dsimp only at h
      split at h
      all_goals
        cases h
        exact ⟨rfl, rfl, .inl ⟨rfl, hnot rfl⟩⟩
    | validSession =>
      change State.exec _ s = _ at h
      unfold State.exec at h
      dsimp only at h
      split at h
      all_goals
        cases h
        exact ⟨rfl, rfl, .inl ⟨rfl, hnot rfl⟩⟩
    | _ =>
      cases h
      exact ⟨rfl, rfl, .inl ⟨rfl, hnot rfl⟩⟩
  · refine ⟨rfl, rfl, .inl ⟨rfl, fun token heq => ?_⟩⟩
    cases heq
    cases hfault

end Calls

/-! ## The rows and the log -/

/-- The row goes back to a login. -/
def Backed (srv : Server) (h : Host) (log : List Event) (row : Session) : Prop :=
  ∃ i m, row.tokenHash = srv.hashToken (h.token i) ∧ RunsFrom srv log (h.token i) row.username m ∧
    row.expiresAt = m + sessionTTL

section Logs

variable {srv : Server} {h : Host} {log : List Event} {token username : String} {e e' : Event} {now m : Time}

theorem snoc_subset (log : List Event) (e : Event) : log ⊆ log ++ [e] := List.subset_append_left _ _

theorem Login.snoc (hl : Login srv log token e now) : Login srv (log ++ [e']) token e now :=
  ⟨snoc_subset _ _ hl.mem, hl.created, hl.checked.mono (trace_subset (snoc_subset _ _)),
    hl.minted.mono (snoc_subset _ _), hl.read.mono (snoc_subset _ _)⟩

theorem Created.snoc (hc : Created srv log token) : Created srv (log ++ [e]) token := by
  obtain ⟨d, hd, hcreated⟩ := hc
  exact ⟨d, snoc_subset _ _ hd, hcreated⟩

theorem LetThrough.snoc (hl : LetThrough srv log token now) : LetThrough srv (log ++ [e]) token now := by
  obtain ⟨d, hd, hlet⟩ := hl
  exact ⟨d, snoc_subset _ _ hd, hlet⟩

theorem loggedOut_snoc : LoggedOut srv (log ++ [e]) token ↔
    LoggedOut srv log token ∨ e.toExchange = ⟨.deleteSession (srv.hashToken token), .ok ()⟩ := by
  unfold LoggedOut
  simp only [List.mem_append, List.mem_singleton, or_and_right, exists_or, exists_eq_left]

/-- A session goes on running unless a logout deletes it. -/
theorem RunsFrom.snoc (hr : RunsFrom srv log token username m)
    (he : e.toExchange ≠ ⟨.deleteSession (srv.hashToken token), .ok ()⟩) :
    RunsFrom srv (log ++ [e]) token username m := by
  obtain ⟨d, now, hlogin, huser, hout, hm⟩ := hr
  refine ⟨d, now, hlogin.snoc, huser, fun h => ?_, hm.imp_right LetThrough.snoc⟩
  exact (loggedOut_snoc.1 h).elim hout he

theorem Backed.snoc {row : Session} (hb : Backed srv h log row)
    (he : e.toExchange ≠ ⟨.deleteSession row.tokenHash, .ok ()⟩) : Backed srv h (log ++ [e]) row := by
  obtain ⟨i, m, hhash, hruns, hexp⟩ := hb
  exact ⟨i, m, hhash, hruns.snoc (by rw [← hhash]; exact he), hexp⟩

end Logs

/-- The threads make their calls where they are due; cookies and tokens are as assumed; and each row
goes back to a login, now and whenever a call was made. -/
structure Sound (srv : Server) (h : Host) (p : Pool) : Prop where
  ordered : Ordered srv p
  host : p.state.host = h
  cookies : ∀ t ∈ p.threads, ∀ c, t.tag.cookie = some c → ∀ i, srv.hashToken c = srv.hashToken (h.token i) →
    c = h.token i ∧ Created srv p.log c
  minted : ∀ k token, Did p.log k .randomToken (.ok token) → ∃ i < p.state.minted, token = h.token i
  owner : ∀ k k' token, Did p.log k .randomToken (.ok token) → Did p.log k' .randomToken (.ok token) → k = k'
  rows : ∀ row ∈ p.state.sessions, Backed srv h p.log row
  lookups : Always (fun pre e => ∀ row ∈ e.found.sessions, Backed srv h pre row) p.log

section Sound

variable {srv : Server} {h : Host} {p p' : Pool} {k : Nat} {token : String}

/-- The token a login is about to use has not got a row before. -/
theorem Sound.not_created (hs : Sound srv h p) (hd : Distinct srv h) (hdraw : Did p.log k .randomToken (.ok token))
    (hno : (trace k p.log).any creates = false) : ¬ Created srv p.log token := by
  rintro ⟨⟨⟨op, b⟩, k', r, s⟩, he, username, x, heq⟩
  obtain ⟨pre, hpre, hdue⟩ := hs.ordered.due_of_mem he
  cases heq
  obtain ⟨-, -, -, token', now, hdraw', -, hhash, -⟩ := hdue
  have hdrew : Did p.log k' .randomToken (.ok token') := Did.mono hdraw' hpre.subset
  obtain ⟨i, -, rfl⟩ := hs.minted _ _ hdraw
  obtain ⟨j, -, rfl⟩ := hs.minted _ _ hdrew
  obtain rfl : i = j := hd i j hhash
  obtain rfl : k' = k := hs.owner _ _ _ hdrew hdraw
  exact List.any_eq_false.1 hno _ (mem_trace.2 ⟨_, he, rfl, rfl⟩) rfl

/-- Nobody logs out of a session that is not there yet. -/
theorem Sound.not_loggedOut (hs : Sound srv h p) {i : Nat} (hno : ¬ Created srv p.log (h.token i)) :
    ¬ LoggedOut srv p.log (h.token i) := by
  rintro ⟨⟨⟨op, b⟩, k', r, s⟩, he, heq⟩
  obtain ⟨pre, hpre, hdue⟩ := hs.ordered.due_of_mem he
  obtain ⟨t, ht, htag⟩ := hs.ordered.own _ he
  cases heq
  obtain ⟨c, hc, hhash⟩ := hdue
  obtain ⟨rfl, hcreated⟩ := hs.cookies t (List.mem_of_getElem? ht) c (by rw [htag]; exact hc) i hhash.symm
  exact hno hcreated

section Calls

variable {t : Thread} {fails : Bool} {prog : Prog Op Response} {s' : State} {hash username : String} {x : Time}

/-- A row is created at the end of a login, for a token that had none. -/
theorem Sound.login_call (hs : Sound srv h p) (hd : Distinct srv h) (ht : p.threads[k]? = some t)
    (hadv : Advanced fails t.prog p.state ⟨.createSession hash username x, .ok ()⟩ prog s') :
    ∃ i now, hash = srv.hashToken (h.token i) ∧ username = t.tag.username ∧ x = now + sessionTTL ∧
      ¬ Created srv p.log (h.token i) ∧
        Login srv (p.log ++ [⟨⟨.createSession hash username x, .ok ()⟩, k, t.tag, p.state⟩]) (h.token i)
          ⟨⟨.createSession hash username x, .ok ()⟩, k, t.tag, p.state⟩ now := by
  obtain ⟨hchecked, huser, hno, token, now, hdraw, hread, hhash, hexp⟩ := hs.ordered.due ht hadv
  obtain ⟨i, -, rfl⟩ := hs.minted _ _ hdraw
  refine ⟨i, now, hhash, huser, hexp, hs.not_created hd hdraw hno, ?_, ?_, ?_, ?_, ?_⟩
  · exact List.mem_append_right _ (List.mem_singleton_self _)
  · rw [hhash, huser, hexp]
  · exact hchecked.mono (trace_subset (snoc_subset _ _))
  · exact Did.mono hdraw (snoc_subset _ _)
  · exact Did.mono hread (snoc_subset _ _)

/-- The deadline of a token's row is pushed by a request that was let through with the token. -/
theorem Sound.touch_call (hs : Sound srv h p) (ht : p.threads[k]? = some t) {b : Except StoreErr Unit} {i : Nat}
    (hadv : Advanced fails t.prog p.state ⟨.touchSession hash x, b⟩ prog s')
    (hi : hash = srv.hashToken (h.token i)) :
    publicPath t.tag.path = false ∧ ∃ now sess, LookedUp srv t.tag (trace k p.log) (h.token i) now sess ∧
      x = now + sessionTTL := by
  obtain ⟨hpath, token, now, sess, hlooked, hhash, hexp⟩ := hs.ordered.due ht hadv
  obtain ⟨rfl, -⟩ := hs.cookies t (List.mem_of_getElem? ht) token hlooked.cookie i (by rw [← hhash, hi])
  exact ⟨hpath, now, sess, hlooked, hexp⟩

theorem Sound.letThrough (hs : Sound srv h p) (ht : p.threads[k]? = some t) {now : Time} {sess : Session}
    (hpath : publicPath t.tag.path = false) (hlooked : LookedUp srv t.tag (trace k p.log) token now sess) :
    LetThrough srv p.log token now := by
  obtain ⟨e, he, hk, hfound⟩ := mem_trace.1 hlooked.found
  obtain ⟨t', ht', htag⟩ := hs.ordered.own e he
  obtain rfl : t' = t := by
    rw [hk, ht] at ht'
    exact (Option.some.inj ht').symm
  rw [htag] at hpath hlooked
  exact ⟨e, he, hpath, hlooked.cookie, sess, hfound⟩

/-- The rows after a call go back to logins. -/
theorem Sound.rows_call (hs : Sound srv h p) (hd : Distinct srv h) {c : Exchange Op} (ht : p.threads[k]? = some t)
    (hadv : Advanced fails t.prog p.state c prog s') :
    ∀ row ∈ s'.sessions, Backed srv h (p.log ++ [⟨c, k, t.tag, p.state⟩]) row := by
  intro row hrow
  rcases sessions_call hadv.effect hrow with ⟨hrow, hne⟩ | rfl | ⟨r, hr, hhash, huser, rfl⟩
  · exact (hs.rows row hrow).snoc hne
  · -- the token has had no row before, so no logout either
    obtain ⟨i, now, hhash, huser, hexp, hno, hlogin⟩ := hs.login_call hd ht hadv
    refine ⟨i, now, hhash, ⟨_, now, hlogin, huser.symm, fun hout => ?_, .inl rfl⟩, hexp⟩
    rcases loggedOut_snoc.1 hout with hout | heq
    · exact hs.not_loggedOut hno hout
    · exact absurd (congrArg deletes heq) Bool.false_ne_true
  · obtain ⟨i, m, hi, ⟨d, now', hlogin, hname, hout, -⟩, -⟩ := hs.rows r hr
    obtain ⟨hpath, now, sess, hlooked, hexp⟩ := hs.touch_call ht hadv (hhash.symm.trans hi)
    have hruns : RunsFrom srv p.log (h.token i) row.username now :=
      ⟨d, now', hlogin, hname.trans huser, hout, .inr (hs.letThrough ht hpath hlooked)⟩
    refine ⟨i, now, hhash.symm.trans hi, hruns.snoc fun heq => ?_, hexp⟩
    exact absurd (congrArg deletes heq) Bool.false_ne_true

end Calls

/-- Every step keeps it, as long as no token is guessed. -/
theorem Sound.step {m : Move} (hs : Sound srv h p) (hd : Distinct srv h) (hu : Unguessed srv h p m)
    (hstep : Auth.step srv p m = some p') : Sound srv h p' := by
  have hordered := hs.ordered.step hstep
  cases m with
  | start r =>
    cases hstep
    refine ⟨hordered, hs.host, fun t ht c hc i hhash => ?_, hs.minted, hs.owner, hs.rows, hs.lookups⟩
    rcases List.mem_append.1 ht with ht | ht
    · exact hs.cookies t ht c hc i hhash
    · rw [List.mem_singleton.1 ht] at hc
      exact hu c hc i hhash
  | env d =>
    obtain ⟨s, hwait, rfl⟩ := Pool.step_env hstep
    cases hwait
    exact ⟨hordered, hs.host, hs.cookies, hs.minted, hs.owner, hs.rows, hs.lookups⟩
  | call k fails =>
    obtain ⟨t, c, prog, ht, hadv, hthreads, hlog⟩ := Pool.step_call hstep
    obtain ⟨hhost, -, hdrawn⟩ := minted_call hadv.effect
    -- a token drawn was drawn before, or is the next one
    have hdid : ∀ {k' token}, Did p'.log k' .randomToken (.ok token) → (Did p.log k' .randomToken (.ok token) ∨
        (k = k' ∧ token = h.token p.state.minted ∧ p'.state.minted = p.state.minted + 1)) := by
      intro k' token hdid
      rw [hlog] at hdid
      refine (did_snoc.1 hdid).imp_right fun ⟨hk, hc⟩ => ?_
      rcases hdrawn with ⟨-, hno⟩ | ⟨hmint, hc'⟩
      · exact absurd hc (hno token)
      · rw [hc', hs.host] at hc
        cases hc
        exact ⟨hk, rfl, hmint⟩
    refine ⟨hordered, hhost.trans hs.host, fun u hu c hc i hhash => ?_, fun k' token hdraw => ?_,
      fun k₁ k₂ token h₁ h₂ => ?_, ?_, ?_⟩
    · rw [hlog]
      rw [hthreads] at hu
      rcases List.mem_or_eq_of_mem_set hu with hu | rfl
      · exact (hs.cookies u hu c hc i hhash).imp_right Created.snoc
      · exact (hs.cookies t (List.mem_of_getElem? ht) c hc i hhash).imp_right Created.snoc
    · rcases hdid hdraw with hdraw | ⟨-, htoken, hmint⟩
      · obtain ⟨i, hi, htoken⟩ := hs.minted k' token hdraw
        refine ⟨i, ?_, htoken⟩
        rcases hdrawn with ⟨hmint, -⟩ | ⟨hmint, -⟩ <;> omega
      · exact ⟨p.state.minted, by omega, htoken⟩
    · -- no earlier token is the next one
      have hnext : ∀ {k'}, Did p.log k' .randomToken (.ok token) → token ≠ h.token p.state.minted := by
        rintro k' hdraw heq
        obtain ⟨i, hi, rfl⟩ := hs.minted k' token hdraw
        exact Nat.ne_of_lt hi (hd i _ (congrArg srv.hashToken heq))
      rcases hdid h₁ with h₁ | ⟨hk₁, htoken₁, -⟩ <;> rcases hdid h₂ with h₂ | ⟨hk₂, htoken₂, -⟩
      · exact hs.owner k₁ k₂ token h₁ h₂
      · exact absurd htoken₂ (hnext h₁)
      · exact absurd htoken₁ (hnext h₂)
      · exact hk₁.symm.trans hk₂
    · rw [hlog]
      exact hs.rows_call hd ht hadv
    · rw [hlog]
      exact hs.lookups.snoc hs.rows

/-- A request reaches its handler only with a token whose session runs. -/
theorem Sound.justified (hs : Sound srv h p) (hauth : srv.authn = true) {pre post : List Event} {e : Event}
    (hlog : p.log = pre ++ e :: post) {username : String} (he : e.toExchange = ⟨.serveHTTP username, ()⟩)
    (hpath : publicPath e.tag.path = false) : Justified srv pre e username := by
  have hallow := hs.ordered.allowed pre e post hlog
  dsimp only at hallow
  rw [order_after] at hallow
  obtain ⟨t, ht, htag⟩ := hs.ordered.own e (by rw [hlog]; simp)
  obtain ⟨⟨op, b⟩, k, r, s⟩ := e
  cases he
  obtain ⟨token, now, sess, hlooked, rfl⟩ := hallow.1 hauth hpath
  obtain ⟨v, hv, hk, hfound⟩ := mem_trace.1 hlooked.found
  obtain ⟨pre₁, pre₂, rfl⟩ := List.append_of_mem hv
  have hsplit : p.log = pre₁ ++ v :: (pre₂ ++ ⟨⟨.serveHTTP sess.username, ()⟩, k, r, s⟩ :: post) := by
    rw [hlog]
    simp
  -- the row the lookup found goes back to a login before it
  have hvalid : v.found.sessions.valid (srv.hashToken token) now = some sess := by
    have hanswered := hs.ordered.answered v (by rw [hsplit]; simp)
    obtain ⟨⟨op, b⟩, k', r', s'⟩ := v
    cases hfound
    rcases hanswered with hanswered | hfault
    · exact exec_validSession hanswered
    · cases hfault
  obtain ⟨hrow, hhash, hlate⟩ := Sessions.valid_some hvalid
  obtain ⟨i, m, hi, hruns, hexp⟩ := hs.lookups _ _ _ hsplit sess hrow
  obtain ⟨rfl, -⟩ :=
    hs.cookies t (List.mem_of_getElem? ht) token (by rw [htag]; exact hlooked.cookie) i (hhash.symm.trans hi)
  exact ⟨_, now, hlooked.cookie, hlooked.read, pre₁, v, pre₂, sess, m, rfl, hk, hfound, hruns,
    by rw [← hexp]; exact hlate⟩

/-- A token that a step makes valid was given to a login by this step, or was used by a request that
was let through. -/
theorem Sound.validates (hs : Sound srv h p) (hd : Distinct srv h) {m : Move}
    (hstep : Auth.step srv p m = some p') {i : Nat}
    (hvalid : Valid srv p' (h.token i)) (hnot : ¬ Valid srv p (h.token i)) :
    ∃ e, p'.log = p.log ++ [e] ∧ Validates srv p.log e (h.token i) := by
  obtain ⟨row, hrow, hhash, hlate⟩ := hvalid
  cases m with
  | start r =>
    cases hstep
    exact absurd ⟨row, hrow, hhash, hlate⟩ hnot
  | env d =>
    obtain ⟨s, hwait, rfl⟩ := Pool.step_env hstep
    cases hwait
    have hpassed : p.state.time ≤ p.state.time + d := Int.le_add_of_nonneg_right (Int.natCast_nonneg d)
    exact absurd ⟨row, hrow, hhash, Int.lt_of_le_of_lt hpassed hlate⟩ hnot
  | call k fails =>
    obtain ⟨t, c, prog, ht, hadv, -, hlog⟩ := Pool.step_call hstep
    obtain ⟨-, htime, -⟩ := minted_call hadv.effect
    rw [htime] at hlate
    refine ⟨_, hlog, ?_⟩
    rcases sessions_call hadv.effect hrow with ⟨hrow, -⟩ | rfl | ⟨r, hr, -, -, rfl⟩
    · exact absurd ⟨row, hrow, hhash, hlate⟩ hnot
    · obtain ⟨j, now, hj, -, -, -, hlogin⟩ := hs.login_call hd ht hadv
      obtain rfl : i = j := hd i j (hhash.symm.trans hj)
      exact .inl ⟨now, hlogin⟩
    · obtain ⟨hpath, now, sess, hlooked, hexp⟩ := hs.touch_call ht hadv hhash
      exact .inr ⟨hpath, now, sess, hlooked, by rw [hhash, hexp]⟩

end Sound

/-! ## Every run -/

theorem sound_fresh (srv : Server) (l : Limiter) (t : Time) (h : Host) : Sound srv h (.fresh (.fresh l t h)) :=
  ⟨Pool.keeping_fresh _, rfl, nofun, nofun, nofun, fun _ hrow => absurd hrow List.not_mem_nil, always_nil⟩

/-- In every run, a request for a path that is not public reaches its handler only with the token of a
login that was let in, while its session runs, and as that login's user; and nothing makes a token
valid but its login and the requests let through with it. -/
theorem sessions_guarded {srv : Server} {l : Limiter} {t : Time} {h : Host} {ms : List Move} {p : Pool}
    (hauth : srv.authn = true) (hd : Distinct srv h)
    (hu : Runs.Along (step srv) (Unguessed srv h) (.fresh (.fresh l t h)) ms)
    (hrun : run srv (.fresh (.fresh l t h)) ms = some p) :
    (∀ pre e post username, p.log = pre ++ e :: post → e.toExchange = ⟨.serveHTTP username, ()⟩ →
      publicPath e.tag.path = false → Justified srv pre e username) ∧
    ∀ ms₁ m ms₂ p₁ p₂ i, ms = ms₁ ++ m :: ms₂ → run srv (.fresh (.fresh l t h)) ms₁ = some p₁ →
      step srv p₁ m = some p₂ → Valid srv p₂ (h.token i) → ¬ Valid srv p₁ (h.token i) →
        ∃ e, p₂.log = p₁.log ++ [e] ∧ Validates srv p₁.log e (h.token i) := by
  have hsound : ∀ ms p, Runs.Along (step srv) (Unguessed srv h) (.fresh (.fresh l t h)) ms →
      run srv (.fresh (.fresh l t h)) ms = some p → Sound srv h p := fun ms p hu hrun =>
    Runs.exec_inv (I := Sound srv h) (fun _ _ _ hu hs hstep => hs.step hd hu hstep) hu (sound_fresh srv l t h) hrun
  refine ⟨fun pre e post username hlog he hpath => ?_, ?_⟩
  · exact (hsound ms p hu hrun).justified hauth hlog he hpath
  · rintro ms₁ m ms₂ p₁ p₂ i rfl hrun₁ hstep hvalid hnot
    exact (hsound ms₁ p₁ hu.prefix hrun₁).validates hd hstep hvalid hnot

/-! ## A late push of the deadline -/

/-- A page, asked for with the cookie of the first token. -/
def visit : Request := ⟨.get, "/", "/", some "a", false, false, "192.0.2.1", "", "", ""⟩

/-- The calls of thread `k`, none of which fails. -/
def calls (k n : Nat) : List Move := List.replicate n (.call k false)

/-- A login, and a second before its deadline a visit, up to the lookup; then two seconds go by. -/
def lateVisit : List Move :=
  [.start (loginRequest "pw" "/")] ++ calls 0 11 ++ [.env (7 * 24 * 3600 * 1000000000 - 1000000000), .start visit] ++
    calls 1 2 ++ [.env 2000000000]

/-- The server before the first request. -/
def start : Pool := .fresh exampleState

/-- The deadline of the row is past. -/
def expired : Pool := (run exampleServer start lateVisit).get (by decide +kernel)

/-- The push that was on its way has come. -/
def revived : Pool := (step exampleServer expired (.call 1 false)).get (by decide +kernel)

/-- A request is let through after it. -/
def visited : Pool := (run exampleServer start (lateVisit ++ calls 1 2)).get (by decide +kernel)

theorem distinct_example : Distinct exampleServer exampleHost := by
  intro i j h
  have hlen := congrArg (fun s : String => s.toList.length) h
  simpa [exampleServer, exampleHost] using hlen

/-- The first token's row has been created. -/
def firstCreated (log : List Event) : Bool :=
  log.any fun e => match e.toExchange with
    | ⟨.createSession hash _ _, .ok _⟩ => hash == "a"
    | _ => false

theorem created_first {log : List Event} (h : firstCreated log = true) : Created exampleServer log "a" := by
  obtain ⟨⟨⟨op, b⟩, k, r, s⟩, he, hfirst⟩ := List.any_eq_true.1 h
  dsimp only at hfirst
  split at hfirst
  · rename_i heq
    cases heq
    obtain rfl := beq_iff_eq.1 hfirst
    exact ⟨_, he, _, _, rfl⟩
  · cases hfirst

/-- Requests come with the first token, once it is there, or with none. -/
def known (p : Pool) (m : Move) : Bool :=
  match m with
  | .start r => r.cookie == none || (r.cookie == some "a" && firstCreated p.log)
  | _ => true

theorem unguessed_known {p : Pool} {m : Move} (h : known p m = true) : Unguessed exampleServer exampleHost p m := by
  cases m with
  | start r =>
    intro c hc i hhash
    unfold known at h
    dsimp only at h
    rw [hc] at h
    simp only [reduceCtorEq, beq_iff_eq, Bool.or_eq_true, false_or, Bool.and_eq_true, Option.some.injEq] at h
    obtain ⟨rfl, hfirst⟩ := h
    exact ⟨hhash, created_first hfirst⟩
  | _ => exact trivial

theorem unguessed_lateVisit :
    Runs.Along (step exampleServer) (Unguessed exampleServer exampleHost) start (lateVisit ++ calls 1 2) := by
  have hknown : Runs.Along (step exampleServer) (fun p m => known p m = true) start (lateVisit ++ calls 1 2) := by
    decide +kernel
  exact hknown.mono fun _ _ => unguessed_known

theorem run_visited : run exampleServer start (lateVisit ++ calls 1 2) = some visited := (Option.some_get _).symm

/-- The call with which the visit reaches its page. -/
def reaches (c : Exchange Op) (username : String) : Bool :=
  match c with
  | ⟨.serveHTTP u, _⟩ => u == username
  | _ => false

theorem toExchange_of_reaches {c : Exchange Op} {username : String} (h : reaches c username = true) :
    c = ⟨.serveHTTP username, ()⟩ := by
  unfold reaches at h
  split at h
  · rw [beq_iff_eq.1 h]
  · cases h

theorem length_visited : visited.log.length = 15 := by decide +kernel

theorem sessions_guarded_visited : Justified exampleServer (visited.log.take 14)
    (visited.log.get ⟨14, by rw [length_visited]; decide⟩) "alice" := by
  refine (sessions_guarded rfl distinct_example unguessed_lateVisit run_visited).1 _ _ (visited.log.drop 15) _ ?_
    (toExchange_of_reaches (by decide +kernel)) (by decide +kernel)
  rw [List.get_eq_getElem, List.getElem_cons_drop, List.take_append_drop]

/-- The deadline of a row is past, and a request that looked the row up before pushes it out again. -/
theorem touch_revives : ¬ ∀ (srv : Server) (l : Limiter) (t : Time) (h : Host) (ms : List Move) (p : Pool),
    srv.authn = true → Distinct srv h → Runs.Along (step srv) (Unguessed srv h) (.fresh (.fresh l t h)) ms →
      run srv (.fresh (.fresh l t h)) ms = some p →
        ∀ ms₁ m ms₂ p₁ p₂ i, ms = ms₁ ++ m :: ms₂ →
        run srv (.fresh (.fresh l t h)) ms₁ = some p₁ →
          step srv p₁ m = some p₂ → Valid srv p₂ (h.token i) → ¬ Valid srv p₁ (h.token i) →
            ∃ e now, p₂.log = p₁.log ++ [e] ∧ Login srv p₂.log (h.token i) e now := by
  intro hall
  have hsplit : lateVisit ++ calls 1 2 = lateVisit ++ .call 1 false :: calls 1 1 := rfl
  have hexpired : ∀ row ∈ expired.state.sessions.rows,
      ¬ (row.tokenHash = "a" ∧ expired.state.time < row.expiresAt) := by
    decide +kernel
  have hrevived : ∃ row ∈ revived.state.sessions.rows, row.tokenHash = "a" ∧
      revived.state.time < row.expiresAt := by
    decide +kernel
  obtain ⟨e, now, hlog, hlogin⟩ := hall exampleServer _ _ exampleHost _ _ rfl distinct_example unguessed_lateVisit
    run_visited lateVisit (.call 1 false) (calls 1 1) expired revived 0 hsplit (Option.some_get _).symm
    (Option.some_get _).symm hrevived fun ⟨row, hrow, hvalid⟩ => hexpired row hrow hvalid
  -- the call was no login's
  have hlast : (revived.log.getLast?.any fun e => creates e.toExchange) = false := by decide +kernel
  rw [hlog, List.getLast?_concat, Option.any_some, hlogin.created] at hlast
  cases hlast

end Nixbox.Auth
