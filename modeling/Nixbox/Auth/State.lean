/-
The state behind the login: the sessions table, the limiter of failed logins, the clock, and the
backends that check passwords and groups; and the calls by which a request reaches them.
-/
import Nixbox.Lib.Directory
import Nixbox.Lib.Program

namespace Nixbox.Auth

open Effect Directory

/-- An instant or a duration, in nanoseconds. -/
abbrev Time := Int

/-- `time.Second`. -/
def second : Time := 1000000000

/-- `time.Minute`. -/
def minute : Time := 60 * second

/-- `time.Hour`. -/
def hour : Time := 60 * minute

/-- `sessionTTL`: seven days. -/
def sessionTTL : Time := 7 * 24 * hour

/-- `sessionTouchAfter`: how old a session is before its deadline is pushed out. -/
def sessionTouchAfter : Time := hour

/-! ## The sessions table -/

/-- A row of `sessions`. -/
structure Session where
  tokenHash : String
  username : String
  createdAt : Time
  expiresAt : Time
  deriving DecidableEq

/-- `ErrNotFound`, or any other error of the store. -/
inductive StoreErr
  | notFound
  | failed
  deriving DecidableEq

/-- The rows of `sessions`, whose primary key is the hash of the token. -/
@[ext] structure Sessions where
  rows : List Session
  unique : (rows.map Session.tokenHash).Nodup

namespace Sessions

variable {t : Sessions} {r s : Session} {hash : String} {now e : Time}

instance : Membership Session Sessions := ⟨fun t r => r ∈ t.rows⟩

instance : DecidableEq Sessions := fun a b => decidable_of_iff (a.rows = b.rows) Sessions.ext_iff.symm

/-- No session. -/
def empty : Sessions := ⟨[], List.nodup_nil⟩

/-- `CreateSession`: the key has to be new. -/
def create (t : Sessions) (r : Session) : Option Sessions :=
  if h : r.tokenHash ∈ t.rows.map Session.tokenHash then none
  else some ⟨t.rows ++ [r], by
    rw [List.map_append, List.nodup_append]
    refine ⟨t.unique, List.nodup_singleton _, fun a ha b hb => ?_⟩
    rw [List.mem_singleton.1 hb]
    rintro rfl
    exact h ha⟩

/-- `ValidSession`: the row of the hash, if its deadline is later than `now`. -/
def valid (t : Sessions) (hash : String) (now : Time) : Option Session :=
  t.rows.find? fun r => r.tokenHash == hash && now < r.expiresAt

/-- `TouchSession`. -/
def touch (t : Sessions) (hash : String) (e : Time) : Sessions where
  rows := t.rows.map fun r => if r.tokenHash = hash then { r with expiresAt := e } else r
  unique := by
    rw [List.map_map]
    have hkey : Session.tokenHash ∘ (fun r : Session => if r.tokenHash = hash then { r with expiresAt := e } else r) =
        Session.tokenHash := by
      funext r
      dsimp only [Function.comp]
      split <;> rfl
    rw [hkey]
    exact t.unique

/-- The rows that do not satisfy `p`. -/
def deleteWhere (t : Sessions) (p : Session → Bool) : Sessions where
  rows := t.rows.filter fun r => !p r
  unique := t.unique.sublist (List.filter_sublist.map _)

/-- `DeleteSession`. -/
def delete (t : Sessions) (hash : String) : Sessions := t.deleteWhere fun r => r.tokenHash == hash

/-- `DeleteExpiredSessions`. -/
def deleteExpired (t : Sessions) (now : Time) : Sessions := t.deleteWhere fun r => r.expiresAt ≤ now

theorem mem_iff : r ∈ t ↔ r ∈ t.rows := Iff.rfl

theorem mem_create {t' : Sessions} (h : t.create r = some t') : s ∈ t' ↔ s ∈ t ∨ s = r := by
  unfold create at h
  split at h
  · cases h
  · cases h
    simp only [mem_iff, List.mem_append, List.mem_singleton]

theorem valid_some (h : t.valid hash now = some r) : r ∈ t ∧ r.tokenHash = hash ∧ now < r.expiresAt := by
  have hp := List.find?_some h
  rw [Bool.and_eq_true, beq_iff_eq, decide_eq_true_eq] at hp
  exact ⟨List.mem_of_find?_eq_some h, hp⟩

theorem mem_touch : s ∈ t.touch hash e ↔
    (s ∈ t ∧ s.tokenHash ≠ hash) ∨ ∃ r ∈ t, r.tokenHash = hash ∧ s = { r with expiresAt := e } := by
  unfold touch
  rw [mem_iff, List.mem_map]
  constructor
  · rintro ⟨r, hr, h⟩
    split at h
    · rename_i hh
      exact .inr ⟨r, hr, hh, h.symm⟩
    · rename_i hh
      subst h
      exact .inl ⟨hr, hh⟩
  · rintro (⟨hs, hh⟩ | ⟨r, hr, hh, rfl⟩)
    · exact ⟨s, hs, if_neg hh⟩
    · exact ⟨r, hr, if_pos hh⟩

theorem mem_deleteWhere {p : Session → Bool} : s ∈ t.deleteWhere p ↔ s ∈ t ∧ p s = false := by
  simp only [mem_iff, deleteWhere, List.mem_filter, Bool.not_eq_true']

theorem mem_delete : s ∈ t.delete hash ↔ s ∈ t ∧ s.tokenHash ≠ hash := by
  unfold delete
  rw [mem_deleteWhere, beq_eq_false_iff_ne]

theorem mem_of_mem_deleteExpired (h : s ∈ t.deleteExpired now) : s ∈ t := (mem_deleteWhere.1 h).1

end Sessions

/-! ## The limiter -/

/-- `loginLimiter`: the times of the recent failures of each client. -/
structure Limiter where
  max : Nat
  window : Time
  fails : Dir (List Time)

namespace Limiter

variable {l : Limiter} {ip ip' : String} {now : Time}

/-- `newLoginLimiter`. -/
def newLoginLimiter (max : Nat) (window : Time) : Limiter := ⟨max, window, .empty⟩

/-- The failures on record for `ip`. -/
def failures (l : Limiter) (ip : String) : List Time := (l.fails.get? ip).getD []

/-- `prune`: the failures not older than the window, and the limiter without the others. -/
def prune (l : Limiter) (ip : String) (now : Time) : List Time × Limiter :=
  let kept := (l.failures ip).filter fun t => now - l.window < t
  (kept, { l with fails := if kept = [] then l.fails.remove ip else l.fails.put ip kept })

/-- `blocked`: as many failures within the window as are allowed. -/
def blocked (l : Limiter) (ip : String) (now : Time) : Bool × Limiter :=
  let (kept, l) := l.prune ip now
  (l.max ≤ kept.length, l)

/-- `fail`: one more failure of the client, now. -/
def fail (l : Limiter) (ip : String) (now : Time) : Limiter :=
  let (kept, l) := l.prune ip now
  { l with fails := l.fails.put ip (kept ++ [now]) }

/-- `clear`: the failures of the client are forgotten. -/
def clear (l : Limiter) (ip : String) : Limiter := { l with fails := l.fails.remove ip }

theorem prune_fst : (l.prune ip now).1 = (l.failures ip).filter fun t => now - l.window < t := rfl

@[simp] theorem failures_prune_self : (l.prune ip now).2.failures ip = (l.prune ip now).1 := by
  rw [prune_fst]
  unfold failures prune
  dsimp only
  split
  · rename_i h
    rw [Dir.get?_remove_self]
    exact h.symm
  · rw [Dir.get?_put_self]
    rfl

theorem failures_prune_of_ne (h : ip' ≠ ip) : (l.prune ip now).2.failures ip' = l.failures ip' := by
  unfold failures prune
  dsimp only
  split
  · rw [Dir.get?_remove_of_ne h]
  · rw [Dir.get?_put_of_ne h]

@[simp] theorem failures_fail_self : (l.fail ip now).failures ip = (l.prune ip now).1 ++ [now] := by
  show (((l.prune ip now).2.fails.put ip ((l.prune ip now).1 ++ [now])).get? ip).getD [] = _
  rw [Dir.get?_put_self]
  rfl

theorem failures_fail_of_ne (h : ip' ≠ ip) : (l.fail ip now).failures ip' = l.failures ip' := by
  have hprune : (l.prune ip now).2.failures ip' = l.failures ip' := failures_prune_of_ne h
  rw [← hprune]
  show (((l.prune ip now).2.fails.put ip ((l.prune ip now).1 ++ [now])).get? ip').getD [] = _
  rw [Dir.get?_put_of_ne h]
  rfl

theorem failures_clear_of_ne (h : ip' ≠ ip) : (l.clear ip).failures ip' = l.failures ip' := by
  unfold failures clear
  rw [Dir.get?_remove_of_ne h]

end Limiter

/-! ## Calls -/

/-- `auth.ErrBadCredentials`, or a failure of the backend. -/
inductive AuthnErr
  | badCredentials
  | backend
  deriving DecidableEq

/-- `user.User`, as far as groups go. -/
structure User where
  uid : String
  username : String
  deriving DecidableEq

/-- What the handlers and the gate call for. -/
inductive Op : Type → Type
  | now : Op Time
  | createSession (tokenHash username : String) (expiresAt : Time) : Op (Except StoreErr Unit)
  | validSession (tokenHash : String) (now : Time) : Op (Except StoreErr Session)
  | touchSession (tokenHash : String) (expiresAt : Time) : Op (Except StoreErr Unit)
  | deleteSession (tokenHash : String) : Op (Except StoreErr Unit)
  | deleteExpiredSessions (now : Time) : Op (Except StoreErr Unit)
  /-- 32 random bytes, encoded; the error of `rand.Read`. -/
  | randomToken : Op (Except Unit String)
  | blocked (ip : String) : Op Bool
  | fail (ip : String) : Op Unit
  | clear (ip : String) : Op Unit
  | authenticate (username password : String) : Op (Except AuthnErr Unit)
  | lookupUser (name : String) : Op (Except Unit User)
  | groupIDs (u : User) : Op (Except Unit (List String))
  /-- The name of the group. -/
  | lookupGroup (gid : String) : Op (Except Unit String)
  /-- The handler behind `requireAuth` is called, with the username in the request's context. -/
  | serveHTTP (username : String) : Op Unit

/-- What the machine answers to the `n`-th call of a backend, and the tokens it draws. -/
structure Host where
  token : Nat → String
  authenticate : Nat → String → String → Except AuthnErr Unit
  lookupUser : Nat → String → Except Unit User
  groupIDs : Nat → User → Except Unit (List String)
  lookupGroup : Nat → String → Except Unit String

/-- The state of the server: the table, the limiter, the clock, how many tokens and rows there have been, and the
host. -/
structure State where
  sessions : Sessions
  limiter : Limiter
  time : Time
  /-- The tokens drawn so far. -/
  minted : Nat
  /-- The calls of the backends so far. -/
  ticks : Nat
  host : Host

namespace State

variable (s : State)

/-- A server that has handled no request. -/
def fresh (l : Limiter) (time : Time) (h : Host) : State := ⟨.empty, l, time, 0, 0, h⟩

/-- The answer and effect of a call. -/
def exec {β : Type} (op : Op β) (s : State) : β × State :=
  match op with
  | .now => (s.time, s)
  | .createSession hash username e =>
    match s.sessions.create ⟨hash, username, s.time, e⟩ with
    | some t => (.ok (), { s with sessions := t })
    | none => (.error .failed, s)
  | .validSession hash now =>
    match s.sessions.valid hash now with
    | some r => (.ok r, s)
    | none => (.error .notFound, s)
  | .touchSession hash e => (.ok (), { s with sessions := s.sessions.touch hash e })
  | .deleteSession hash => (.ok (), { s with sessions := s.sessions.delete hash })
  | .deleteExpiredSessions now => (.ok (), { s with sessions := s.sessions.deleteExpired now })
  | .randomToken => (.ok (s.host.token s.minted), { s with minted := s.minted + 1 })
  | .blocked ip => ((s.limiter.blocked ip s.time).1, { s with limiter := (s.limiter.blocked ip s.time).2 })
  | .fail ip => ((), { s with limiter := s.limiter.fail ip s.time })
  | .clear ip => ((), { s with limiter := s.limiter.clear ip })
  | .authenticate u pass => (s.host.authenticate s.ticks u pass, { s with ticks := s.ticks + 1 })
  | .lookupUser name => (s.host.lookupUser s.ticks name, { s with ticks := s.ticks + 1 })
  | .groupIDs u => (s.host.groupIDs s.ticks u, { s with ticks := s.ticks + 1 })
  | .lookupGroup gid => (s.host.lookupGroup s.ticks gid, { s with ticks := s.ticks + 1 })
  | .serveHTTP _ => ((), s)

end State

/-- The store may fail, and so may the source of random bytes. -/
def Op.fault {β : Type} : Op β → Option β
  | .createSession .. => some (.error .failed)
  | .validSession .. => some (.error .failed)
  | .touchSession .. => some (.error .failed)
  | .deleteSession .. => some (.error .failed)
  | .deleteExpiredSessions .. => some (.error .failed)
  | .randomToken => some (.error ())
  | _ => none

instance : Calls Op State := ⟨State.exec, Op.fault⟩

end Nixbox.Auth
