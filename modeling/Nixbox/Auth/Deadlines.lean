/-
The sessions table as it is stored: times are texts, and a deadline has passed or not by comparing texts.
In the years 1000 to 9999 the table answers and changes as one of instants does.
-/
import Mathlib.Data.List.Find
import Nixbox.Auth.State
import Nixbox.Go.Time

namespace Nixbox.Auth

open Go

/-! ## Definitions -/

/-- A row of `sessions`, its timestamps the texts the driver binds. -/
structure StoredSession where
  tokenHash : String
  username : String
  createdAt : String
  expiresAt : String
  deriving DecidableEq

/-- The row as the driver writes it, with its times as text. -/
def stored (s : Session) : StoredSession := ⟨s.tokenHash, s.username, utcString s.createdAt, utcString s.expiresAt⟩

/-- `expires_at > ?`. -/
def expiresAfter (expiresAt : String) (now : Time) : Bool := expiresAt > utcString now

/-- `expires_at <= ?`. -/
def expiresBy (expiresAt : String) (now : Time) : Bool := expiresAt ≤ utcString now

/-- A call that changes the table. -/
inductive SessionCall
  | create (tokenHash username : String) (now expiresAt : Time)
  | touch (tokenHash : String) (expiresAt : Time)
  | delete (tokenHash : String)
  | deleteExpired (now : Time)

/-- The call on a table of instants; a row whose key is taken is not created. -/
def Sessions.call (t : Sessions) : SessionCall → Sessions
  | .create hash username now e => (t.create ⟨hash, username, now, e⟩).getD t
  | .touch hash e => t.touch hash e
  | .delete hash => t.delete hash
  | .deleteExpired now => t.deleteExpired now

/-- The rows after the call's statement. -/
def callRows (rows : List StoredSession) : SessionCall → List StoredSession
  | .create hash username now e =>
    if hash ∈ rows.map (·.tokenHash) then rows else rows ++ [⟨hash, username, utcString now, utcString e⟩]
  | .touch hash e => rows.map fun r => if r.tokenHash = hash then { r with expiresAt := utcString e } else r
  | .delete hash => rows.filter fun r => !(r.tokenHash == hash)
  | .deleteExpired now => rows.filter fun r => !expiresBy r.expiresAt now

/-- `ValidSession`. -/
def validRow (rows : List StoredSession) (hash : String) (now : Time) : Option StoredSession :=
  rows.find? fun r => r.tokenHash == hash && expiresAfter r.expiresAt now

/-- The deadlines and readings of the clock in the call are in the years 1000 to 9999. -/
def SessionCall.InYears : SessionCall → Prop
  | .create _ _ _ e => Go.InYears e
  | .touch _ e => Go.InYears e
  | .delete _ => True
  | .deleteExpired now => Go.InYears now

/-- So are the deadlines in the table. -/
def Sessions.InYears (t : Sessions) : Prop := ∀ r ∈ t, Go.InYears r.expiresAt

/-! ## Comparing texts -/

section Compare

variable {e now : Time}

/-- The queries compare the texts of two instants as the instants compare. -/
theorem queries_compare (he : Go.InYears e) (hnow : Go.InYears now) :
    (expiresAfter (utcString e) now = true ↔ e > now) ∧ (expiresBy (utcString e) now = true ↔ e ≤ now) := by
  unfold expiresAfter expiresBy
  rw [decide_eq_true_eq, decide_eq_true_eq]
  refine ⟨utcString_lt_iff hnow he, ?_⟩
  show ¬ utcString now < utcString e ↔ e ≤ now
  rw [utcString_lt_iff hnow he, not_lt]

theorem expiresAfter_eq (he : Go.InYears e) (hnow : Go.InYears now) :
    expiresAfter (utcString e) now = decide (now < e) := by
  unfold expiresAfter
  exact decide_eq_decide.2 (utcString_lt_iff hnow he)

theorem expiresBy_eq (he : Go.InYears e) (hnow : Go.InYears now) :
    expiresBy (utcString e) now = decide (e ≤ now) := by
  unfold expiresBy
  refine decide_eq_decide.2 ?_
  show ¬ utcString now < utcString e ↔ e ≤ now
  rw [utcString_lt_iff hnow he, not_lt]

/-- A deadline half a second after a minute, at a tenth of a second after it. -/
theorem queries_compare_fraction :
    (expiresAfter (utcString 1709210100500000000) 1709210100100000000 = true ↔
      (1709210100500000000 : Time) > 1709210100100000000) ∧
    (expiresBy (utcString 1709210100500000000) 1709210100100000000 = true ↔
      (1709210100500000000 : Time) ≤ 1709210100100000000) := by
  refine queries_compare ?_ ?_
  all_goals
    unfold Go.InYears
    decide +kernel

end Compare

/-! ## The table of texts -/

section Tables

-- texts are compared by the lemmas above, never by computing them
attribute [local irreducible] utcString

variable {t : Sessions} {c : SessionCall} {rows : List StoredSession} {hash : String} {now : Time}

theorem stored_hashes (t : Sessions) : (t.rows.map stored).map (·.tokenHash) = t.rows.map Session.tokenHash := by
  rw [List.map_map]
  rfl

/-- A statement does to the texts what the call does to the instants. -/
theorem callRows_stored (ht : t.InYears) (hc : c.InYears) :
    callRows (t.rows.map stored) c = (t.call c).rows.map stored := by
  cases c with
  | create hash username now e =>
    unfold callRows Sessions.call Sessions.create
    dsimp only
    rw [stored_hashes]
    split
    · rfl
    · show _ = List.map stored (t.rows ++ [_])
      rw [List.map_append]
      rfl
  | touch hash e =>
    show List.map _ (List.map stored t.rows) = List.map stored (List.map _ t.rows)
    rw [List.map_map, List.map_map]
    refine List.map_congr_left fun r _ => ?_
    dsimp only [Function.comp]
    show (if r.tokenHash = hash then _ else _) = _
    split <;> rfl
  | delete hash =>
    show List.filter _ (List.map stored t.rows) = List.map stored (List.filter _ t.rows)
    rw [List.filter_map]
    rfl
  | deleteExpired now =>
    show List.filter _ (List.map stored t.rows) = List.map stored (List.filter _ t.rows)
    rw [List.filter_map]
    refine congrArg (List.map stored) (List.filter_congr fun r hr => ?_)
    show (!expiresBy (utcString r.expiresAt) now) = !decide (r.expiresAt ≤ now)
    rw [expiresBy_eq (ht r hr) hc]

theorem Sessions.InYears.call (ht : t.InYears) (hc : c.InYears) : (t.call c).InYears := by
  intro r hr
  cases c with
  | create hash username now e =>
    unfold Sessions.call at hr
    dsimp only at hr
    cases hcreate : t.create ⟨hash, username, now, e⟩ with
    | none =>
      rw [hcreate] at hr
      exact ht r hr
    | some t' =>
      rw [hcreate] at hr
      rcases (Sessions.mem_create hcreate).1 hr with hr | rfl
      · exact ht r hr
      · exact hc
  | touch hash e =>
    rcases Sessions.mem_touch.1 hr with ⟨hr, -⟩ | ⟨old, -, -, rfl⟩
    · exact ht r hr
    · exact hc
  | delete hash => exact ht r (Sessions.mem_delete.1 hr).1
  | deleteExpired now => exact ht r (Sessions.mem_of_mem_deleteExpired hr)

/-- After any calls the texts stand for the table of instants. -/
theorem foldl_callRows (ht : t.InYears) (cs : List SessionCall) (hcs : ∀ c ∈ cs, c.InYears) :
    cs.foldl callRows (t.rows.map stored) = (cs.foldl Sessions.call t).rows.map stored ∧
    (cs.foldl Sessions.call t).InYears := by
  induction cs generalizing t with
  | nil => exact ⟨rfl, ht⟩
  | cons c cs ih =>
    have hc := hcs c (List.mem_cons_self ..)
    rw [List.foldl_cons, List.foldl_cons, callRows_stored ht hc]
    exact ih (ht.call hc) fun c hc => hcs c (List.mem_cons_of_mem _ hc)

/-- A lookup finds the row of the session that is valid. -/
theorem validRow_stored (ht : t.InYears) (hnow : Go.InYears now) :
    validRow (t.rows.map stored) hash now = (t.valid hash now).map stored := by
  unfold validRow Sessions.valid
  rw [List.find?_map]
  refine congrArg (Option.map stored) (List.find?_congr fun r hr => ?_)
  show (r.tokenHash == hash && expiresAfter (utcString r.expiresAt) now) =
    (r.tokenHash == hash && decide (now < r.expiresAt))
  rw [expiresAfter_eq (ht r hr) hnow]

end Tables

end Nixbox.Auth
