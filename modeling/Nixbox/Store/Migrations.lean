/-
Opening the database: the migrations not yet applied run in order, each in a transaction with the
version it leads to. Any statement may fail and the process may die between any two.
-/
import Nixbox.Lib.Crash

namespace Nixbox.Store.Migrate

open Effect Prog

/-! ## The database file -/

/-- What a migration does to the schema; `none` if one of its statements is not possible. -/
abbrev Migration (σ : Type) := σ → Option σ

/-- The content of the file, as far as migrations are concerned. -/
@[ext] structure File (σ : Type) where
  schema : σ
  userVersion : Nat
  deriving DecidableEq, Repr

/-- A connection: the committed content, and that of the open transaction. -/
structure Conn (σ : Type) where
  committed : File σ
  tx : Option (File σ)

/-- What a statement fails with. -/
inductive SqlErr
  | failed
  deriving DecidableEq, Repr

/-- The statements of `migrate`. -/
inductive Op (σ : Type) : Type → Type
  | userVersion : Op σ (Except SqlErr Nat)
  | begin : Op σ (Except SqlErr Unit)
  | exec (m : Migration σ) : Op σ (Except SqlErr Unit)
  | setUserVersion (v : Nat) : Op σ (Except SqlErr Unit)
  | commit : Op σ (Except SqlErr Unit)
  | rollback : Op σ Unit
  | close : Op σ Unit

variable {σ : Type}

namespace Conn

/-- A connection to the file. -/
def open_ (f : File σ) : Conn σ := ⟨f, none⟩

/-- A statement inside the transaction. -/
def inTx (c : Conn σ) (f : File σ → Option (File σ)) : Except SqlErr Unit × Conn σ :=
  match c.tx.bind f with
  | some d => (.ok (), { c with tx := some d })
  | none => (.error .failed, c)

/-- The answer and effect of a call. -/
def exec {β : Type} : Op σ β → Conn σ → β × Conn σ
  | .userVersion, c => (.ok (c.tx.getD c.committed).userVersion, c)
  | .begin, c => (.ok (), { c with tx := some c.committed })
  | .exec m, c => c.inTx fun d => (m d.schema).map fun schema => { d with schema := schema }
  | .setUserVersion v, c => c.inTx fun d => some { d with userVersion := v }
  | .commit, c => (.ok (), ⟨c.tx.getD c.committed, none⟩)
  | .rollback, c => ((), { c with tx := none })
  | .close, c => ((), { c with tx := none })

end Conn

/-- A statement that fails leaves the connection as it was; nobody looks at the error of rolling
back or closing. -/
def Op.fault {β : Type} : Op σ β → Option β
  | .userVersion => some (.error .failed)
  | .begin | .exec _ | .setUserVersion _ | .commit => some (.error .failed)
  | .rollback | .close => some ()

instance : Calls (Op σ) (Conn σ) := ⟨Conn.exec, Op.fault⟩

/-! ## Opening -/

/-- The errors of `Open`: one of a migration has its number. -/
inductive OpenErr
  | migration (number : Nat) (e : SqlErr)
  | sql (e : SqlErr)
  deriving DecidableEq, Repr

/-- A statement whose error ends the function. -/
def sql {α : Type} (op : Op σ (Except SqlErr α)) : ExceptT OpenErr (Prog (Op σ)) α := do
  match ← ExceptT.lift (perform op) with
  | .ok a => return a
  | .error e => throw (.sql e)

/-- A statement whose error rolls the transaction back and ends the function. -/
def orRollback (op : Op σ (Except SqlErr Unit)) (err : SqlErr → OpenErr) : ExceptT OpenErr (Prog (Op σ)) Unit := do
  match ← ExceptT.lift (perform op) with
  | .ok () => return ()
  | .error e =>
    ExceptT.lift (perform .rollback)
    throw (err e)

/-- The loop of `migrate` from index `i` on, where the migrations `ms` are left. -/
def applyFrom (i : Nat) : List (Migration σ) → ExceptT OpenErr (Prog (Op σ)) Unit
  | [] => return ()
  | m :: ms => do
    sql .begin
    orRollback (.exec m) (.migration (i + 1))
    orRollback (.setUserVersion (i + 1)) .sql
    sql .commit
    applyFrom (i + 1) ms

/-- `migrate`: those after the version of the file, each in a transaction of its own. -/
def migrate (migrations : List (Migration σ)) : ExceptT OpenErr (Prog (Op σ)) Unit := do
  let version ← sql .userVersion
  applyFrom version (migrations.drop version)

/-- `Open`: on an error the connection is closed. -/
def openDb (migrations : List (Migration σ)) : ExceptT OpenErr (Prog (Op σ)) Unit := do
  match ← ExceptT.lift (migrate migrations).run with
  | .ok () => return ()
  | .error e =>
    ExceptT.lift (perform .close)
    throw e

/-- An `Open` by a program that carries `migrations`: the statements that fail, and after how many
of them the process dies, if it does. -/
structure Attempt (σ : Type) where
  migrations : List (Migration σ)
  faults : List Bool
  dies : Option Nat

namespace Attempt

/-- The connection the attempt leaves. -/
def conn (a : Attempt σ) (f : File σ) : Conn σ :=
  match a.dies with
  | some n => (openDb a.migrations).run.cutAt n a.faults (.open_ f)
  | none => ((openDb a.migrations).run.runWith a.faults (.open_ f)).2

/-- What a later `Open` finds: the connection is gone, and with it an open transaction. -/
def after (f : File σ) (a : Attempt σ) : File σ := (a.conn f).committed

/-- What `Open` returned, if the process lived to see it. -/
def result (a : Attempt σ) (f : File σ) : Option (Except OpenErr Unit) :=
  match a.dies with
  | some _ => none
  | none => some ((openDb a.migrations).run.runWith a.faults (.open_ f)).1

end Attempt

/-! ## The effect of migrations -/

/-- The schema the migrations lead to, applied once each and in order. -/
def effect (s : σ) (ms : List (Migration σ)) : Option σ := ms.foldlM (fun s m => m s) s

/-- The file has the schema of as many of the migrations as its version says. -/
structure Migrated (s₀ : σ) (ms : List (Migration σ)) (f : File σ) : Prop where
  version : f.userVersion ≤ ms.length
  schema : effect s₀ (ms.take f.userVersion) = some f.schema

theorem effect_append {s : σ} {l m : List (Migration σ)} :
    effect s (l ++ m) = (effect s l).bind fun s' => effect s' m := List.foldlM_append

/-! ## What the statements do -/

section Statements

variable {α : Type} {I : Conn σ → Prop} {c : Conn σ} {P : α → Conn σ → Prop}

theorem sql_throughout {op : Op σ (Except SqlErr α)} (hi : I c) (hop : I (Calls.exec op c).2 ∧
    ∀ a, (Calls.exec op c).1 = .ok a → P a (Calls.exec op c).2) (hf : Op.fault op = some (.error .failed)) :
    Throughout I (OnOk P) (sql op).run c := by
  have hlift : Throughout I (OnOk (ε := OpenErr) fun r c' => ∀ a, r = .ok a → P a c')
      (ExceptT.lift (perform op) : ExceptT OpenErr (Prog (Op σ)) (Except SqlErr α)).run c := by
    refine throughout_lift (throughout_perform.2 ⟨hi, hop, fun b hb => ⟨hi, ?_⟩⟩)
    rw [show Calls.fault op = _ from hf] at hb
    cases hb
    exact nofun
  refine hlift.seqOk fun r c' hi hr => ?_
  cases r with
  | ok a => exact throughout_return hi (hr a rfl)
  | error e => exact throughout_throw hi

/-- Rolling back leaves what is committed, so it keeps a property of that. -/
theorem orRollback_throughout {op : Op σ (Except SqlErr Unit)} {err : SqlErr → OpenErr}
    {P : Unit → Conn σ → Prop}
    (hI : ∀ c c' : Conn σ, c'.committed = c.committed → I c → I c') (hi : I c) (hop : I (Calls.exec op c).2 ∧
    ∀ a, (Calls.exec op c).1 = .ok a → P a (Calls.exec op c).2) (hf : Op.fault op = some (.error .failed)) :
    Throughout I (OnOk P) (orRollback op err).run c := by
  have hlift : Throughout I (OnOk (ε := OpenErr) fun r c' => ∀ a, r = .ok a → P a c')
      (ExceptT.lift (perform op) : ExceptT OpenErr (Prog (Op σ)) (Except SqlErr Unit)).run c := by
    refine throughout_lift (throughout_perform.2 ⟨hi, hop, fun b hb => ⟨hi, ?_⟩⟩)
    rw [show Calls.fault op = _ from hf] at hb
    cases hb
    exact nofun
  refine hlift.seqOk fun r c' hi hr => ?_
  cases r with
  | ok a => exact throughout_return hi (hr a rfl)
  | error e =>
    have hroll : Throughout I (fun _ _ => True) (perform (Op.rollback (σ := σ))) c' :=
      throughout_perform.2 ⟨hi, ⟨hI c' _ rfl hi, trivial⟩, fun _ _ => ⟨hi, trivial⟩⟩
    exact (throughout_lift hroll).seqOk fun _ _ hi _ => throughout_throw hi

end Statements

/-! ## The loop -/

/-- What every point between two statements has: a prefix of the migrations is committed, no
shorter than before. -/
def Committed (s₀ : σ) (L : List (Migration σ)) (v : Nat) (c : Conn σ) : Prop :=
  Migrated s₀ L c.committed ∧ v ≤ c.committed.userVersion

theorem committed_congr {s₀ : σ} {L : List (Migration σ)} {v : Nat} (c c' : Conn σ)
    (h : c'.committed = c.committed) (hc : Committed s₀ L v c) : Committed s₀ L v c' := by
  unfold Committed
  rw [h]
  exact hc

/-- One more migration, with the version it leads to. -/
theorem migrated_succ {s₀ : σ} {L ms rest : List (Migration σ)} {m : Migration σ} {f : File σ} {s : σ}
    (h : Migrated s₀ L f) (hL : L.drop f.userVersion = m :: ms ++ rest) (hm : m f.schema = some s) :
    Migrated s₀ L ⟨s, f.userVersion + 1⟩ := by
  have hlt : f.userVersion < L.length := by
    have hlen := congrArg List.length hL
    simp only [List.length_drop, List.length_append, List.length_cons] at hlen
    omega
  have hget : L[f.userVersion]? = some m := by
    have h0 := congrArg (fun l => l[0]?) hL
    simpa [List.getElem?_drop] using h0
  refine ⟨hlt, ?_⟩
  rw [List.take_add_one, hget, effect_append, h.schema]
  simp [effect, hm]

/-- A migration that goes through changes the schema of the open transaction. -/
theorem exec_ok {s₀ : σ} {L : List (Migration σ)} {v : Nat} {m : Migration σ} {f : File σ}
    (hi : Committed s₀ L v ⟨f, some f⟩) : Committed s₀ L v (Calls.exec (Op.exec m) ⟨f, some f⟩).2 ∧
      ∀ a, (Calls.exec (Op.exec m) ⟨f, some f⟩).1 = .ok a →
        ∃ s, m f.schema = some s ∧ (Calls.exec (Op.exec m) ⟨f, some f⟩).2 =
          ⟨f, some ⟨s, f.userVersion⟩⟩ := by
  show Committed s₀ L v (Conn.inTx _ _).2 ∧ ∀ a, (Conn.inTx _ _).1 = .ok a →
    ∃ s, m f.schema = some s ∧ (Conn.inTx _ _).2 = _
  unfold Conn.inTx
  cases hm : m f.schema with
  | none => simp [hm, hi]
  | some s =>
    simp only [Option.bind_some, hm, Option.map_some]
    exact ⟨hi, fun _ _ => ⟨s, rfl, rfl⟩⟩

theorem applyFrom_throughout {s₀ : σ} {L ms rest : List (Migration σ)} {f : File σ} {v : Nat}
    (h : Migrated s₀ L f) (hv : v ≤ f.userVersion) (hL : L.drop f.userVersion = ms ++ rest) :
    Throughout (Committed s₀ L v) (OnOk fun _ c => c.committed.userVersion = f.userVersion + ms.length)
      (applyFrom f.userVersion ms).run (.open_ f) := by
  induction ms generalizing f with
  | nil => exact throughout_return ⟨h, hv⟩ rfl
  | cons m ms ih =>
    refine (sql_throughout (P := fun _ c => c = ⟨f, some f⟩) ⟨h, hv⟩ ?_ rfl).seqOk ?_
    · exact ⟨⟨h, hv⟩, fun _ _ => rfl⟩
    rintro _ _ hi rfl
    refine (orRollback_throughout (P := fun _ c => ∃ s, m f.schema = some s ∧
      c = ⟨f, some ⟨s, f.userVersion⟩⟩) committed_congr hi ?_ rfl).seqOk ?_
    · exact exec_ok hi
    rintro _ _ hi ⟨s, hm, rfl⟩
    refine (orRollback_throughout (P := fun _ c => c = ⟨f, some ⟨s, f.userVersion + 1⟩⟩) committed_congr hi ?_
      rfl).seqOk ?_
    · exact ⟨hi, fun _ _ => rfl⟩
    rintro _ _ hi rfl
    -- the version goes up in the transaction of its migration
    have hnext : Migrated s₀ L ⟨s, f.userVersion + 1⟩ := migrated_succ h hL hm
    have hv' : v ≤ f.userVersion + 1 := by omega
    refine (sql_throughout (P := fun _ c => c = .open_ ⟨s, f.userVersion + 1⟩) hi ?_ rfl).seqOk ?_
    · exact ⟨⟨hnext, hv'⟩, fun _ _ => rfl⟩
    rintro _ _ hi rfl
    have hL' : L.drop (f.userVersion + 1) = ms ++ rest := by
      rw [← List.drop_drop, hL]
      rfl
    refine (ih hnext hv' hL').mono fun r c _ hr a ha => ?_
    have hver : c.committed.userVersion = f.userVersion + 1 + ms.length := hr a ha
    show c.committed.userVersion = f.userVersion + (m :: ms).length
    rw [hver, List.length_cons]
    omega

/-! ## One Open -/

section Open

variable {s₀ : σ} {L ms : List (Migration σ)} {f : File σ}

theorem migrate_throughout (h : Migrated s₀ L f) (hms : ms <+: L) :
    Throughout (Committed s₀ L f.userVersion)
      (OnOk fun _ c => c.committed.userVersion = max f.userVersion ms.length) (migrate ms).run (.open_ f) := by
  have hi : Committed s₀ L f.userVersion (.open_ f) := ⟨h, Nat.le_refl f.userVersion⟩
  refine (sql_throughout (P := fun v c => v = f.userVersion ∧ c = .open_ f) hi ?_ rfl).seqOk ?_
  · exact ⟨hi, fun v hv => ⟨by cases hv; rfl, rfl⟩⟩
  rintro v c - ⟨rfl, rfl⟩
  obtain ⟨rest, rfl⟩ := hms
  -- a file newer than the program has no migration left to run
  have hL : ∃ rest', (ms ++ rest).drop f.userVersion = ms.drop f.userVersion ++ rest' := by
    rw [List.drop_append]
    exact ⟨_, rfl⟩
  obtain ⟨rest', hL⟩ := hL
  refine (applyFrom_throughout h (Nat.le_refl f.userVersion) hL).mono fun r c _ hr a ha => ?_
  have hver : c.committed.userVersion = f.userVersion + (ms.drop f.userVersion).length := hr a ha
  show c.committed.userVersion = max f.userVersion ms.length
  rw [hver, List.length_drop]
  omega

theorem openDb_throughout (h : Migrated s₀ L f) (hms : ms <+: L) :
    Throughout (Committed s₀ L f.userVersion)
      (OnOk fun _ c => c.committed.userVersion = max f.userVersion ms.length) (openDb ms).run (.open_ f) := by
  refine (throughout_lift (migrate_throughout h hms)).seqOk fun r c hi hr => ?_
  cases r with
  | ok a => exact throughout_return hi (hr a rfl)
  | error e =>
    have hclose : Throughout (Committed s₀ L f.userVersion) (fun _ _ => True) (perform (Op.close (σ := σ))) c :=
      throughout_perform.2 ⟨hi, ⟨committed_congr c _ rfl hi, trivial⟩, fun _ _ => ⟨hi, trivial⟩⟩
    exact (throughout_lift hclose).seqOk fun _ _ hi _ => throughout_throw hi

namespace Attempt

/-- Wherever an attempt ends, the file has the effect of a prefix, no shorter than before. -/
theorem after_migrated {a : Attempt σ} (h : Migrated s₀ L f) (ha : a.migrations <+: L) :
    Migrated s₀ L (a.after f) ∧ f.userVersion ≤ (a.after f).userVersion := by
  have hopen := openDb_throughout h ha
  unfold after conn
  cases a.dies with
  | some n => exact hopen.cutAt n a.faults
  | none => exact (hopen.runWith a.faults).1

theorem version_of_ok {a : Attempt σ} (h : Migrated s₀ L f) (ha : a.migrations <+: L)
    (hok : a.result f = some (.ok ())) : (a.after f).userVersion = max f.userVersion a.migrations.length := by
  have hopen := openDb_throughout h ha
  unfold result at hok
  unfold after conn
  cases hd : a.dies with
  | some n => rw [hd] at hok; exact nomatch hok
  | none =>
    rw [hd] at hok
    exact (hopen.runWith a.faults).2 () (Option.some.inj hok)

end Attempt

section Runs

variable {α β : Type} {c c' : Conn σ}

theorem run_sql {op : Op σ (Except SqlErr α)} {a : α} {k : α → ExceptT OpenErr (Prog (Op σ)) β}
    (h : Calls.exec op c = (.ok a, c')) : (sql op >>= k).run.run c = (k a).run.run c' := by
  have hop : (sql op).run.run c = (.ok a, c') := by
    unfold sql
    rw [run_exceptT_bind, ExceptT.run_lift, run_map, run_perform, h]
    rfl
  rw [run_exceptT_bind, hop]

theorem run_orRollback {op : Op σ (Except SqlErr Unit)} {err : SqlErr → OpenErr}
    {k : Unit → ExceptT OpenErr (Prog (Op σ)) β} (h : Calls.exec op c = (.ok (), c')) :
    (orRollback op err >>= k).run.run c = (k ()).run.run c' := by
  have hop : (orRollback op err).run.run c = (.ok (), c') := by
    unfold orRollback
    rw [run_exceptT_bind, ExceptT.run_lift, run_map, run_perform, h]
    rfl
  rw [run_exceptT_bind, hop]

end Runs

/-- Without faults the loop runs to its end, if the migrations are possible. -/
theorem run_applyFrom {s : σ} (h : effect f.schema ms = some s) :
    (applyFrom f.userVersion ms).run.run (.open_ f) = (.ok (), .open_ ⟨s, f.userVersion + ms.length⟩) := by
  induction ms generalizing f with
  | nil =>
    cases h
    rfl
  | cons m ms ih =>
    obtain ⟨s', hm, hs⟩ := Option.bind_eq_some_iff.1 h
    have hexec : Calls.exec (Op.exec m) (⟨f, some f⟩ : Conn σ) =
        (.ok (), ⟨f, some ⟨s', f.userVersion⟩⟩) := by
      show Conn.inTx _ _ = _
      simp [Conn.inTx, hm]
    have hbegin : Calls.exec Op.begin (.open_ f) = (.ok (), ⟨f, some f⟩) := rfl
    unfold applyFrom
    calc _ = (applyFrom (f.userVersion + 1) ms).run.run (.open_ ⟨s', f.userVersion + 1⟩) := by
          rw [run_sql hbegin, run_orRollback hexec, run_orRollback rfl, run_sql rfl]
          rfl
      _ = _ := ih (f := ⟨s', f.userVersion + 1⟩) hs
      _ = _ := by rw [List.length_cons, Nat.add_right_comm, Nat.add_assoc f.userVersion]

/-- An `Open` with no faults applies what is left, if that is possible. -/
theorem run_openDb {s : σ} (h : effect f.schema (ms.drop f.userVersion) = some s) :
    (openDb ms).run.run (.open_ f) = (.ok (), .open_ ⟨s, f.userVersion + (ms.drop f.userVersion).length⟩) := by
  have hmigrate : (migrate ms).run.run (.open_ f) =
      (.ok (), .open_ ⟨s, f.userVersion + (ms.drop f.userVersion).length⟩) := by
    have hver : Calls.exec Op.userVersion (.open_ f) = (.ok f.userVersion, .open_ f) := rfl
    unfold migrate
    rw [run_sql hver]
    exact run_applyFrom h
  unfold openDb
  rw [run_exceptT_bind, ExceptT.run_lift, run_map, hmigrate]
  rfl

namespace Attempt

/-- An `Open` of a process that lives, where no statement fails. -/
def undisturbed (ms : List (Migration σ)) : Attempt σ := ⟨ms, [], none⟩

theorem conn_undisturbed {f : File σ} {s : σ} (h : effect f.schema (ms.drop f.userVersion) = some s) :
    (undisturbed ms).result f = some (.ok ()) ∧
      (undisturbed ms).after f = ⟨s, f.userVersion + (ms.drop f.userVersion).length⟩ := by
  unfold result after conn undisturbed
  rw [runWith_nil, run_openDb h]
  exact ⟨rfl, rfl⟩

end Attempt

/-- The migrations left to run lead from the schema of the file to that of all of them. -/
theorem effect_drop (h : Migrated s₀ ms f) : effect f.schema (ms.drop f.userVersion) = effect s₀ ms := by
  conv => rhs; rw [← List.take_append_drop f.userVersion ms, effect_append, h.schema]
  rfl

/-- A file that is not newer than the program is one of the program's. -/
theorem Migrated.upTo (h : Migrated s₀ L f) (hms : ms <+: L) (hv : f.userVersion ≤ ms.length) :
    Migrated s₀ ms f := by
  obtain ⟨rest, rfl⟩ := hms
  refine ⟨hv, ?_⟩
  rw [← h.schema, List.take_append_of_le_length hv]

end Open

/-! ## Every sequence of attempts -/

section Attempts

variable {s₀ : σ} {L ms : List (Migration σ)} {f : File σ}

theorem afterAll_migrated {as : List (Attempt σ)} (h : Migrated s₀ L f) (has : ∀ a ∈ as, a.migrations <+: L) :
    Migrated s₀ L (as.foldl Attempt.after f) ∧ f.userVersion ≤ (as.foldl Attempt.after f).userVersion := by
  induction as generalizing f with
  | nil => exact ⟨h, Nat.le_refl _⟩
  | cons a as ih =>
    obtain ⟨hone, hle⟩ := Attempt.after_migrated h (has a (.head _))
    obtain ⟨hall, hle'⟩ := ih hone fun b hb => has b (.tail _ hb)
    exact ⟨hall, Nat.le_trans hle hle'⟩

theorem effect_fresh {s : σ} (h : effect s₀ ms = some s) :
    (Attempt.undisturbed ms).after ⟨s₀, 0⟩ = ⟨s, ms.length⟩ := by
  have hrun := (Attempt.conn_undisturbed (f := ⟨s₀, 0⟩) h).2
  rw [hrun, List.drop_zero, Nat.zero_add]

/-- What attempts have made of `f`: their programs carry the first of the migrations `L`, as many
as were written at the time. -/
structure Settled (s₀ : σ) (L : List (Migration σ)) (f f' : File σ) : Prop where
  migrated : Migrated s₀ L f'
  kept : f.userVersion ≤ f'.userVersion
  /-- An `Open` that succeeds has applied all of its migrations, whatever failed before. -/
  applied : ∀ a : Attempt σ, a.migrations <+: L → f'.userVersion ≤ a.migrations.length →
    a.result f' = some (.ok ()) →
    (a.after f').userVersion = a.migrations.length ∧ effect s₀ a.migrations = some (a.after f').schema
  /-- It leaves the same as the migration of a fresh file. -/
  asFresh : ∀ a : Attempt σ, a.migrations <+: L → f'.userVersion ≤ a.migrations.length →
    a.result f' = some (.ok ()) → a.after f' = (Attempt.undisturbed a.migrations).after ⟨s₀, 0⟩
  /-- An `Open` continues where the file is: it adds the effect of the migrations that are left. -/
  continues : ∀ ms s, ms <+: L → f'.userVersion ≤ ms.length → effect s₀ ms = some s →
    effect f'.schema (ms.drop f'.userVersion) = some s ∧
      (Attempt.undisturbed ms).result f' = some (.ok ()) ∧ (Attempt.undisturbed ms).after f' = ⟨s, ms.length⟩

theorem applied_of_migrated {a : Attempt σ} (h : Migrated s₀ L f) (ha : a.migrations <+: L)
    (hv : f.userVersion ≤ a.migrations.length) (hok : a.result f = some (.ok ())) :
    (a.after f).userVersion = a.migrations.length ∧ effect s₀ a.migrations = some (a.after f).schema := by
  have hver := Attempt.version_of_ok h ha hok
  rw [Nat.max_eq_right hv] at hver
  have hend := (Attempt.after_migrated h ha).1.upTo ha (Nat.le_of_eq hver)
  refine ⟨hver, ?_⟩
  have hall := hend.schema
  rwa [hver, List.take_length] at hall

theorem continues_of_migrated {s : σ} (h : Migrated s₀ L f) (hms : ms <+: L) (hv : f.userVersion ≤ ms.length)
    (hs : effect s₀ ms = some s) : effect f.schema (ms.drop f.userVersion) = some s ∧
      (Attempt.undisturbed ms).result f = some (.ok ()) ∧ (Attempt.undisturbed ms).after f = ⟨s, ms.length⟩ := by
  have hleft : effect f.schema (ms.drop f.userVersion) = some s := by
    rw [effect_drop (h.upTo hms hv), hs]
  obtain ⟨hok, hafter⟩ := Attempt.conn_undisturbed hleft
  refine ⟨hleft, hok, ?_⟩
  rw [hafter, List.length_drop, Nat.add_sub_cancel' hv]

/-- Whatever fails in a sequence of `Open` calls and wherever its processes die, and also when later
programs carry more migrations, the file never has more or less than what its version says. -/
theorem open_migrates {as : List (Attempt σ)} (h : Migrated s₀ L f) (has : ∀ a ∈ as, a.migrations <+: L) :
    Settled s₀ L f (as.foldl Attempt.after f) := by
  obtain ⟨hend, hkept⟩ := afterAll_migrated h has
  refine ⟨hend, hkept, fun a => applied_of_migrated hend, ?_, fun ms s => continues_of_migrated hend⟩
  intro a ha hv hok
  obtain ⟨hver, hschema⟩ := applied_of_migrated hend ha hv hok
  rw [effect_fresh hschema, ← hver]

/-- Migrations that write their number down, of which the first two came with an earlier release. -/
private def exampleMigrations : List (Migration (List Nat)) :=
  [1, 2, 3].map fun n s => some (s ++ [n])

/-- The second commit fails; then the process dies before that commit; then one with the third
migration dies in it. -/
private def exampleAttempts : List (Attempt (List Nat)) :=
  [⟨exampleMigrations.take 2, [false, false, false, false, false, false, false, false, true], none⟩,
    ⟨exampleMigrations.take 2, [], some 4⟩, ⟨exampleMigrations, [], some 7⟩]

theorem open_migrates_thrice : exampleAttempts.foldl Attempt.after ⟨[], 0⟩ = ⟨[1, 2], 2⟩ ∧
    Settled [] exampleMigrations ⟨[], 0⟩ (exampleAttempts.foldl Attempt.after ⟨[], 0⟩) := by
  refine ⟨by decide, open_migrates ⟨Nat.zero_le _, rfl⟩ ?_⟩
  intro a ha
  simp only [exampleAttempts, List.mem_cons, List.not_mem_nil, or_false] at ha
  rcases ha with rfl | rfl | rfl
  · exact List.take_prefix 2 exampleMigrations
  · exact List.take_prefix 2 exampleMigrations
  · exact List.prefix_refl exampleMigrations

end Attempts

end Nixbox.Store.Migrate
