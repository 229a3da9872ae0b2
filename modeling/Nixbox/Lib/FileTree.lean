/-
A tree of files, and the calls of an operating system that change it, each of which may fail. What a file
holds is kept; its mode and the data not yet on disk are not.
-/
import Mathlib.Logic.Function.Basic
import Nixbox.Lib.Program

namespace FileTree

open Effect Prog Function

/-- The names from the root down; the root itself has none. -/
abbrev Path := List String

/-- A directory, or a file with its content. -/
inductive Node
  | dir
  | file (content : ByteArray)

/-- What there is under each path. -/
abbrev Tree := Path → Option Node

/-- What an error of a call is tested for. -/
inductive Errno
  | notExist
  | other
  deriving DecidableEq, Repr

/-- The names the system picks for temporary files: of the given beginning, and none that is taken; the same
question may be answered differently another time, or not at all. -/
structure TempNames where
  pick : Nat → Path → String → Tree → Option String
  free : ∀ {n dir start t name}, pick n dir start t = some name → t (dir ++ [name]) = none
  starts : ∀ {n dir start t name}, pick n dir start t = some name → start.toList <+: name.toList

/-- The operating system: the tree, how many temporary names have been drawn, and what they are. -/
structure Os where
  tree : Tree
  /-- The number of names picked so far. -/
  picked : Nat
  names : TempNames

/-- The calls, by what they answer. -/
inductive Op : Type → Type
  | mkdirAll (p : Path) : Op (Except Errno Unit)
  | stat (p : Path) : Op (Except Errno Unit)
  | createTemp (dir : Path) (start : String) : Op (Except Errno Path)
  | write (p : Path) (data : ByteArray) : Op (Except Errno Unit)
  | chmod (p : Path) (mode : Nat) : Op (Except Errno Unit)
  | sync (p : Path) : Op (Except Errno Unit)
  | close (p : Path) : Op (Except Errno Unit)
  | rename (p q : Path) : Op (Except Errno Unit)
  | remove (p : Path) : Op (Except Errno Unit)

/-- A function that makes such calls and may fail. -/
abbrev Io (α : Type) := ExceptT Errno (Prog Op) α

/-- There is a file. -/
def isFile : Option Node → Bool
  | some (.file _) => true
  | _ => false

/-- The tree with the directory `p` and those above it. -/
def Tree.withDirs (t : Tree) (p : Path) : Tree := fun q => if q <+: p then some .dir else t q

namespace Os

variable (s : Os)

/-- `os.MkdirAll`: a file in the way is an error, and what is missing is made. -/
def mkdirAll (p : Path) : Except Errno Unit × Os :=
  if p.inits.any fun q => isFile (s.tree q) then (.error .other, s) else (.ok (), { s with tree := s.tree.withDirs p })

/-- `os.Stat`, for whether there is something. -/
def stat (p : Path) : Except Errno Unit × Os :=
  match s.tree p with
  | some _ => (.ok (), s)
  | none => (.error .notExist, s)

/-- An empty file under a name that was free. -/
def createTemp (dir : Path) (start : String) : Except Errno Path × Os :=
  match s.tree dir, s.names.pick s.picked dir start s.tree with
  | some .dir, some name => (.ok (dir ++ [name]), { s with
      tree := update s.tree (dir ++ [name]) (some (.file .empty))
      picked := s.picked + 1 })
  | _, _ => (.error .other, s)

/-- The data is appended. -/
def write (p : Path) (data : ByteArray) : Except Errno Unit × Os :=
  match s.tree p with
  | some (.file content) => (.ok (), { s with tree := update s.tree p (some (.file (content ++ data))) })
  | _ => (.error .other, s)

/-- A file takes the place of another, or none. -/
def rename (p q : Path) : Except Errno Unit × Os :=
  match s.tree p, s.tree q, s.tree q.dropLast with
  | some (.file _), some .dir, _ => (.error .other, s)
  | some (.file content), _, some .dir => (.ok (), { s with
      tree := update (update s.tree p none) q (some (.file content)) })
  | _, _, _ => (.error .other, s)

/-- `os.Remove` of a file. -/
def remove (p : Path) : Except Errno Unit × Os :=
  match s.tree p with
  | some (.file _) => (.ok (), { s with tree := update s.tree p none })
  | some .dir => (.error .other, s)
  | none => (.error .notExist, s)

/-- The answer and effect of a call. -/
def exec {β : Type} : Op β → Os → β × Os
  | .mkdirAll p, s => s.mkdirAll p
  | .stat p, s => s.stat p
  | .createTemp dir start, s => s.createTemp dir start
  | .write p data, s => s.write p data
  | .chmod .., s => (.ok (), s)
  | .sync _, s => (.ok (), s)
  | .close _, s => (.ok (), s)
  | .rename p q, s => s.rename p q
  | .remove p, s => s.remove p

end Os

/-- Any call can fail with another error than that the file does not exist. -/
def Op.fail {β : Type} : Op β → β
  | .mkdirAll _ => .error .other
  | .stat _ => .error .other
  | .createTemp .. => .error .other
  | .write .. => .error .other
  | .chmod .. => .error .other
  | .sync _ => .error .other
  | .close _ => .error .other
  | .rename .. => .error .other
  | .remove _ => .error .other

instance : Calls Op Os where
  exec := Os.exec
  fault op := some op.fail

/-- A call, as a program that may stop. -/
def call {α : Type} (op : Op (Except Errno α)) : Io α := ExceptT.mk (perform op)

/-- The result of a function as a value, for a caller that goes on after an error. -/
def attempt {α : Type} (x : Io α) : Io (Except Errno α) := ExceptT.lift x.run

/-! ## What each call can do -/

namespace Os

variable {s : Os} {p q : Path} {content data : ByteArray}

@[simp] theorem exec_chmod {mode : Nat} : exec (.chmod p mode) s = (.ok (), s) := rfl

@[simp] theorem exec_sync : exec (.sync p) s = (.ok (), s) := rfl

@[simp] theorem exec_close : exec (.close p) s = (.ok (), s) := rfl

theorem mkdirAll_cases : exec (.mkdirAll p) s = (.error .other, s) ∨
    exec (.mkdirAll p) s = (.ok (), { s with tree := s.tree.withDirs p }) := by
  dsimp only [exec]
  unfold mkdirAll
  split
  · exact .inl rfl
  · exact .inr rfl

theorem createTemp_cases (dir : Path) (start : String) : exec (.createTemp dir start) s = (.error .other, s) ∨
    ∃ name, start.toList <+: name.toList ∧ s.tree (dir ++ [name]) = none ∧ exec (.createTemp dir start) s =
      (.ok (dir ++ [name]), { s with
        tree := update s.tree (dir ++ [name]) (some (.file .empty))
        picked := s.picked + 1 }) := by
  dsimp only [exec]
  unfold createTemp
  split
  · rename_i name _ hpick
    exact .inr ⟨name, s.names.starts hpick, s.names.free hpick, rfl⟩
  · exact .inl rfl

theorem write_file (h : s.tree p = some (.file content)) :
    exec (.write p data) s = (.ok (), { s with tree := update s.tree p (some (.file (content ++ data))) }) := by
  dsimp only [exec]
  unfold write
  rw [h]

theorem rename_file (h : s.tree p = some (.file content)) : exec (.rename p q) s = (.error .other, s) ∨
    exec (.rename p q) s = (.ok (), { s with tree := update (update s.tree p none) q (some (.file content)) }) := by
  dsimp only [exec]
  unfold rename
  rw [h]
  split
  · exact .inl rfl
  · rename_i heq _ _
    cases heq
    exact .inr rfl
  · exact .inl rfl

theorem remove_file (h : s.tree p = some (.file content)) :
    exec (.remove p) s = (.ok (), { s with tree := update s.tree p none }) := by
  dsimp only [exec]
  unfold remove
  rw [h]

theorem remove_none (h : s.tree p = none) : exec (.remove p) s = (.error .notExist, s) := by
  dsimp only [exec]
  unfold remove
  rw [h]

end Os

/-! ## Rules -/

section Rules

variable {α : Type} {F : ∀ β : Type, Op β → Bool} {s : Os} {Q : Except Errno α → Os → Prop}

theorem endsIf_call {op : Op (Except Errno α)} :
    EndsIf F Q (call op).run s ↔ Q (s.exec op).1 (s.exec op).2 ∧ (F _ op = true → Q op.fail s) := by
  refine endsIf_perform.trans (and_congr_right fun _ => ?_)
  constructor
  · exact fun h hF => h hF _ rfl
  · intro h hF r hr
    cases hr
    exact h hF

theorem endsIf_attempt {x : Io α} {Q : Except Errno (Except Errno α) → Os → Prop} :
    EndsIf F Q (attempt x).run s ↔ EndsIf F (fun r => Q (.ok r)) x.run s :=
  ends_lift

end Rules

end FileTree
