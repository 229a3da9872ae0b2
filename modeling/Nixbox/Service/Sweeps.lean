/-
The ciphertexts when requests overlap. Pruning goes by names it has read before, and a create writes its
ciphertext before its row: as long as no create is between the two while an apply may still remove the file,
every secret has its ciphertext.
-/
import Nixbox.Server.Pruning
import Nixbox.Service.Ciphertexts
import Nixbox.Service.Threads

namespace Nixbox

open Effect Prog Store Server Keyed Directory
open Nix hiding FlakeInput

/-! ## Definitions -/

/-- The file of secrets/ a call removes. -/
def Op.removes {β : Type} : Op β → Option String
  | .removeSecretFile file => some file
  | _ => none

/-- The file of secrets/ a call writes. -/
def Op.seals {β : Type} : Op β → Option String
  | .writeSecret file _ => some file
  | _ => none

/-- The file of secrets/ the program writes next. -/
def writing {α : Type} : Prog Op α → Option String
  | .call op _ => op.seals
  | .ret _ => none

/-- The thread, which has made these calls, will not remove the file of this secret: it is done with pruning, or
has not read the declared secrets, or has read this one as declared, or has listed secrets/ without its file. -/
def Spares (t : Thread) (l : List (Exchange Op)) (name : String) : Prop :=
  t.prog.returned = true ∨ slotted l = true ∨
    ∀ names, HasKept names l → name ∈ names ∨ ∃ files, listed l = some files ∧ secretFile name ∉ files

/-- No request is between the ciphertext of a secret and its row while another may still remove the file: from
the apply's reading of the declared secrets, if this one is not among them, up to its listing of secrets/, and
up to the end of its pruning if the file is listed. -/
def Clear (p : Pool) : Prop :=
  ∀ (i k : Nat) (t u : Thread) (name : String), i ≠ k → p.threads[i]? = some t → creating t.prog = some name →
    p.threads[k]? = some u → Spares u (trace k p.log) name

/-- The file is the ciphertext of a declared secret, or of one whose row is inserted next. -/
def needed (p : Pool) (file : String) : Bool :=
  (p.state.db.secrets.rows.any fun x => secretFile x.name == file) ||
    p.threads.any fun t => (creating t.prog).any fun name => secretFile name == file

/-- The condition on a step for the values: a ciphertext is not written over that of a secret that is declared
or whose row is inserted next. -/
def sealsFresh (p : Pool) : Move → Bool
  | .call k false => (p.threads[k]?.bind fun t => writing t.prog).all fun file => !needed p file
  | _ => true

/-- The row a call inserted. -/
def accepts {β : Type} (op : Op β) (b : β) : Option String :=
  match op, b with
  | .write (.createSecret name ..), .ok _ => some name
  | _, _ => none

/-- A request has written `ct` as the ciphertext of `name` and then inserted the row. -/
def Accepted (log : List (Effect.Event Op State Request)) (name ct : String) : Prop :=
  ∃ pre e post, log = pre ++ e :: post ∧ accepts e.op e.answer = some name ∧
    sealing.after .not (trace e.thread pre) = .just (secretFile name) ct

/-- Each secret has a ciphertext, and each row about to be inserted; no apply will remove that of a row. -/
structure Covered (p : Pool) : Prop where
  keeping : p.Keeping (fun _ => sealing) (fun _ _ _ => True) fun _ => .not
  prunes : p.Keeping (fun _ => pruning) (fun _ _ _ => True) fun _ => []
  files : ∀ file, needed p file = true → p.state.disk.regular file
  spared : ∀ (k : Nat) (u : Thread), p.threads[k]? = some u →
    ∀ x ∈ p.state.db.secrets, Spares u (trace k p.log) x.name

/-- The ciphertext of each secret is the accepted one; of a row about to be inserted, the one its request has
written. -/
structure Valued (p : Pool) : Prop where
  rows : ∀ x ∈ p.state.db.secrets, ∃ ct, Accepted p.log x.name ct ∧
    p.state.disk.secrets.get? (secretFile x.name) = some (.file ct)
  due : ∀ k (t : Thread), p.threads[k]? = some t → ∀ name, creating t.prog = some name →
    ∃ ct, sealing.after .not (trace k p.log) = .just (secretFile name) ct ∧
      p.state.disk.secrets.get? (secretFile name) = some (.file ct)

/-! ## What a call does to the files and the rows -/

section Calls

variable {β : Type} {op : Op β} {s : State} {file ct : String}

theorem exec_file (hr : op.removes ≠ some file) (hw : op.seals ≠ some file) :
    (s.exec op).2.disk.secrets.get? file = s.disk.secrets.get? file := by
  cases op with
  | write w =>
    obtain ⟨db, hs, -⟩ := s.write_cases w
    show (s.write w).2.disk.secrets.get? file = _
    rw [hs]
  | writeSecret f c =>
    rw [show s.exec (.writeSecret f c) = s.writeSecret f c from rfl]
    rcases s.writeSecret_cases f c with h | h
    · rw [h]
    · rw [h]
      exact Dir.get?_put_of_ne fun heq => hw (congrArg some heq.symm)
  | removeSecretFile f => exact Dir.get?_remove_of_ne fun heq => hr (congrArg some heq.symm)
  | _ => rfl

/-- A file that is not removed stays a file. -/
theorem exec_regular (hr : op.removes ≠ some file) (hf : s.disk.regular file) : (s.exec op).2.disk.regular file := by
  by_cases hw : op.seals = some file
  · cases op with
    | writeSecret f c =>
      rw [show s.exec (.writeSecret f c) = s.writeSecret f c from rfl]
      rcases s.writeSecret_cases f c with h | h
      · rw [h]
        exact hf
      · rw [h]
        exact regular_put (.inr hf)
    | _ => exact nomatch hw
  · unfold Disk.regular
    rw [exec_file hr hw]
    exact hf

/-- Where the discipline says that a ciphertext has just been written, it is there. -/
theorem sealing_exec {q : Sealed} (h : sealing.next q op (s.exec op).1 = .just file ct) :
    (s.exec op).2.disk.secrets.get? file = some (.file ct) := by
  cases op with
  | writeSecret f c =>
    rw [show s.exec (.writeSecret f c) = s.writeSecret f c from rfl] at h ⊢
    rcases s.writeSecret_cases f c with hw | hw
    · rw [hw] at h
      exact absurd h Sealed.past_ne
    · rw [hw] at h ⊢
      cases h
      exact Dir.get?_put_self
  | _ => exact absurd h Sealed.past_ne

theorem sealing_failed {q : Sealed} {b : β} (hb : op.fault = some b) : sealing.next q op b ≠ .just file ct := by
  cases op with
  | writeSecret f c =>
    cases hb
    exact Sealed.past_ne
  | _ => exact Sealed.past_ne

/-- A row of a new name is one the call inserted. -/
theorem exec_secretNames {x : SecretRow} (hx : x ∈ (s.exec op).2.db.secrets) :
    (∃ y ∈ s.db.secrets, y.name = x.name) ∨ accepts op (s.exec op).1 = some x.name := by
  cases op with
  | write w =>
    rw [show s.exec (.write w) = s.write w from rfl] at hx ⊢
    unfold State.write at hx ⊢
    cases hrun : w.run (s.host.clock s.ticks) s.db with
    | error e =>
      rw [hrun] at hx
      exact .inl ⟨x, hx, rfl⟩
    | ok a =>
      rw [hrun] at hx
      refine (Write.run_secretNames hrun hx).imp_right fun hname => ?_
      cases w with
      | createSecret => exact hname
      | _ => exact nomatch hname
  | writeSecret f c =>
    refine .inl ⟨x, ?_, rfl⟩
    rw [show s.exec (.writeSecret f c) = s.writeSecret f c from rfl] at hx
    rcases s.writeSecret_cases f c with h | h
    · rw [h] at hx
      exact hx
    · rw [h] at hx
      exact hx
  | _ => exact .inl ⟨x, hx, rfl⟩

theorem creates_of_accepts {b : β} {name : String} (h : accepts op b = some name) : op.creates = some name := by
  cases op with
  | write w =>
    cases w with
    | createSecret =>
      cases b with
      | ok _ => exact h
      | error _ => exact nomatch h
    | _ => exact nomatch h
  | _ => exact nomatch h

end Calls

/-! ## Files that are needed -/

section Needed

variable {p p' : Pool} {file : String}

theorem needed_iff : needed p file = true ↔ (∃ x ∈ p.state.db.secrets, secretFile x.name = file) ∨
    ∃ t ∈ p.threads, ∃ name, creating t.prog = some name ∧ secretFile name = file := by
  unfold needed
  simp only [Bool.or_eq_true, List.any_eq_true, Option.any_eq_true, beq_iff_eq]
  exact Iff.rfl

/-- A thread that is to insert a row has just written its ciphertext. -/
theorem creating_just {q : Sealed} {E : Response → Sealed → Prop} {prog : Prog Op Response} {name : String}
    (h : prog.Keeps sealing E q) (hc : creating prog = some name) : ∃ ct, q = .just (secretFile name) ct := by
  cases prog with
  | ret a => exact nomatch hc
  | call op k => exact sealing_creates (keeps_call.1 h).1 hc

/-- After a call of thread `k` the files needed are those needed before, and the one it has written. -/
theorem needed_call {k : Nat} {fails : Bool} {t : Thread} {c : Exchange Op} {prog : Prog Op Response} {s' : State}
    (ht : p.threads[k]? = some t) (hadv : Advanced fails t.prog p.state c prog s') {q : Sealed}
    {E : Response → Sealed → Prop} (hkeeps : t.prog.Keeps sealing E q) {log : List (Effect.Event Op State Request)}
    (h : needed ⟨s', p.threads.set k ⟨t.tag, prog⟩, log⟩ file = true) :
    needed p file = true ∨ ∃ ct, sealing.next q c.op c.answer = .just file ct := by
  obtain ⟨tag, prog₀⟩ := t
  rcases needed_iff.1 h with ⟨x, hx, rfl⟩ | ⟨u, hu, name, hname, rfl⟩
  · refine .inl (needed_iff.2 ?_)
    cases hadv with
    | made =>
      rcases exec_secretNames hx with ⟨y, hy, hname⟩ | hname
      · exact .inl ⟨y, hy, by rw [hname]⟩
      · exact .inr ⟨_, List.mem_of_getElem? ht, x.name, creates_of_accepts hname, rfl⟩
    | failed => exact .inl ⟨x, hx, rfl⟩
  · rcases List.mem_or_eq_of_mem_set hu with hu | rfl
    · exact .inl (needed_iff.2 (.inr ⟨u, hu, name, hname, rfl⟩))
    · exact .inr (creating_just (hadv.keeps hkeeps).2 hname)

/-! What an apply may still remove. -/

section Spares

variable {t u u' : Thread} {l : List (Exchange Op)} {c : Exchange Op} {name : String}

/-- A file that may be removed is none of a secret that is spared. -/
theorem Spares.file_ne (h : Spares u l name) (hu : u.prog.returned = false) (hprune : Prunable file l) :
    secretFile name ≠ file := by
  rintro rfl
  obtain ⟨hslot, names, hkept, hnot, files, hlisted, hmem⟩ := hprune
  rcases h with hret | hslotted | h
  · rw [hu] at hret
    cases hret
  · rw [hslot] at hslotted
    cases hslotted
  · rcases h names hkept with hname | ⟨files', hlisted', hfile⟩
    · exact hnot (List.mem_map_of_mem hname)
    · rw [hlisted] at hlisted'
      cases hlisted'
      exact hfile hmem

/-- A further call of the thread keeps a secret spared, if one that reads the declared secrets finds it. -/
theorem Spares.snoc (h : Spares u l name) (hu : u.prog.returned = false)
    (hread : ∀ rows, c = rowsRead rows → name ∈ rows.map (·.name)) : Spares u' (l ++ [c]) name := by
  rcases h with hret | hslotted | h
  · rw [hu] at hret
    cases hret
  · refine .inr (.inl ?_)
    rw [slotted_snoc, hslotted, Bool.true_or]
  · refine .inr (.inr fun names hkept => ?_)
    rcases hkept.snoc with hkept | ⟨-, rows, hc, rfl⟩
    · exact (h names hkept).imp_right fun ⟨files, hlisted, hfile⟩ => ⟨files, listed_append hlisted, hfile⟩
    · exact .inl (hread rows hc)

/-- Before flake.nix is written nothing is kept, and a call that inserts a row does not read the rows. -/
theorem spares_unflaked (h : flaked l = false) : Spares u (l ++ [c]) name := by
  refine .inr (.inr fun names hkept => ?_)
  rcases hkept.snoc with hkept | ⟨hflaked, -⟩
  · rw [hkept.flaked] at h
    cases h
  · rw [hflaked] at h
    cases h

end Spares

/-- What a thread is about to remove is not needed. -/
theorem Covered.removes (h : Covered p) (hclear : Clear p) {k : Nat} {r : Request}
    {kk : Except Err Unit → Prog Op Response}
    (ht : p.threads[k]? = some ⟨r, .call (.removeSecretFile file) kk⟩) : needed p file = false := by
  have hprune : Prunable file (trace k p.log) := by
    have hkeeps := h.prunes.kept k _ ht
    rw [pruning_after] at hkeeps
    exact (keeps_call.1 hkeeps).1
  rw [← Bool.not_eq_true, needed_iff]
  rintro (⟨x, hx, hfile⟩ | ⟨t, hmem, name, hname, hfile⟩)
  · exact (h.spared k _ ht x hx).file_ne rfl hprune hfile
  · obtain ⟨i, hi⟩ := List.mem_iff_getElem?.1 hmem
    -- the request that removes is not the one that creates
    have hik : i ≠ k := by
      rintro rfl
      rw [ht] at hi
      cases hi
      cases hname
    exact (hclear i k t _ name hik hi hname ht).file_ne rfl hprune hfile

/-- A call answers with the rows that are there, if it reads the declared secrets. -/
theorem Advanced.rowsRead {fails : Bool} {prog prog' : Prog Op Response} {s s' : State} {rows : List SecretRow}
    (h : Advanced fails prog s (rowsRead rows) prog' s') : rows = s.db.secretRows := by
  rcases h.effect with hexec | ⟨hfault, -⟩
  · cases hexec
    rfl
  · cases hfault

/-- After a call of thread `k` every row is still spared by every thread. -/
theorem Covered.spared_call (h : Covered p) (hclear : Clear p) {k : Nat} {fails : Bool}
    (hs : Service.step p (.call k fails) = some p') (i : Nat) (u : Thread) (hu : p'.threads[i]? = some u) :
    ∀ x ∈ p'.state.db.secrets, Spares u (trace i p'.log) x.name := by
  obtain ⟨t, c, prog, ht, hadv, hthreads, hlog⟩ := Pool.step_call hs
  have hlt := (List.getElem?_eq_some_iff.1 ht).1
  have hkeeps := h.prunes.kept k t ht
  rw [pruning_after, List.nil_append] at hkeeps
  have hallow := (hadv.keeps hkeeps).1
  have hrunning : t.prog.returned = false := by
    obtain ⟨kk, hprog, -⟩ := hadv.rest
    rw [hprog]
    rfl
  intro x hx
  -- the row was there under its name, or this call inserts it
  have hold : (∃ y ∈ p.state.db.secrets, y.name = x.name) ∨ c.op.creates = some x.name := by
    rcases hadv.effect with hexec | ⟨-, hsame⟩
    · have hnames : x ∈ (p.state.exec c.op).2.db.secrets := (congrArg Prod.snd hexec) ▸ hx
      exact (exec_secretNames hnames).imp_right creates_of_accepts
    · rw [hsame] at hx
      exact .inl ⟨x, hx, rfl⟩
  rw [hthreads] at hu
  rw [hlog]
  by_cases hik : i = k
  · subst hik
    rw [List.getElem?_set_self hlt] at hu
    cases hu
    rw [show trace i (p.log ++ [⟨c, i, t.tag, p.state⟩]) = trace i p.log ++ [c] from
      trace_snoc_self (e := ⟨c, i, t.tag, p.state⟩)]
    rcases hold with ⟨y, hy, hname⟩ | hcreates
    · rw [← hname]
      refine (h.spared i t ht y hy).snoc hrunning fun rows hc => ?_
      subst hc
      rw [Advanced.rowsRead hadv]
      exact List.mem_map_of_mem (Db.mem_secretRows.2 hy)
    · exact spares_unflaked (pruning_unflaked hallow hcreates)
  · rw [List.getElem?_set_ne (Ne.symm hik)] at hu
    rw [trace_snoc_other (Ne.symm hik)]
    rcases hold with ⟨y, hy, hname⟩ | hcreates
    · rw [← hname]
      exact h.spared i u hu y hy
    · refine hclear k i t u x.name (Ne.symm hik) ht ?_ hu
      obtain ⟨kk, hprog, -⟩ := hadv.rest
      rw [hprog]
      exact hcreates

theorem Covered.step (h : Covered p) (hclear : Clear p) {m : Move} (hs : Service.step p m = some p') : Covered p' := by
  refine ⟨h.keeping.step (fun r => serve_sealing r) hs, h.prunes.step (fun r => serve_pruning r) hs,
    fun file hneeded => ?_, fun i u hu => ?_⟩
  · cases m with
    | start r =>
      cases hs
      refine h.files file (needed_iff.2 ((needed_iff.1 hneeded).imp_right fun ⟨t, ht, name, hname, hfile⟩ => ?_))
      rcases List.mem_append.1 ht with ht | ht
      · exact ⟨t, ht, name, hname, hfile⟩
      · -- a request does not begin with a row
        cases List.mem_singleton.1 ht
        obtain ⟨ct, hq⟩ := creating_just (serve_sealing r) hname
        exact nomatch hq
    | env i =>
      obtain ⟨s, hjob, rfl⟩ := Pool.step_env hs
      obtain ⟨j, t, j', -, hst, rfl⟩ := Jobs.step_some hjob
      obtain ⟨-, -, -, -, -, hfiles⟩ := hst.frame
      unfold Disk.regular
      dsimp only
      rw [hfiles]
      refine h.files file (needed_iff.2 ((needed_iff.1 hneeded).imp_left fun ⟨x, hx, hfile⟩ => ?_))
      obtain ⟨y, hy, hname⟩ := hst.secretNames x hx
      exact ⟨y, hy, by rw [hname, hfile]⟩
    | call k fails =>
      obtain ⟨t, c, prog, ht, hadv, hthreads, -⟩ := Pool.step_call hs
      obtain ⟨s', ts, log⟩ := p'
      obtain ⟨r, prog₀⟩ := t
      dsimp only at hthreads hadv hneeded ⊢
      subst hthreads
      rcases needed_call ht hadv (h.keeping.kept k _ ht) hneeded with hbefore | ⟨ct, hjust⟩
      · have hreg := h.files file hbefore
        cases hadv with
        | failed => exact hreg
        | @made _ op kk s hno =>
          refine exec_regular (fun hrem => ?_) hreg
          cases op with
          | removeSecretFile f =>
            cases hrem
            rw [h.removes hclear ht] at hbefore
            cases hbefore
          | _ => cases hrem
      · cases hadv with
        | made => exact ⟨ct, sealing_exec hjust⟩
        | failed _ hb => exact absurd hjust (sealing_failed hb)
  · cases m with
    | start r =>
      cases hs
      intro x hx
      rcases Nat.lt_or_ge i p.threads.length with hlt | hge
      · rw [List.getElem?_append_left hlt] at hu
        exact h.spared i u hu x hx
      · -- the request that comes in has made no call
        rw [List.getElem?_append_right hge, List.getElem?_singleton] at hu
        split at hu
        · obtain rfl : i = p.threads.length := by omega
          refine .inr (.inr fun names hkept => ?_)
          dsimp only at hkept
          rw [h.prunes.trace_unstarted] at hkept
          obtain ⟨pre, rows, post, hnil, -⟩ := hkept
          cases pre <;> cases hnil
        · cases hu
    | env j =>
      obtain ⟨s, hjob, rfl⟩ := Pool.step_env hs
      obtain ⟨j, t, j', -, hst, rfl⟩ := Jobs.step_some hjob
      intro x hx
      obtain ⟨y, hy, hname⟩ := hst.secretNames x hx
      rw [← hname]
      exact h.spared i u hu y hy
    | call k fails => exact h.spared_call hclear hs i u hu

end Needed

/-! ## The values -/

section Values

variable {p p' : Pool}

theorem Accepted.append {log more : List (Effect.Event Op State Request)} {name ct : String}
    (h : Accepted log name ct) :
    Accepted (log ++ more) name ct := by
  obtain ⟨pre, e, post, rfl, hacc, hjust⟩ := h
  exact ⟨pre, e, post ++ more, by simp, hacc, hjust⟩

/-- A call of thread `k` that writes no needed file leaves the content of those that are needed. -/
theorem Covered.file_kept (h : Covered p) (hclear : Clear p) {k : Nat} {fails : Bool} {r : Request}
    {prog prog' : Prog Op Response} {c : Exchange Op} {s' : State} {file : String}
    (ht : p.threads[k]? = some ⟨r, prog⟩)
    (hadv : Advanced fails prog p.state c prog' s') (hw : sealsFresh p (.call k fails) = true)
    (hneeded : needed p file = true) : s'.disk.secrets.get? file = p.state.disk.secrets.get? file := by
  cases hadv with
  | failed => rfl
  | @made _ op kk s hno =>
    refine exec_file (fun hrem => ?_) fun hseal => ?_
    · cases op with
      | removeSecretFile f =>
        cases hrem
        rw [h.removes hclear ht] at hneeded
        cases hneeded
      | _ => cases hrem
    · cases op with
      | writeSecret f ct =>
        cases hseal
        cases fails with
        | false =>
          unfold sealsFresh at hw
          dsimp only at hw
          rw [ht, Option.bind_some, show writing (Prog.call (.writeSecret file ct) kk) = some file from rfl,
            Option.all_some, hneeded] at hw
          cases hw
        | true => exact nomatch hno rfl
      | _ => cases hseal

theorem Valued.call {k : Nat} {fails : Bool} (hc : Covered p) (hclear : Clear p) (hc' : Covered p') (h : Valued p)
    (hw : sealsFresh p (.call k fails) = true) (hs : Service.step p (.call k fails) = some p') : Valued p' := by
  obtain ⟨⟨r, prog₀⟩, c, prog, ht, hadv, hthreads, hlog⟩ := Pool.step_call hs
  obtain ⟨s', ts, log⟩ := p'
  dsimp only at hthreads hlog hadv
  subst hthreads hlog
  have hkept : ∀ {file}, needed p file = true → s'.disk.secrets.get? file = p.state.disk.secrets.get? file :=
    fun hneeded => hc.file_kept hclear ht hadv hw hneeded
  have hrow : ∀ x ∈ p.state.db.secrets, needed p (secretFile x.name) = true :=
    fun x hx => needed_iff.2 (.inl ⟨x, hx, rfl⟩)
  have hthread : ∀ i (u : Thread), p.threads[i]? = some u → ∀ name, creating u.prog = some name →
      needed p (secretFile name) = true :=
    fun i u hu name hname => needed_iff.2 (.inr ⟨u, List.mem_of_getElem? hu, name, hname, rfl⟩)
  refine ⟨fun x hx => ?_, fun i u hu name hname => ?_⟩
  · -- a row was there, or its request inserts it now
    have hold : (∃ y ∈ p.state.db.secrets, y.name = x.name) ∨ accepts c.op c.answer = some x.name := by
      cases hadv with
      | made => exact exec_secretNames hx
      | failed => exact .inl ⟨x, hx, rfl⟩
    dsimp only
    rcases hold with ⟨y, hy, hname⟩ | hacc
    · obtain ⟨ct, haccepted, hct⟩ := h.rows y hy
      rw [← hname, hkept (hrow y hy)]
      exact ⟨ct, haccepted.append, hct⟩
    · have hcreating : creating prog₀ = some x.name := by
        obtain ⟨kk, rfl, -⟩ := hadv.rest
        exact creates_of_accepts hacc
      obtain ⟨ct, hjust, hct⟩ := h.due k _ ht x.name hcreating
      rw [hkept (hthread k _ ht x.name hcreating)]
      exact ⟨ct, ⟨p.log, ⟨c, k, r, p.state⟩, [], rfl, hacc, hjust⟩, hct⟩
  · dsimp only at hu ⊢
    -- the thread that called, or another one, which is due what it was
    by_cases hi : i = k
    · subst hi
      obtain ⟨ct, hjust⟩ := creating_just (hc'.keeping.kept i u hu) hname
      dsimp only at hjust
      refine ⟨ct, hjust, ?_⟩
      rw [show trace i (p.log ++ [⟨c, i, r, p.state⟩]) = trace i p.log ++ [c] from
        trace_snoc_self (e := ⟨c, i, r, p.state⟩), Discipline.after, List.foldl_append] at hjust
      cases hadv with
      | made => exact sealing_exec hjust
      | failed _ hb => exact absurd hjust (sealing_failed hb)
    · rw [List.getElem?_set_ne (Ne.symm hi)] at hu
      obtain ⟨ct, hjust, hct⟩ := h.due i u hu name hname
      rw [hkept (hthread i u hu name hname), trace_snoc_other (Ne.symm hi)]
      exact ⟨ct, hjust, hct⟩

theorem Valued.step {m : Move} (hc : Covered p) (h : Valued p) (hclear : Clear p) (hw : sealsFresh p m = true)
    (hs : Service.step p m = some p') : Valued p' := by
  cases m with
  | call k fails => exact h.call hc hclear (hc.step hclear hs) hw hs
  | start r =>
    cases hs
    refine ⟨h.rows, fun i u hu name hname => ?_⟩
    dsimp only at hu ⊢
    rcases Nat.lt_or_ge i p.threads.length with hlt | hge
    · rw [List.getElem?_append_left hlt] at hu
      exact h.due i u hu name hname
    · rw [List.getElem?_append_right hge, List.getElem?_singleton] at hu
      split at hu
      · cases hu
        obtain ⟨ct, hq⟩ := creating_just (serve_sealing r) hname
        exact nomatch hq
      · cases hu
  | env i =>
    obtain ⟨s, hjob, rfl⟩ := Pool.step_env hs
    obtain ⟨j, t, j', -, hst, rfl⟩ := Jobs.step_some hjob
    obtain ⟨-, -, -, -, -, hfiles⟩ := hst.frame
    refine ⟨fun x hx => ?_, fun i u hu name hname => ?_⟩
    · obtain ⟨y, hy, hname⟩ := hst.secretNames x hx
      rw [← hname]
      dsimp only
      rw [hfiles]
      exact h.rows y hy
    · dsimp only
      rw [hfiles]
      exact h.due i u hu name hname

end Values

/-! ## Requests that do not overlap -/

section Clear

variable {p : Pool}

/-- Where at most one request is being handled nothing stands between a ciphertext and its row. -/
theorem clear_of_serial (h : ∀ (i k : Nat) (t u : Thread), p.threads[i]? = some t → p.threads[k]? = some u →
    t.prog.returned = false → u.prog.returned = false → i = k) : Clear p := by
  intro i k t u name hik ht hname hu
  have hcreating : t.prog.returned = false := by
    cases hprog : t.prog with
    | ret => rw [hprog] at hname; cases hname
    | call => rfl
  by_contra hspares
  have hrunning : u.prog.returned = false := by
    rw [← Bool.not_eq_true]
    exact fun hret => hspares (.inl hret)
  exact hik (h i k t u ht hu hcreating hrunning)

/-- A test of `Clear` that takes what is read after flake.nix for the declared secrets, and none for this one. -/
def isClear (p : Pool) : Bool :=
  p.threads.zipIdx.all fun (t, i) => (creating t.prog).all fun name => p.threads.zipIdx.all fun (u, k) =>
    i == k || u.prog.returned || slotted (trace k p.log) || !flaked (trace k p.log) ||
      (listed (trace k p.log)).any fun files => !files.contains (secretFile name)

theorem clear_of_isClear (h : isClear p = true) : Clear p := by
  intro i k t u name hik ht hname hu
  have hmem : ∀ {j : Nat} {v : Thread}, p.threads[j]? = some v → (v, j) ∈ p.threads.zipIdx := fun hv =>
    List.mem_zipIdx_iff_getElem?.2 hv
  have htest := List.all_eq_true.1 h (t, i) (hmem ht)
  dsimp only at htest
  rw [hname, Option.all_some] at htest
  have htest := List.all_eq_true.1 htest (u, k) (hmem hu)
  simp only [Bool.or_eq_true, beq_iff_eq, hik, false_or, Option.any_eq_true] at htest
  rcases htest with ((hret | hslotted) | hflaked) | ⟨files, hlisted, hfile⟩
  · exact .inl hret
  · exact .inr (.inl hslotted)
  · refine .inr (.inr fun names hkept => ?_)
    rw [hkept.flaked] at hflaked
    cases hflaked
  · refine .inr (.inr fun names _ => .inr ⟨files, hlisted, ?_⟩)
    simpa using hfile

end Clear

/-! ## Every run -/

/-- In every order of the calls of any number of requests, of the steps of jobs and of failures in which no
request is between the ciphertext of a secret and its row while an apply may still remove that ciphertext, each
secret has its ciphertext; and if no request writes over the ciphertext of a secret, it is the one that was
accepted. -/
theorem secrets_covered {h : Host} {ms : List Move} {p : Pool}
    (hclear : Runs.Along Service.step (fun p _ => Clear p) (Service.fresh h) ms)
    (hrun : Service.run (Service.fresh h) ms = some p) :
    (∀ x ∈ p.state.db.secrets, p.state.disk.regular (secretFile x.name)) ∧
      (Runs.Along Service.step (fun p m => sealsFresh p m = true) (Service.fresh h) ms →
        ∀ x ∈ p.state.db.secrets, ∃ ct, Accepted p.log x.name ct ∧
          p.state.disk.secrets.get? (secretFile x.name) = some (.file ct)) := by
  have hfresh : Covered (Service.fresh h) := by
    refine ⟨Pool.keeping_fresh _, Pool.keeping_fresh _, fun file hneeded => ?_, nofun⟩
    rcases needed_iff.1 hneeded with ⟨x, hx, -⟩ | ⟨t, ht, -⟩
    · exact absurd hx Table.not_mem_empty
    · exact nomatch ht
  have hcovered := Runs.exec_inv (I := Covered) (fun p m p' hp hI hs => hI.step hp hs) hclear hfresh hrun
  refine ⟨fun x hx => hcovered.files _ (needed_iff.2 (.inl ⟨x, hx, rfl⟩)), fun hwritten => ?_⟩
  have hvalued := Runs.exec_inv (I := fun p => Covered p ∧ Valued p)
    (fun p m p' hp hI hs => ⟨hI.1.step hp.1 hs, hI.2.step hI.1 hp.1 hp.2 hs⟩) (hclear.and hwritten)
    ⟨hfresh, ⟨fun x hx => absurd hx Table.not_mem_empty, nofun⟩⟩ hrun
  exact hvalued.2.rows

/-- A secret is made while an apply is under way: its ciphertext is written after the apply has read the
declared secrets and before it lists the directory. -/
def sweptCreate : List Move :=
  [.start (.secretCreate "token" ⟨"", "", "", "s3cret", []⟩), .start .rebuild] ++ calls 1 9 ++ calls 0 3 ++
    calls 1 1 ++ calls 0 3 ++ calls 1 6

/-- Both have been answered. -/
def sweptPool : Pool := (Service.run (Service.fresh exampleHost) sweptCreate).get (by decide +kernel)

/-- Then the apply removes it, and the row is inserted all the same. -/
theorem secrets_not_covered :
    ¬ ∀ (h : Host) (ms : List Move) (p : Pool), Service.run (Service.fresh h) ms = some p →
    p.returned = true → ∀ x ∈ p.state.db.secrets, p.state.disk.regular (secretFile x.name) := by
  intro hall
  have hcovered := hall exampleHost sweptCreate sweptPool (Option.some_get _).symm (by decide +kernel)
  have hrow : ∃ x ∈ sweptPool.state.db.secrets.rows, x.name = "token" := by decide +kernel
  obtain ⟨x, hx, hname⟩ := hrow
  obtain ⟨ct, hct⟩ := hcovered x hx
  rw [hname, show sweptPool.state.disk.secrets.get? (secretFile "token") = none by decide +kernel] at hct
  cases hct

/-- The same requests, the ciphertext written after the apply has listed the directory. -/
def sparedCreate : List Move :=
  [.start (.secretCreate "token" ⟨"", "", "", "s3cret", []⟩), .start .rebuild] ++ calls 1 9 ++ calls 0 2 ++
    calls 1 1 ++ calls 0 4 ++ calls 1 5

/-- Both have been answered. -/
def sparedPool : Pool := (Service.run (Service.fresh exampleHost) sparedCreate).get (by decide +kernel)

theorem secrets_covered_sparedCreate :
    (∀ x ∈ sparedPool.state.db.secrets, sparedPool.state.disk.regular (secretFile x.name)) ∧
      ∀ x ∈ sparedPool.state.db.secrets, ∃ ct, Accepted sparedPool.log x.name ct ∧
        sparedPool.state.disk.secrets.get? (secretFile x.name) = some (.file ct) := by
  have hclear : Runs.Along Service.step (fun p _ => isClear p = true) (Service.fresh exampleHost) sparedCreate := by
    decide +kernel
  obtain ⟨hfiles, hvalues⟩ := secrets_covered (p := sparedPool) (hclear.mono fun _ _ => clear_of_isClear)
    (Option.some_get _).symm
  exact ⟨hfiles, hvalues (by decide +kernel)⟩

end Nixbox
