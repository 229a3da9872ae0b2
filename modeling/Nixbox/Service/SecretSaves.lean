/-
Saving a secret call by call: which saves write a new ciphertext and then fail to write the row,
and that every other save that does not end in the saved redirect leaves the secret as it was.
-/
import Nixbox.Lib.Marks
import Nixbox.Service.SecretEdits
import Nixbox.Service.System

namespace Nixbox

open Effect Prog Store Server Keyed Directory
open Nix hiding FlakeInput

/-! ## Definitions -/

/-- The ciphertext, the row and the mounts of `x` are in `s'` what they are in `s`. -/
def SecretKept (s s' : State) (x : SecretRow) : Prop := x ∈ s'.db.secrets ∧ SameValue s s' x

/-- The answer to a save. -/
def savedRedirect : Response := secretsFlash "flash.secret-saved"

/-- A posted mount is the id of a workload whose type delivers secrets. -/
def deliverable (s : State) (v : String) : Bool :=
  match Go.parseInt v with
  | none => false
  | some id =>
    match s.db.workloadByID id with
    | .error _ => false
    | .ok wl => (lookup wl.type).any (·.supportsSecretMounts)

/-- The form passes. -/
def Server.SecretForm.accepted (s : State) (form : SecretForm) : Bool :=
  unixNameRe (orDefault form.owner "root") && unixNameRe (orDefault form.group "root") &&
    modeRe (orDefault form.mode "0400") && form.mounts.all (deliverable s)

/-- The value of the form is encrypted to a ciphertext that can take the place of the present one. -/
def SealsTo (s : State) (name plaintext ct : String) : Prop :=
  s.host.encrypt s.ticks plaintext = .ok ct ∧ s.disk.secrets.get? (secretFile name) ≠ some .dir

/-- The save gets as far as writing a ciphertext that is not the present one: the secret is there, the form passes
with a value, and no call up to that one fails. -/
structure Reseals (s : State) (name : String) (form : SecretForm) (faults : List Bool) : Prop where
  valid : validateName name = .ok ()
  secret : ∃ x ∈ s.db.secrets, x.name = name
  passes : form.accepted s = true
  value : Go.replaceCRLF form.value ≠ ""
  sealed : ∃ ct, SealsTo s name (Go.replaceCRLF form.value) ct ∧
    s.disk.secrets.get? (secretFile name) ≠ some (.file ct)
  unfailing : Unmarked faults (2 + form.mounts.length + 2)

/-- The update of the row fails: its call does, or a workload is named twice. -/
def UpdateFails (form : SecretForm) (faults : List Bool) : Prop :=
  (faults.drop (2 + form.mounts.length + 2)).headD false = true ∨ ¬(form.mounts.filterMap Go.parseInt).Nodup

/-! ## The parts of the handler -/

section Parts

variable {s : State} {fs : List Bool} {name : String}

/-- The row of a name and its mounts, by two queries. -/
theorem secretByName_marked (name : String) (fs : List Bool) (s : State) :
    EndsMarked (fun r s' fs' => s' = s ∧ match r with
      | .ok sec => sec.toSecretRow ∈ s.db.secrets ∧ sec.name = name ∧ Unmarked fs 2 ∧ fs' = fs.drop 2
      | .error _ => ¬((∃ x ∈ s.db.secrets, x.name = name) ∧ Unmarked fs 2)) (secretByName name).run fs s := by
  refine endsMarked_exceptT_bind.2 (endsMarked_query.2 ?_)
  rw [unmarked_two]
  cases hfirst : fs.headD false with
  | true => exact ⟨rfl, fun h => by cases h.2.1⟩
  | false =>
    rw [if_neg (by decide)]
    cases hrow : s.db.secretRowByName name with
    | error e => exact ⟨rfl, fun ⟨⟨x, hx, hname⟩, _⟩ => Db.secretRowByName_error hrow x hx hname⟩
    | ok x =>
      refine endsMarked_exceptT_bind.2 (endsMarked_query.2 ?_)
      cases hsecond : fs.tail.headD false with
      | true => exact ⟨rfl, fun h => by cases h.2.2⟩
      | false =>
        refine endsMarked_return.2 ⟨rfl, ?_⟩
        unfold Db.secretRowByName at hrow
        split at hrow
        · rename_i hfind
          cases hrow
          refine ⟨List.mem_of_find?_eq_some hfind, by simpa using List.find?_some hfind, ⟨rfl, rfl⟩, ?_⟩
          exact (drop_two fs).symm
        · cases hrow

/-- The secret of the path. -/
theorem lookupSecret_marked (name : String) (fs : List Bool) (s : State) :
    EndsMarked (fun r s' fs' => s' = s ∧ match r with
      | .ok sec => validateName name = .ok () ∧ sec.toSecretRow ∈ s.db.secrets ∧
      sec.name = name ∧ Unmarked fs 2 ∧ fs' = fs.drop 2
      | .error _ => ¬(validateName name = .ok () ∧ (∃ x ∈ s.db.secrets, x.name = name) ∧ Unmarked fs 2))
      (lookupSecret name).run fs s := by
  unfold lookupSecret lookupBy
  cases hname : validateName name with
  | error m => exact endsMarked_throw.2 ⟨rfl, fun h => by cases h.1⟩
  | ok u =>
    refine endsMarked_exceptT_bind.2 (endsMarked_attempt.2 ((secretByName_marked name fs s).mono fun r s' fs' hr => ?_))
    obtain ⟨rfl, hr⟩ := hr
    match r, hr with
    | .ok sec, hr => exact endsMarked_return.2 ⟨rfl, rfl, hr⟩
    | .error .notFound, hr => exact endsMarked_throw.2 ⟨rfl, fun h => hr h.2⟩
    | .error .failed, hr => exact endsMarked_throw.2 ⟨rfl, fun h => hr h.2⟩

/-- A posted mount, by one query unless it is no number. -/
theorem parseMount_marked (v : String) (fs : List Bool) (s : State) :
    EndsMarked (fun r s' fs' => s' = s ∧ match r with
      | .ok id => deliverable s v = true ∧ Go.parseInt v = some id ∧ (s.db.workloads.find? id).isSome ∧
          fs.headD false = false ∧ fs' = fs.tail
      | .error _ => ¬(deliverable s v = true ∧ fs.headD false = false)) (parseMount v).run fs s := by
  unfold parseMount
  cases hid : Go.parseInt v with
  | none =>
    have hv : deliverable s v = false := by
      unfold deliverable
      rw [hid]
    rw [hv]
    exact endsMarked_throw.2 ⟨rfl, fun h => by cases h.1⟩
  | some id =>
    have hv : deliverable s v = match s.db.workloadByID id with
        | .error _ => false
        | .ok wl => (lookup wl.type).any (·.supportsSecretMounts) := by
      unfold deliverable
      rw [hid]
    rw [hv]
    refine endsMarked_exceptT_bind.2 (endsMarked_attempt.2 (endsMarked_query.2 ?_))
    cases hfirst : fs.headD false with
    | true => exact endsMarked_throw.2 ⟨rfl, fun h => by cases h.2⟩
    | false =>
      rw [if_neg (by decide)]
      cases hwl : s.db.workloadByID id with
      | error e => exact endsMarked_throw.2 ⟨rfl, fun h => by cases h.1⟩
      | ok wl =>
        have hfound : (s.db.workloads.find? id).isSome := by
          unfold Db.workloadByID at hwl
          split at hwl
          · rename_i hf
            rw [hf]
            rfl
          · cases hwl
        dsimp only
        split
        · rename_i hsupports
          exact endsMarked_return.2 ⟨rfl, hsupports, rfl, hfound, rfl, rfl⟩
        · rename_i hsupports
          exact endsMarked_throw.2 ⟨rfl, fun h => hsupports h.1⟩

/-- The posted mounts, by one query each. -/
theorem parseMounts_marked (vs : List String) (fs : List Bool) (s : State) :
    EndsMarked (fun r s' fs' => s' = s ∧ match r with
      | .ok ids => vs.all (deliverable s) = true ∧ ids = vs.filterMap Go.parseInt ∧
          (∀ id ∈ ids, (s.db.workloads.find? id).isSome) ∧ Unmarked fs vs.length ∧ fs' = fs.drop vs.length
      | .error _ => ¬(vs.all (deliverable s) = true ∧ Unmarked fs vs.length)) (forEach parseMount vs).run fs s := by
  induction vs generalizing fs with
  | nil => exact endsMarked_return.2 ⟨rfl, rfl, rfl, nofun, unmarked_zero fs, rfl⟩
  | cons v vs ih =>
    rw [List.length_cons, unmarked_succ, List.all_cons, Bool.and_eq_true]
    refine endsMarked_exceptT_bind.2 ((parseMount_marked v fs s).mono fun r s' fs' hr => ?_)
    obtain ⟨rfl, hr⟩ := hr
    cases r with
    | error m => exact ⟨rfl, fun h => hr ⟨h.1.1, h.2.1⟩⟩
    | ok id =>
      obtain ⟨hv, hid, hfound, hfirst, rfl⟩ := hr
      refine endsMarked_exceptT_bind.2 ((ih fs.tail).mono fun r s'' fs'' hr => ?_)
      obtain ⟨rfl, hr⟩ := hr
      cases r with
      | error m => exact ⟨rfl, fun h => hr ⟨h.1.2, h.2.2⟩⟩
      | ok ids =>
        obtain ⟨hvs, rfl, hall, hmarks, rfl⟩ := hr
        refine endsMarked_return.2 ⟨rfl, ⟨hv, hvs⟩, ?_, ?_, ⟨hfirst, hmarks⟩, ?_⟩
        · rw [List.filterMap_cons_some hid]
        · exact List.forall_mem_cons.2 ⟨hfound, hall⟩
        · rw [List.drop_tail]

/-- The form, by one query for each mount. -/
theorem parseSecretForm_marked (form : SecretForm) (fs : List Bool) (s : State) :
    EndsMarked (fun r s' fs' => s' = s ∧ match r with
      | .ok f => form.accepted s = true ∧ f.value = Go.replaceCRLF form.value ∧
      f.mounts = form.mounts.filterMap Go.parseInt ∧
          (∀ id ∈ f.mounts, (s.db.workloads.find? id).isSome) ∧ Unmarked fs form.mounts.length ∧
          fs' = fs.drop form.mounts.length
      | .error _ => ¬(form.accepted s = true ∧ Unmarked fs form.mounts.length)) (parseSecretForm form).run fs s := by
  unfold parseSecretForm SecretForm.accepted
  dsimp only
  split
  · rename_i hbad
    exact endsMarked_throw.2 ⟨rfl, fun h => by simp_all⟩
  · rename_i howner
    split
    · rename_i hbad
      exact endsMarked_throw.2 ⟨rfl, fun h => by simp_all⟩
    · rename_i hmode
      refine endsMarked_exceptT_bind.2 ((parseMounts_marked form.mounts fs s).mono fun r s' fs' hr => ?_)
      obtain ⟨rfl, hr⟩ := hr
      cases r with
      | error m => exact ⟨rfl, fun h => hr ⟨(Bool.and_eq_true_iff.1 h.1).2, h.2⟩⟩
      | ok ids =>
        obtain ⟨hvs, rfl, hall, hmarks, rfl⟩ := hr
        exact endsMarked_return.2 ⟨rfl, by simp_all, rfl, rfl, hall, hmarks, rfl⟩

/-- The ciphertext, by one call to the host and one to the disk. -/
theorem encryptSecret_marked (hname : validateName name = .ok ()) (plaintext : String) (fs : List Bool) (s : State) :
    EndsMarked (fun r t fs' => t.db = s.db ∧ match r with
      | .ok _ => ∃ ct, SealsTo s name plaintext ct ∧ t.disk.secrets.get? (secretFile name) = some (.file ct) ∧
          Unmarked fs 2 ∧ fs' = fs.drop 2
      | .error _ => t.disk = s.disk ∧ ¬((∃ ct, SealsTo s name plaintext ct) ∧ Unmarked fs 2))
      (encryptSecret name plaintext).run fs s := by
  refine endsMarked_exceptT_bind.2 ((endsMarked_call rfl).2 ?_)
  rw [unmarked_two]
  cases hfirst : fs.headD false with
  | true => exact ⟨rfl, rfl, fun h => by cases h.2.1⟩
  | false =>
    rw [if_neg (by decide)]
    rw [show s.exec (.encrypt plaintext) = (s.host.encrypt s.ticks plaintext, { s with ticks := s.ticks + 1 }) from rfl]
    cases hct : s.host.encrypt s.ticks plaintext with
    | error e =>
      refine ⟨rfl, rfl, ?_⟩
      rintro ⟨⟨ct, hseal, -⟩, -⟩
      rw [hct] at hseal
      cases hseal
    | ok ct =>
      have hchecked : writeSecret name ct = call (.writeSecret (secretFile name) ct) := by
        unfold writeSecret checked
        rw [hname]
      dsimp only
      rw [hchecked]
      refine (endsMarked_call rfl).2 ?_
      cases hsecond : fs.tail.headD false with
      | true => exact ⟨rfl, rfl, fun h => by cases h.2.2⟩
      | false =>
        rw [if_neg (by decide)]
        rw [show State.exec { s with ticks := s.ticks + 1 } (.writeSecret (secretFile name) ct) =
          State.writeSecret { s with ticks := s.ticks + 1 } (secretFile name) ct from rfl]
        unfold State.writeSecret
        split
        · rename_i hdir
          refine ⟨rfl, rfl, ?_⟩
          rintro ⟨⟨_, _, hfree⟩, -⟩
          exact hfree hdir
        · rename_i hfree
          refine ⟨rfl, ct, ⟨hct, hfree⟩, Dir.get?_put_self, ⟨rfl, rfl⟩, ?_⟩
          exact (drop_two fs).symm

/-- The row and the mounts, by one statement. -/
theorem updateSecret_marked {sec : SecretRow} (hsec : sec ∈ s.db.secrets) (owner group mode : String) {wids : List ID}
    (hwids : ∀ w ∈ wids, (s.db.workloads.find? w).isSome) (fs : List Bool) :
    EndsMarked (fun r t _ => match r with
      | .ok _ => fs.headD false = false ∧ wids.Nodup
      | .error _ => t.db = s.db ∧ t.disk = s.disk ∧ (fs.headD false = true ∨ ¬wids.Nodup))
      (updateSecret sec.id owner group mode wids).run fs s := by
  refine (endsMarked_call rfl).2 ?_
  cases hmark : fs.headD false with
  | true => exact ⟨rfl, rfl, .inl rfl⟩
  | false =>
    rw [if_neg (by decide)]
    rw [show s.exec (.write (.updateSecret sec.id owner group mode wids)) =
      s.write (.updateSecret sec.id owner group mode wids) from rfl]
    have hwrite : (Write.updateSecret sec.id owner group mode wids).run (s.host.clock s.ticks) s.db =
        (s.db.updateSecret sec.id owner group mode wids (s.host.clock s.ticks)).map fun db => ((), db) := rfl
    unfold State.write
    rw [hwrite]
    cases hrun : s.db.updateSecret sec.id owner group mode wids (s.host.clock s.ticks) with
    | ok db => exact ⟨rfl, Db.updateSecret_nodup hrun⟩
    | error e =>
      refine ⟨rfl, rfl, .inr fun hnodup => ?_⟩
      obtain ⟨db, hok, -⟩ := updateSecret_ok hsec owner group mode (s.host.clock s.ticks) hwids hnodup
      rw [hrun] at hok
      cases hok

end Parts

/-! ## Every save -/

section Saves

variable {s t : State} {name : String} {form : SecretForm} {faults : List Bool}

theorem secretKept_of_eq {x : SecretRow} (hx : x ∈ s.db.secrets) (hdb : t.db = s.db)
    (hfile : t.disk.secrets.get? (secretFile x.name) = s.disk.secrets.get? (secretFile x.name)) : SecretKept s t x :=
  ⟨hdb ▸ hx, by rw [hdb], hfile⟩

/-- A save and what it comes to: a new ciphertext beside the old row, or the saved redirect, or nothing. -/
inductive SaveOutcome (s : State) (name : String) (form : SecretForm) (faults : List Bool) : Response → State → Prop
  | torn {t : State} {a : Response} (hreseals : Reseals s name form faults) (hfails : UpdateFails form faults)
    (ha : a ≠ savedRedirect)
    (hnew : t.disk.secrets.get? (secretFile name) ≠ s.disk.secrets.get? (secretFile name)) :
    SaveOutcome s name form faults a t
  | saved {t : State} (hsound : ¬(Reseals s name form faults ∧ UpdateFails form faults)) :
    SaveOutcome s name form faults savedRedirect t
  | nothing {t : State} {a : Response} (hsound : ¬(Reseals s name form faults ∧ UpdateFails form faults))
    (hkept : ∀ x ∈ s.db.secrets, x.name = name → SecretKept s t x) : SaveOutcome s name form faults a t

theorem Reseals.marks (h : Reseals s name form faults) : Unmarked faults 2 ∧
    Unmarked (faults.drop 2) form.mounts.length ∧ Unmarked ((faults.drop 2).drop form.mounts.length) 2 := by
  have hmarks := h.unfailing
  rw [unmarked_add, unmarked_add, ← List.drop_drop] at hmarks
  exact ⟨hmarks.1.1, hmarks.1.2, hmarks.2⟩

/-- What is left to do once the form has passed, from the ciphertext on. -/
theorem sealAndUpdate_marked {sec : SecretRow} (hvalid : validateName name = .ok ()) (hsec : sec ∈ s.db.secrets)
    (hname : sec.name = name) {f : SecretFields} (haccepted : form.accepted s = true)
    (hvalue : f.value = Go.replaceCRLF form.value) (hmounts : f.mounts = form.mounts.filterMap Go.parseInt)
    (hwids : ∀ id ∈ f.mounts, (s.db.workloads.find? id).isSome) (hfirst : Unmarked faults 2)
    (hposted : Unmarked (faults.drop 2) form.mounts.length) :
    EndsMarked (fun r t _ => match r with
      | .ok a | .error a => SaveOutcome s name form faults a t)
      (do
        match ← attempt (if f.value = "" then pure () else encryptSecret sec.name f.value) with
        | .error e => return secretsError (errText e)
        | .ok () =>
          orError (updateSecret sec.id f.owner f.group f.mode f.mounts)
          return savedRedirect : Handler Response).run ((faults.drop 2).drop form.mounts.length) s := by
  have hdrop : ((faults.drop 2).drop form.mounts.length).drop 2 = faults.drop (2 + form.mounts.length + 2) := by
    rw [List.drop_drop, List.drop_drop, Nat.add_assoc]
  by_cases hempty : f.value = ""
  · -- no value, and so no new ciphertext
    have hsound : ¬(Reseals s name form faults ∧ UpdateFails form faults) := fun h => h.1.value (hvalue ▸ hempty)
    rw [if_pos hempty]
    refine endsMarked_exceptT_bind.2 (endsMarked_attempt.2 (endsMarked_return.2 ?_))
    refine endsMarked_exceptT_bind.2
      (endsMarked_adapt.2 ((updateSecret_marked hsec _ _ _ hwids _).mono fun r t fs' hr => ?_))
    cases r with
    | ok u => exact endsMarked_return.2 (.saved hsound)
    | error e => exact .nothing hsound fun x hx _ => secretKept_of_eq hx hr.1 (by rw [hr.2.1])
  · rw [if_neg hempty, hname]
    refine endsMarked_exceptT_bind.2
      (endsMarked_attempt.2 ((encryptSecret_marked hvalid _ _ s).mono fun r t fs' hr => ?_))
    obtain ⟨hdb, hr⟩ := hr
    cases r with
    | error e =>
      refine endsMarked_return.2 (.nothing (fun h => hr.2 ?_) fun x hx _ => secretKept_of_eq hx hdb (by rw [hr.1]))
      obtain ⟨ct, hseal, -⟩ := h.1.sealed
      exact ⟨⟨ct, hvalue ▸ hseal⟩, h.1.marks.2.2⟩
    | ok u =>
      obtain ⟨ct, hseal, hfile, hsealed, rfl⟩ := hr
      rw [← hdb] at hsec hwids
      refine endsMarked_exceptT_bind.2
        (endsMarked_adapt.2 ((updateSecret_marked hsec _ _ _ hwids _).mono fun r t' fs' hr => ?_))
      rw [hdrop, hmounts] at hr
      cases r with
      | ok u =>
        refine endsMarked_return.2 (.saved fun h => ?_)
        rcases h.2 with hmark | hrepeated
        · rw [hr.1] at hmark
          cases hmark
        · exact hrepeated hr.2
      | error e =>
        obtain ⟨hdb', hdisk, hfails⟩ := hr
        by_cases hsame : s.disk.secrets.get? (secretFile name) = some (.file ct)
        · -- the ciphertext written is the one that was there
          refine .nothing (fun h => ?_) fun x hx hx' => secretKept_of_eq hx (hdb'.trans hdb) ?_
          · obtain ⟨ct', hseal', hne⟩ := h.1.sealed
            rw [← hvalue] at hseal'
            have hct : ct' = ct := Except.ok.inj (hseal'.1.symm.trans hseal.1)
            exact hne (hct ▸ hsame)
          · rw [hdisk, hx', hfile, hsame]
        · refine .torn ?_ hfails ?_ ?_
          · refine ⟨hvalid, ⟨sec, hdb ▸ hsec, hname⟩, haccepted, hvalue ▸ hempty,
              ⟨ct, hvalue ▸ hseal, hsame⟩, ?_⟩
            rw [unmarked_add, unmarked_add, ← List.drop_drop]
            exact ⟨⟨hfirst, hposted⟩, hsealed⟩
          · simp [savedRedirect, secretsFlash]
          · rw [hdisk, hfile]
            exact fun h => hsame h.symm

theorem handleSecretSave_marked (s : State) (name : String) (form : SecretForm) (faults : List Bool) :
    EndsMarked (fun r t _ => match r with
      | .ok a | .error a => SaveOutcome s name form faults a t) (handleSecretSave name form).run faults s := by
  have hnothing : ∀ a, ¬Reseals s name form faults → SaveOutcome s name form faults a s := fun a h =>
    .nothing (fun hboth => h hboth.1) fun x hx _ => secretKept_of_eq hx rfl rfl
  refine endsMarked_exceptT_bind.2 ((lookupSecret_marked name faults s).mono fun r s' fs' hr => ?_)
  obtain ⟨rfl, hr⟩ := hr
  cases r with
  | error a => exact hnothing a fun h => hr ⟨h.valid, h.secret, h.marks.1⟩
  | ok sec =>
    obtain ⟨hvalid, hsec, hname, hfirst, rfl⟩ := hr
    refine endsMarked_exceptT_bind.2
      (endsMarked_attempt.2 ((parseSecretForm_marked form _ _).mono fun r s'' fs'' hr => ?_))
    obtain ⟨rfl, hr⟩ := hr
    cases r with
    | error m => exact endsMarked_return.2 (hnothing _ fun h => hr ⟨h.passes, h.marks.2.1⟩)
    | ok f =>
      obtain ⟨haccepted, hvalue, hmounts, hwids, hposted, rfl⟩ := hr
      exact sealAndUpdate_marked hvalid hsec hname haccepted hvalue hmounts hwids hfirst hposted

/-- A save that does not end in the saved redirect leaves ciphertext, row and mounts of its secret as they were,
unless it wrote a new ciphertext and then failed to update the row. -/
theorem secretSave_kept_iff (s : State) (name : String) (form : SecretForm) (faults : List Bool) :
    (s.answer (.secretSave name form) faults ≠ savedRedirect →
      ∀ x ∈ s.db.secrets, x.name = name → SecretKept s (s.handle (.secretSave name form) faults) x) ↔
      ¬(Reseals s name form faults ∧ UpdateFails form faults) := by
  have hends : EndsMarked (fun a t _ => SaveOutcome s name form faults a t) (serve (.secretSave name form))
      faults s := by
    refine endsMarked_bind.2 ((handleSecretSave_marked s name form faults).mono fun r t fs' hr => ?_)
    cases r <;> exact endsMarked_pure.2 hr
  have hout : SaveOutcome s name form faults (s.answer (.secretSave name form) faults)
      (s.handle (.secretSave name form) faults) := endsMarked_iff.1 hends
  generalize s.answer (.secretSave name form) faults = a at hout ⊢
  generalize s.handle (.secretSave name form) faults = t at hout ⊢
  cases hout with
  | torn hreseals hfails ha hnew =>
    refine ⟨fun hkept => ?_, fun hsound => absurd ⟨hreseals, hfails⟩ hsound⟩
    obtain ⟨x, hx, rfl⟩ := hreseals.secret
    exact absurd (hkept ha x hx rfl).2.2 hnew
  | saved hsound => exact ⟨fun _ => hsound, fun _ ha => absurd rfl ha⟩
  | nothing hsound hkept => exact ⟨fun _ => hsound, fun _ _ => hkept⟩

/-- A workload and a secret. -/
def tokenBesideWeb : State := ((State.fresh exampleHost).run [createWeb, createToken]).get (by decide +kernel)

/-- A new value, delivered into the workload twice: refused by the table of mounts once the value is on disk. -/
def webTwice : SecretForm := ⟨"", "", "", "n3w", ["1", "1"]⟩

theorem secretSave_torn : ¬ ∀ (s : State) (name : String) (form : SecretForm) (faults : List Bool), s.Reachable →
    s.answer (.secretSave name form) faults ≠ savedRedirect →
      ∀ x ∈ s.db.secrets, x.name = name → SecretKept s (s.handle (.secretSave name form) faults) x := by
  intro h
  have hanswer : tokenBesideWeb.answer (.secretSave "token" webTwice) [] ≠ savedRedirect := by decide +kernel
  have hrow : ∃ x ∈ tokenBesideWeb.db.secrets, x.name = "token" := by decide +kernel
  obtain ⟨x, hx, hname⟩ := hrow
  have hkept := h tokenBesideWeb "token" webTwice [] (State.reachable_run _) hanswer x hx hname
  have hfile : (tokenBesideWeb.handle (.secretSave "token" webTwice) []).disk.secrets.get? (secretFile "token") ≠
      tokenBesideWeb.disk.secrets.get? (secretFile "token") := by decide +kernel
  exact hfile (hname ▸ hkept.2.2)

end Saves

end Nixbox
