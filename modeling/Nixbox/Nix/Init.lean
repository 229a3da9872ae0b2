/-
`StateFlake.Init` on the files of the state directory, run at every start of the service: what a run that
succeeds leaves, whatever was there before, and what one leaves that is cut short by a failing call.
-/
import Mathlib.Data.List.Infix
import Nixbox.Lib.FileTree
import Nixbox.Nix.Flakes
import Nixbox.Nix.Modules

namespace Nixbox.Nix

open Effect Prog FileTree Function

/-! ## The function -/

/-- The error path of `writeFileAtomic` up to the close: the temporary file is closed before the error is returned. -/
def orClose {α : Type} (tmp : Path) (x : Io α) : Io α := do
  match ← attempt x with
  | .ok a => return a
  | .error e =>
    let _ ← attempt (call (.close tmp))
    throw e

/-- The data goes to a temporary file beside the path, which is then renamed; it is removed whatever happens. -/
def writeFileAtomic (path : Path) (data : ByteArray) : Io Unit := do
  let tmp ← call (.createTemp path.dropLast ".tmp-")
  let r ← attempt (do
    orClose tmp (call (.write tmp data))
    orClose tmp (call (.chmod tmp 0o644))
    orClose tmp (call (.sync tmp))
    call (.close tmp)
    call (.rename tmp path))
  let _ ← attempt (call (.remove tmp))
  match r with
  | .ok () => return ()
  | .error e => throw e

/-- A name relative to the state directory. -/
def pathOf (name : String) : Path := Go.split name "/"

/-- The directories `Init` makes. -/
def initDirs : List Path := [[], ["modules"], ["workloads"], ["secrets"]]

/-- What `Init` writes only where there is nothing: `WriteFlake(nil, false)`, the lock, `WriteIndex(nil, nil)`. -/
def seeds : List (String × String) :=
  [("flake.nix", renderFlake [] false), ("flake.lock", stateFlakeLock), ("index.nix", (indexDoc [] []).text)]

/-- A file is written unless there is one. -/
def seed (f : String × String) : Io Unit := do
  match ← attempt (call (.stat (pathOf f.1))) with
  | .error .notExist => writeFileAtomic (pathOf f.1) f.2.toUTF8
  | _ => return ()

/-- `Init`, with the map of static files gone through in the order `static`. -/
def init (static : List (String × String)) : Io Unit := do
  let _ ← forEach (fun p => call (.mkdirAll p)) initDirs
  let _ ← forEach (fun f => writeFileAtomic (pathOf f.1) f.2.toUTF8) static
  let _ ← forEach seed seeds
  return ()

/-! ## What it is for -/

/-- A path that `writeFileAtomic` may use for a temporary file in `dir`. -/
def TempIn (dir p : Path) : Prop := ∃ name, ".tmp-".toList <+: name.toList ∧ p = dir ++ [name]

/-- `Init` writes in two directories. -/
def Temp (p : Path) : Prop := TempIn [] p ∨ TempIn ["modules"] p

/-- The tree `Init` makes of `t`. -/
def initialised (t : Tree) (p : Path) : Option Node :=
  if p ∈ initDirs then some .dir
  else match staticFiles.find? fun f => pathOf f.1 = p with
    | some f => some (.file f.2.toUTF8)
    | none =>
      match seeds.find? fun f => pathOf f.1 = p with
      | some f => some ((t p).getD (.file f.2.toUTF8))
      | none => t p

/-- The paths `Init` cares for. -/
def managed : List Path := initDirs ++ staticFiles.map (pathOf ·.1) ++ seeds.map (pathOf ·.1)

theorem managed_nodup : managed.Nodup := by decide +kernel

theorem managed_not_tempIn {dir p : Path} (hp : p ∈ managed) : ¬TempIn dir p := by
  have hlast : ∀ p ∈ managed, ¬".tmp-".toList <+: (p.getLastD "").toList := by decide +kernel
  rintro ⟨name, hstart, rfl⟩
  refine hlast _ hp ?_
  rwa [List.getLastD_concat]

theorem managed_not_temp {p : Path} (hp : p ∈ managed) : ¬Temp p := fun h =>
  h.elim (managed_not_tempIn hp) (managed_not_tempIn hp)

section Initialised

variable {t : Tree} {p : Path} {f : String × String}

/-- An entry is found under its path, where each comes once. -/
theorem find?_path {l : List (String × String)} (hnodup : (l.map (pathOf ·.1)).Nodup) (hf : f ∈ l) :
    (l.find? fun g => pathOf g.1 = pathOf f.1) = some f := by
  induction l with
  | nil => cases hf
  | cons g l ih =>
    obtain ⟨hg, hnodup⟩ := List.nodup_cons.1 hnodup
    rcases List.mem_cons.1 hf with rfl | hf
    · rw [List.find?_cons_of_pos (by simp)]
    · rw [List.find?_cons_of_neg, ih hnodup hf]
      intro heq
      exact hg (List.mem_map.2 ⟨f, hf, (of_decide_eq_true heq).symm⟩)

theorem find?_path_none {l : List (String × String)} (h : p ∉ l.map (pathOf ·.1)) :
    (l.find? fun g => pathOf g.1 = p) = none := by
  refine List.find?_eq_none.2 fun g hg heq => h ?_
  exact List.mem_map.2 ⟨g, hg, of_decide_eq_true heq⟩

theorem initialised_dir (h : p ∈ initDirs) : initialised t p = some .dir := if_pos h

theorem initialised_static (h : f ∈ staticFiles) : initialised t (pathOf f.1) = some (.file f.2.toUTF8) := by
  have hnd := List.nodup_append.1 (List.nodup_append.1 managed_nodup).1
  have hdir : pathOf f.1 ∉ initDirs := fun hd => hnd.2.2 _ hd _ (List.mem_map_of_mem h) rfl
  unfold initialised
  rw [if_neg hdir, find?_path hnd.2.1 h]

theorem initialised_seed (h : f ∈ seeds) :
    initialised t (pathOf f.1) = some ((t (pathOf f.1)).getD (.file f.2.toUTF8)) := by
  have hnd := List.nodup_append.1 managed_nodup
  have hout : pathOf f.1 ∉ initDirs ++ staticFiles.map (pathOf ·.1) :=
    fun hm => hnd.2.2 _ hm _ (List.mem_map_of_mem h) rfl
  obtain ⟨hdir, hstatic⟩ := not_or.1 (mt List.mem_append.2 hout)
  unfold initialised
  rw [if_neg hdir, find?_path_none hstatic]
  dsimp only
  rw [find?_path hnd.2.1 h]

theorem initialised_other (h : p ∉ managed) : initialised t p = t p := by
  obtain ⟨hout, hseed⟩ := not_or.1 (mt List.mem_append.2 h)
  obtain ⟨hdir, hstatic⟩ := not_or.1 (mt List.mem_append.2 hout)
  unfold initialised
  rw [if_neg hdir, find?_path_none hstatic]
  dsimp only
  rw [find?_path_none hseed]

end Initialised

/-! ## Writing one file -/

section Write

variable {F : ∀ β : Type, Op β → Bool} {T : Path → Prop} {s : Os} {path tmp : Path} {data : ByteArray}

/-- The temporary file is open: the tree is that of `t` but for it. -/
def Opened (t : Tree) (tmp : Path) (s : Os) : Prop := ∃ c, s.tree = update t tmp (some (.file c))

/-- Closing the temporary file changes nothing. -/
theorem orClose_ends {α : Type} {x : Io α} {Q : Except Errno α → Os → Prop} (h : EndsIf F Q x.run s) :
    EndsIf F Q (orClose tmp x).run s := by
  unfold orClose
  refine ends_exceptT_bind.2 (endsIf_attempt.2 (h.mono fun r s' hr => ?_))
  cases r with
  | ok a => exact ends_return.2 hr
  | error e =>
    exact ends_exceptT_bind.2 (endsIf_attempt.2 (endsIf_call.2 ⟨ends_throw.2 hr, fun _ => ends_throw.2 hr⟩))

/-- Filling the temporary file and renaming it: either it stands, or the path has the data. -/
theorem fill_ends {t : Tree} (hopen : s.tree = update t tmp (some (.file .empty))) (hfree : t tmp = none) :
    EndsIf F (fun r s' => match r with
      | .ok () => s'.tree = update t path (some (.file data))
      | .error _ => Opened t tmp s') (do
        orClose tmp (call (.write tmp data))
        orClose tmp (call (.chmod tmp 0o644))
        orClose tmp (call (.sync tmp))
        call (.close tmp)
        call (.rename tmp path) : Io Unit).run s := by
  have hempty : Opened t tmp s := ⟨_, hopen⟩
  have htmp : s.tree tmp = some (.file .empty) := by rw [hopen, update_self]
  refine ends_exceptT_bind.2 (orClose_ends (endsIf_call.2 ⟨?_, fun _ => hempty⟩))
  rw [Os.write_file htmp, hopen, update_idem, ByteArray.empty_append]
  dsimp only
  generalize hs' : ({ s with tree := update t tmp (some (.file data)) } : Os) = s'
  have hfull : s'.tree = update t tmp (some (.file data)) := by rw [← hs']
  have hopened : Opened t tmp s' := ⟨data, hfull⟩
  refine ends_exceptT_bind.2 (orClose_ends (endsIf_call.2 ⟨?_, fun _ => hopened⟩))
  refine ends_exceptT_bind.2 (orClose_ends (endsIf_call.2 ⟨?_, fun _ => hopened⟩))
  refine ends_exceptT_bind.2 (endsIf_call.2 ⟨?_, fun _ => hopened⟩)
  refine endsIf_call.2 ⟨?_, fun _ => hopened⟩
  simp only [Os.exec_chmod, Os.exec_sync, Os.exec_close]
  rcases Os.rename_file (q := path) (by rw [hfull, update_self] : s'.tree tmp = some (.file data)) with hr | hr
  · rw [hr]
    exact hopened
  · rw [hr]
    dsimp only
    have hback : update t tmp none = t := update_eq_self_iff.2 hfree.symm
    rw [hfull, update_idem, hback]

/-- Writing a file: it has the data and nothing else changed, or all is as before, but for a temporary file that could
not be removed. -/
theorem writeFileAtomic_ends (hT : ∀ p, TempIn path.dropLast p → F _ (.remove p) = true → T p)
    (hpath : ¬TempIn path.dropLast path) :
    EndsIf F (fun r s' => match r with
      | .ok () => s'.tree = update s.tree path (some (.file data))
      | .error _ => ∀ p, ¬T p → s'.tree p = s.tree p) (writeFileAtomic path data).run s := by
  refine ends_exceptT_bind.2 (endsIf_call.2 ⟨?_, fun _ p _ => rfl⟩)
  rcases Os.createTemp_cases (s := s) path.dropLast ".tmp-" with hr | ⟨name, hstart, hfree, hr⟩
  · rw [hr]
    exact fun p _ => rfl
  rw [hr]
  dsimp only
  generalize htmp : path.dropLast ++ [name] = tmp at *
  have hTemp : TempIn path.dropLast tmp := ⟨name, hstart, htmp.symm⟩
  have hne : path ≠ tmp := fun he => hpath (he ▸ hTemp)
  refine ends_exceptT_bind.2 (endsIf_attempt.2 ((fill_ends rfl hfree).mono fun r s' hr => ?_))
  dsimp only
  cases r with
  | ok _ =>
    -- renamed away, so there is nothing to remove
    have hgone : s'.tree tmp = none := by rw [hr, update_of_ne (Ne.symm hne), hfree]
    refine ends_exceptT_bind.2 (endsIf_attempt.2 (endsIf_call.2 ⟨?_, fun _ => ends_return.2 hr⟩))
    rw [Os.remove_none hgone]
    exact ends_return.2 hr
  | error e =>
    obtain ⟨c, hopen⟩ := hr
    refine ends_exceptT_bind.2 (endsIf_attempt.2 (endsIf_call.2 ⟨?_, fun hF => ends_throw.2 fun p hp => ?_⟩))
    · rw [Os.remove_file (by rw [hopen, update_self])]
      refine ends_throw.2 fun p _ => ?_
      dsimp only
      rw [hopen, update_idem, update_eq_self_iff.2 hfree.symm]
    · have hpt : p ≠ tmp := fun he => hp (he ▸ hT tmp hTemp hF)
      rw [hopen, update_of_ne hpt]

end Write

/-! ## From one tree to the other -/

/-- Each path is still as in `t₀` or already as `Init` makes it, which those of `D` are; what is at a path of `T` does
not count. -/
structure Toward (T : Path → Prop) (t₀ : Tree) (D : List Path) (t : Tree) : Prop where
  between : ∀ p, ¬T p → t p = t₀ p ∨ t p = initialised t₀ p
  done : ∀ p ∈ D, ¬T p ∧ t p = initialised t₀ p

/-- A program ends on the way, with `D` made if it goes on. -/
def Goes {β : Type} (T : Path → Prop) (t₀ : Tree) (D : List Path) (r : Except Errno β) (s : Os) : Prop :=
  (∃ D', Toward T t₀ D' s.tree) ∧ (r.isOk = true → Toward T t₀ D s.tree)

section Toward

variable {F : ∀ β : Type, Op β → Bool} {T : Path → Prop} {t₀ t t' : Tree} {D : List Path} {p : Path} {s : Os}

theorem managed_cases (hp : p ∈ managed) :
    p ∈ initDirs ∨ (∃ f ∈ staticFiles, p = pathOf f.1) ∨ ∃ f ∈ seeds, p = pathOf f.1 := by
  rcases List.mem_append.1 hp with hp | hp
  · rcases List.mem_append.1 hp with hp | hp
    · exact .inl hp
    · obtain ⟨f, hf, rfl⟩ := List.mem_map.1 hp
      exact .inr (.inl ⟨f, hf, rfl⟩)
  · obtain ⟨f, hf, rfl⟩ := List.mem_map.1 hp
    exact .inr (.inr ⟨f, hf, rfl⟩)

/-- What `Init` makes of a tree on the way is what it makes of the first one. -/
theorem Toward.initialised_eq (h : Toward T t₀ D t) (hp : ¬T p) : initialised t p = initialised t₀ p := by
  by_cases hm : p ∈ managed
  · rcases managed_cases hm with hdir | ⟨f, hf, rfl⟩ | ⟨f, hf, rfl⟩
    · rw [initialised_dir hdir, initialised_dir hdir]
    · rw [initialised_static hf, initialised_static hf]
    · rw [initialised_seed hf]
      rcases h.between _ hp with heq | heq
      · rw [heq, initialised_seed hf]
      · rw [heq, initialised_seed hf, Option.getD_some]
  · rw [initialised_other hm]
    rcases h.between _ hp with heq | heq
    · rw [heq, initialised_other hm]
    · exact heq

theorem Toward.agree (h : Toward T t₀ D t) (ht : ∀ p, ¬T p → t' p = t p) : Toward T t₀ D t' :=
  ⟨fun p hp => by rw [ht p hp]; exact h.between p hp, fun p hp =>
    ⟨(h.done p hp).1, by rw [ht p (h.done p hp).1, (h.done p hp).2]⟩⟩

/-- A path is made as `Init` makes it. -/
theorem Toward.update (h : Toward T t₀ D t) (hp : ¬T p) :
    Toward T t₀ (D ++ [p]) (update t p (initialised t₀ p)) := by
  constructor
  · intro q hq
    by_cases hqp : q = p
    · rw [hqp, update_self]
      exact .inr rfl
    · rw [update_of_ne hqp]
      exact h.between q hq
  · intro q hq
    by_cases hqp : q = p
    · rw [hqp, update_self]
      exact ⟨hp, rfl⟩
    · rw [update_of_ne hqp]
      exact h.done q ((List.mem_append.1 hq).resolve_right fun hq => hqp (List.mem_singleton.1 hq))

/-- A path that is there by now is one that stays, or was seeded. -/
theorem Toward.present {f : String × String} (h : Toward T t₀ D t) (hf : f ∈ seeds) (hp : ¬T (pathOf f.1))
    (hsome : t (pathOf f.1) ≠ none) : Toward T t₀ (D ++ [pathOf f.1]) t := by
  refine ⟨h.between, fun q hq => ?_⟩
  rcases List.mem_append.1 hq with hq | hq
  · exact h.done q hq
  · rw [List.mem_singleton.1 hq]
    refine ⟨hp, ?_⟩
    rcases h.between _ hp with heq | heq
    · rw [initialised_seed hf, ← heq]
      obtain ⟨n, hn⟩ := Option.ne_none_iff_exists'.1 hsome
      rw [hn, Option.getD_some]
    · exact heq

theorem mkdirAll_toward (hT : ∀ p, T p → Temp p) (h : Toward T t₀ D s.tree) (hp : p ∈ initDirs) :
    EndsIf F (Goes T t₀ (D ++ [p])) (call (.mkdirAll p)).run s := by
  refine endsIf_call.2 ⟨?_, fun _ => ⟨⟨D, h⟩, nofun⟩⟩
  rcases Os.mkdirAll_cases (s := s) (p := p) with hr | hr
  · rw [hr]
    exact ⟨⟨D, h⟩, nofun⟩
  · rw [hr]
    suffices hmade : Toward T t₀ (D ++ [p]) (s.tree.withDirs p) from ⟨⟨_, hmade⟩, fun _ => hmade⟩
    have hself : s.tree.withDirs p p = initialised t₀ p := (if_pos List.prefix_rfl).trans (initialised_dir hp).symm
    have hall : ∀ p ∈ initDirs, ∀ q ∈ p.inits, q ∈ initDirs := by decide
    have hmade : ∀ q, ¬T q → s.tree.withDirs p q = s.tree q ∨ s.tree.withDirs p q = initialised t₀ q := by
      intro q hq
      unfold Tree.withDirs
      split
      · rename_i hqp
        exact .inr (initialised_dir (hall p hp q ((List.mem_inits _ _).2 hqp))).symm
      · exact .inl rfl
    refine ⟨fun q hq => ?_, fun q hq => ?_⟩
    · rcases hmade q hq with heq | heq
      · rw [heq]
        exact h.between q hq
      · exact .inr heq
    · rcases List.mem_append.1 hq with hq | hq
      · obtain ⟨hqT, hdone⟩ := h.done q hq
        rcases hmade q hqT with heq | heq
        · exact ⟨hqT, heq.trans hdone⟩
        · exact ⟨hqT, heq⟩
      · rw [List.mem_singleton.1 hq]
        exact ⟨fun ht => managed_not_temp (List.mem_append_left _ (List.mem_append_left _ hp)) (hT p ht), hself⟩

variable (hT : ∀ p, T p ↔ Temp p ∧ F _ (.remove p) = true)

include hT

omit hT in
theorem managed_dropLast (hp : p ∈ managed) : p.dropLast = [] ∨ p.dropLast = ["modules"] := by
  have hall : ∀ p ∈ managed, p.dropLast = [] ∨ p.dropLast = ["modules"] := by decide +kernel
  exact hall p hp

theorem not_excused (hp : p ∈ managed) : ¬T p := fun ht => managed_not_temp hp ((hT p).1 ht).1

/-- A file of `Init` is written. -/
theorem writeFileAtomic_toward {data : ByteArray} (h : Toward T t₀ D s.tree) (hp : p ∈ managed)
    (hdata : initialised t₀ p = some (.file data)) :
    EndsIf F (Goes T t₀ (D ++ [p])) (writeFileAtomic p data).run s := by
  have htemp : ∀ q, TempIn p.dropLast q → F _ (.remove q) = true → T q := fun q hq hF => by
    refine (hT q).2 ⟨?_, hF⟩
    rcases managed_dropLast hp with hd | hd
    · exact .inl (hd ▸ hq)
    · exact .inr (hd ▸ hq)
  refine (writeFileAtomic_ends htemp (managed_not_tempIn hp)).mono fun r s' hr => ?_
  cases r with
  | ok _ =>
    have hput := h.update (not_excused hT hp)
    rw [hdata] at hput
    rw [← hr] at hput
    exact ⟨⟨_, hput⟩, fun _ => hput⟩
  | error e => exact ⟨⟨D, h.agree hr⟩, nofun⟩

theorem seed_toward {f : String × String} (hstat : ∀ p, F _ (.stat p) = false)
    (h : Toward T t₀ D s.tree) (hf : f ∈ seeds) :
    EndsIf F (Goes T t₀ (D ++ [pathOf f.1])) (seed f).run s := by
  have hp : pathOf f.1 ∈ managed := List.mem_append_right _ (List.mem_map_of_mem hf)
  refine ends_exceptT_bind.2 (endsIf_attempt.2 (endsIf_call.2 ⟨?_, fun hF => ?_⟩))
  · cases hs : s.tree (pathOf f.1) with
    | none =>
      have hr : Os.exec (.stat (pathOf f.1)) s = (.error .notExist, s) := by
        show s.stat _ = _
        unfold Os.stat
        rw [hs]
      rw [hr]
      refine writeFileAtomic_toward hT h hp ?_
      rw [initialised_seed hf]
      rcases h.between _ (not_excused hT hp) with heq | heq
      · rw [← heq, hs, Option.getD_none]
      · rw [initialised_seed hf, hs] at heq
        cases heq
    | some n =>
      have hr : Os.exec (.stat (pathOf f.1)) s = (.ok (), s) := by
        show s.stat _ = _
        unfold Os.stat
        rw [hs]
      rw [hr]
      have hthere := h.present hf (not_excused hT hp) (by rw [hs]; exact Option.some_ne_none n)
      exact ends_return.2 ⟨⟨_, hthere⟩, fun _ => hthere⟩
  · rw [hstat] at hF
    cases hF

omit hT in
/-- A loop whose turns each make a path as `Init` makes it. -/
theorem forEach_toward {α β : Type} {f : α → Io β} (path : α → Path) {l : List α} (h : Toward T t₀ D s.tree)
    (hf : ∀ a ∈ l, ∀ D s, Toward T t₀ D s.tree → EndsIf F (Goes T t₀ (D ++ [path a])) (f a).run s) :
    EndsIf F (Goes T t₀ (D ++ l.map path)) (forEach f l).run s := by
  refine EndsIf.forEach (I := fun l (s : Os) => Toward T t₀ (D ++ l.map path) s.tree)
    (E := fun s : Os => ∃ D', Toward T t₀ D' s.tree) [] (fun l s hs => ⟨_, hs⟩) (fun l a s ha hI => ?_)
    (by rwa [List.map_nil, List.append_nil])
  rw [List.map_append, ← List.append_assoc]
  exact hf a ha _ s hI

/-- Every run: each path is as before or as `Init` makes it, all of them if it succeeds. -/
theorem init_ends {static : List (String × String)} (hstat : ∀ p, F _ (.stat p) = false)
    (hperm : static.Perm staticFiles)
    (h : Toward T t₀ D s.tree) : EndsIf F (fun r s' => (∃ D', Toward T t₀ D' s'.tree) ∧
      (r = .ok () → ∀ p, ¬T p → s'.tree p = initialised t₀ p)) (init static).run s := by
  have hfile : ∀ f ∈ static, pathOf f.1 ∈ managed ∧ initialised t₀ (pathOf f.1) = some (.file f.2.toUTF8) :=
    fun f hf => by
    have hmem : f ∈ staticFiles := hperm.mem_iff.1 hf
    exact ⟨List.mem_append_left _ (List.mem_append_right _ (List.mem_map_of_mem hmem)), initialised_static hmem⟩
  have hdirs : EndsIf F (Goes T t₀ (D ++ initDirs.map fun p => p))
      (forEach (fun p => call (.mkdirAll p)) initDirs).run s :=
    forEach_toward _ h fun p hp D s hs => mkdirAll_toward (fun p ht => ((hT p).1 ht).1) hs hp
  unfold init
  refine ends_exceptT_bind.2 (hdirs.mono fun r s₁ h₁ => ?_)
  cases r with
  | error e => exact ⟨h₁.1, nofun⟩
  | ok _ =>
    have hfiles : EndsIf F (Goes T t₀ ((D ++ initDirs.map fun p => p) ++ static.map fun f => pathOf f.1))
        (forEach (fun f => writeFileAtomic (pathOf f.1) f.2.toUTF8) static).run s₁ :=
      forEach_toward _ (h₁.2 rfl) fun f hf D s hs => writeFileAtomic_toward hT hs (hfile f hf).1 (hfile f hf).2
    refine ends_exceptT_bind.2 (hfiles.mono fun r s₂ h₂ => ?_)
    cases r with
    | error e => exact ⟨h₂.1, nofun⟩
    | ok _ =>
      have hseeds : EndsIf F (Goes T t₀ (((D ++ initDirs.map fun p => p) ++ static.map fun f => pathOf f.1) ++
          seeds.map fun f => pathOf f.1)) (forEach seed seeds).run s₂ :=
        forEach_toward _ (h₂.2 rfl) fun f hf D s hs => seed_toward hT hstat hs hf
      refine ends_exceptT_bind.2 (hseeds.mono fun r s₃ h₃ => ?_)
      cases r with
      | error e => exact ⟨h₃.1, nofun⟩
      | ok _ =>
        refine ends_return.2 ⟨h₃.1, fun _ p hp => ?_⟩
        by_cases hm : p ∈ managed
        · -- every path `Init` cares for was gone through
          refine ((h₃.2 rfl).done p ?_).2
          rcases managed_cases hm with hdir | ⟨f, hf, rfl⟩ | ⟨f, hf, rfl⟩
          · simp [hdir]
          · have hin : pathOf f.1 ∈ static.map fun f => pathOf f.1 := List.mem_map_of_mem (hperm.mem_iff.2 hf)
            simp [hin]
          · have hin : pathOf f.1 ∈ seeds.map fun f => pathOf f.1 := List.mem_map_of_mem hf
            simp [hin]
        · rw [initialised_other hm]
          rcases (h₃.2 rfl).between p hp with heq | heq
          · exact heq
          · rw [heq, initialised_other hm]

end Toward

/-! ## Every run -/

/-- A temporary file whose removal can fail. -/
def Leftover (F : ∀ β : Type, Op β → Bool) (p : Path) : Prop := Temp p ∧ F _ (.remove p) = true

/-- `s` is reached from `s₀` by runs of `Init` that fail, however many. -/
inductive Failed (F : ∀ β : Type, Op β → Bool) (s₀ : Os) : Os → Prop
  | none : Failed F s₀ s₀
  | again {s : Os} {static : List (String × String)} {faults : List Bool} (h : Failed F s₀ s)
    (hperm : static.Perm staticFiles) (hfaults : (init static).run.failsOnly F faults s = true)
    (herr : ((init static).run.runWith faults s).1 ≠ .ok ()) : Failed F s₀ ((init static).run.runWith faults s).2

/-- What a run that succeeds makes of the tree. -/
structure Established (t t' : Tree) : Prop where
  /-- What there is of the three stays as it is. -/
  kept : ∀ name ∈ ["index.nix", "flake.nix", "flake.lock"], t [name] ≠ none → t' [name] = t [name]
  /-- So does all under the two directories. -/
  under : ∀ dir ∈ ["workloads", "secrets"], ∀ p ≠ [], t' (dir :: p) = t (dir :: p)
  index : t ["index.nix"] = none → t' ["index.nix"] = some (.file (indexDoc [] []).text.toUTF8)
  flake : t ["flake.nix"] = none → t' ["flake.nix"] = some (.file (renderFlake [] false).toUTF8)
  lock : t ["flake.lock"] = none → t' ["flake.lock"] = some (.file stateFlakeLock.toUTF8)
  modules : ∀ wt ∈ registrations, wt.moduleFile ≠ "" → t' (pathOf wt.moduleFile) = some (.file wt.module.toUTF8)
  default : t' ["modules", "default.nix"] = some (.file modulesDefault.toUTF8)
  /-- The module list imports what was written beside it. -/
  imports : ∀ name, name ∈ importsOf modulesDefault ↔
    name ≠ "default.nix" ∧ ∃ content, ("modules/" ++ name, content) ∈ staticFiles
  written : ∀ name ∈ importsOf modulesDefault, ∃ content, ("modules/" ++ name, content) ∈ staticFiles ∧
    t' ["modules", name] = some (.file content.toUTF8)
  once : (importsOf modulesDefault).Nodup

section Runs

variable {F : ∀ β : Type, Op β → Bool} {s s' : Os} {static : List (String × String)} {faults : List Bool}

theorem Leftover.spec (p : Path) : Leftover F p ↔ Temp p ∧ F _ (.remove p) = true := Iff.rfl

theorem toward_self (s : Os) : Toward (Leftover F) s.tree [] s.tree := ⟨fun _ _ => .inl rfl, nofun⟩

/-- Runs that fail leave a tree on the way. -/
theorem Failed.toward (hstat : ∀ p, F _ (.stat p) = false) {s₀ : Os} (h : Failed F s₀ s) :
    ∃ D, Toward (Leftover F) s₀.tree D s.tree := by
  induction h with
  | none => exact ⟨[], toward_self s₀⟩
  | again h hperm hfaults _ ih =>
    obtain ⟨D, hD⟩ := ih
    exact ((init_ends Leftover.spec hstat hperm hD).runWith_of hfaults).1

theorem temp_length {p : Path} (h : Temp p) : p.length = 1 ∨ ∃ name, p = ["modules", name] := by
  rcases h with ⟨name, -, rfl⟩ | ⟨name, -, rfl⟩
  · exact .inl rfl
  · exact .inr ⟨name, rfl⟩

theorem staticFiles_names : staticFiles.map Prod.fst =
    ["hostports.nix", "secrets.nix", "default.nix", "nixos-container.nix",
      "oci-container.nix"].map ("modules/" ++ ·) := rfl

/-- The module list imports all that is written beside it. -/
theorem mem_imports {name : String} : name ∈ importsOf modulesDefault ↔
    name ≠ "default.nix" ∧ ∃ content, ("modules/" ++ name, content) ∈ staticFiles := by
  have hnames : (∃ content, ("modules/" ++ name, content) ∈ staticFiles) ↔
      name ∈ ["hostports.nix", "secrets.nix", "default.nix", "nixos-container.nix", "oci-container.nix"] := by
    have hfst : (∃ content, ("modules/" ++ name, content) ∈ staticFiles) ↔
        "modules/" ++ name ∈ staticFiles.map Prod.fst := by
      simp
    rw [hfst, staticFiles_names, List.mem_map_of_injective]
    intro a b hab
    simpa using hab
  rw [modulesDefault_imports, hnames]
  simp only [List.mem_cons, List.not_mem_nil, or_false]
  constructor
  · rintro (rfl | rfl | rfl | rfl) <;> simp
  · rintro ⟨hne, rfl | rfl | rfl | rfl | rfl⟩ <;> simp at hne ⊢

theorem importsOf_paths : ∀ name ∈ importsOf modulesDefault, pathOf ("modules/" ++ name) = ["modules", name] := by
  rw [modulesDefault_imports]
  decide +kernel

theorem seed_paths : pathOf "index.nix" = ["index.nix"] ∧ pathOf "flake.nix" = ["flake.nix"] ∧
    pathOf "flake.lock" = ["flake.lock"] ∧ pathOf "modules/default.nix" = ["modules", "default.nix"] := by
  decide +kernel

/-- `Init` cares for nothing below the two directories. -/
theorem under_not_managed {dir : String} (hdir : dir ∈ ["workloads", "secrets"]) {p : Path} (hp : p ≠ []) :
    dir :: p ∉ managed := by
  have hall : ∀ q ∈ managed, q.headD "" ∈ ["workloads", "secrets"] → q.length = 1 := by decide +kernel
  intro hm
  have hlen := hall _ hm hdir
  rw [List.length_cons] at hlen
  exact hp (List.eq_nil_of_length_eq_zero (by omega))

theorem under_not_temp {dir : String} (hdir : dir ∈ ["workloads", "secrets"]) {p : Path} (hp : p ≠ []) :
    ¬Temp (dir :: p) := by
  intro h
  rcases temp_length h with hlen | ⟨name, hname⟩
  · rw [List.length_cons] at hlen
    exact hp (List.eq_nil_of_length_eq_zero (by omega))
  · cases hname
    exact absurd hdir (by decide)

theorem established {t t' : Tree} (h : ∀ p, ¬Leftover F p → t' p = initialised t p) : Established t t' := by
  have hmanaged : ∀ p ∈ managed, t' p = initialised t p := fun p hp => h p fun hl => managed_not_temp hp hl.1
  have hstatic : ∀ f ∈ staticFiles, t' (pathOf f.1) = some (.file f.2.toUTF8) := fun f hf => by
    rw [hmanaged _ (List.mem_append_left _ (List.mem_append_right _ (List.mem_map_of_mem hf))), initialised_static hf]
  have hseed : ∀ f ∈ seeds, t' (pathOf f.1) = some ((t (pathOf f.1)).getD (.file f.2.toUTF8)) := fun f hf => by
    rw [hmanaged _ (List.mem_append_right _ (List.mem_map_of_mem hf)), initialised_seed hf]
  obtain ⟨hindexPath, hflakePath, hlockPath, hdefaultPath⟩ := seed_paths
  have hflake := hseed ("flake.nix", renderFlake [] false) (.head _)
  have hlock := hseed ("flake.lock", stateFlakeLock) (.tail _ (.head _))
  have hindex := hseed ("index.nix", (indexDoc [] []).text) (.tail _ (.tail _ (.head _)))
  dsimp only at hflake hlock hindex
  rw [hflakePath] at hflake
  rw [hlockPath] at hlock
  rw [hindexPath] at hindex
  -- one that is there is not the seed's
  have hkeep : ∀ {n o : Option Node} {data : ByteArray}, n = some (o.getD (.file data)) → o ≠ none → n = o := by
    intro n o data hn ho
    obtain ⟨x, rfl⟩ := Option.ne_none_iff_exists'.1 ho
    exact hn
  have hnew : ∀ {n o : Option Node} {data : ByteArray}, n = some (o.getD (.file data)) → o = none →
      n = some (.file data) := by
    rintro n o data hn rfl
    exact hn
  refine ⟨fun name hname hthere => ?_, fun dir hdir p hp => ?_, hnew hindex, hnew hflake,
    hnew hlock, fun wt hwt hfile => ?_, ?_, fun name => mem_imports, fun name hname => ?_, ?_⟩
  · simp only [List.mem_cons, List.not_mem_nil, or_false] at hname
    rcases hname with rfl | rfl | rfl
    · exact hkeep hindex hthere
    · exact hkeep hflake hthere
    · exact hkeep hlock hthere
  · rw [h _ fun hl => under_not_temp hdir hp hl.1, initialised_other (under_not_managed hdir hp)]
  · refine hstatic (wt.moduleFile, wt.module) (List.mem_append_right _ (List.mem_map.2 ⟨wt, ?_, rfl⟩))
    exact List.mem_filter.2 ⟨hwt, by simpa using hfile⟩
  · have hdefault := hstatic ("modules/default.nix", modulesDefault)
      (List.mem_append_left _ (.tail _ (.tail _ (.head _))))
    rwa [hdefaultPath] at hdefault
  · obtain ⟨-, content, hmem⟩ := mem_imports.1 hname
    have hwritten := hstatic _ hmem
    dsimp only at hwritten
    rw [importsOf_paths name hname] at hwritten
    exact ⟨content, hmem, hwritten⟩
  · rw [modulesDefault_imports]
    decide

/-- Whatever is in the state directory: a run of `Init` that succeeds establishes what it is for; another run, whether
it succeeds or not, changes nothing; and after any number of runs that failed, each at any of its calls but a test for a
file, it leaves what it would have left before them. Only a temporary file may be left over, and only where its removal
can fail too. -/
theorem init_spec {s₀ : Os} (hstat : ∀ p, F _ (.stat p) = false) (hfailed : Failed F s₀ s)
    (hperm : static.Perm staticFiles) (hfaults : (init static).run.failsOnly F faults s = true)
    (hrun : (init static).run.runWith faults s = (.ok (), s')) :
    Established s.tree s'.tree ∧
    (∀ static' faults', static'.Perm staticFiles → (init static').run.failsOnly F faults' s' = true →
      ∀ p, ¬Leftover F p → ((init static').run.runWith faults' s').2.tree p = s'.tree p) ∧
    (∀ static' faults' s'', static'.Perm staticFiles → (init static').run.failsOnly F faults' s₀ = true →
      (init static').run.runWith faults' s₀ = (.ok (), s'') →
      ∀ p, ¬Leftover F p → s'.tree p = s''.tree p) := by
  have hall : ∀ {static : List (String × String)} {faults : List Bool} {s t : Os}, static.Perm staticFiles →
      (init static).run.failsOnly F faults s = true → (init static).run.runWith faults s = (.ok (), t) →
      ∀ p, ¬Leftover F p → t.tree p = initialised s.tree p := by
    intro static faults s t hperm hfaults hrun p hp
    have hend := ((init_ends Leftover.spec hstat hperm (toward_self s)).runWith_of hfaults).2
    rw [hrun] at hend
    exact hend rfl p hp
  have hs' := hall hperm hfaults hrun
  refine ⟨established hs', fun static' faults' hperm' hfaults' p hp => ?_,
    fun static' faults' s'' hperm' hfaults' hrun' p hp => ?_⟩
  · obtain ⟨⟨D, hD⟩, -⟩ := (init_ends Leftover.spec hstat hperm' (toward_self s')).runWith_of hfaults'
    -- what `Init` would make of the tree is there already
    have hfix : initialised s'.tree p = s'.tree p := by
      have hagree : Toward (Leftover F) s.tree [] s'.tree := ⟨fun q hq => .inr (hs' q hq), nofun⟩
      rw [hagree.initialised_eq hp, hs' p hp]
    rcases hD.between p hp with heq | heq
    · exact heq
    · rw [heq, hfix]
  · obtain ⟨D, hD⟩ := hfailed.toward hstat
    rw [hs' p hp, hD.initialised_eq hp, hall hperm' hfaults' hrun' p hp]

end Runs

/-- The calls that write. -/
def writes {β : Type} : Op β → Bool
  | .stat _ => false
  | .remove _ => false
  | _ => true

/-- One name for temporary files in each directory. -/
def oneName : TempNames where
  pick _ dir start t := if t (dir ++ [start ++ "0"]) = none then some (start ++ "0") else none
  free h := by
    split at h
    · rename_i hfree
      cases h
      exact hfree
    · cases h
  starts h := by
    split at h
    · cases h
      simp
    · cases h

/-- A directory with nothing in it. -/
def emptyDir : Os := ⟨fun _ => none, 0, oneName⟩

/-- The first file cannot be created. -/
def cutShort : Os := ((init staticFiles).run.runWith [false, false, false, false, true] emptyDir).2

theorem retry_ok : ((init staticFiles).run.runWith [] cutShort).1 = .ok () := by decide +kernel

theorem init_spec_retried : Established cutShort.tree ((init staticFiles).run.runWith [] cutShort).2.tree := by
  have hfailed : Failed (fun _ op => writes op) emptyDir cutShort :=
    .again .none (.refl _) (by decide +kernel) (by decide +kernel)
  -- the pair is taken apart for any run, so that this one is not evaluated again
  have hpair : ∀ {r : Except Errno Unit × Os}, r.1 = .ok () → r = (.ok (), r.2) := by
    rintro ⟨_, _⟩ rfl
    rfl
  exact (init_spec (fun _ => rfl) hfailed (.refl _) (failsOnly_of_unmarked (List.not_mem_nil (a := true)))
    (hpair retry_ok)).1

end Nixbox.Nix
