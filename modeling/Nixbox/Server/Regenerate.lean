/-
What regenerating writes, and how starting an apply job ends: with the job in the slot and the
state directory regenerated, refused with the state directory regenerated all the same, or with an
error somewhere on the way.
-/
import Nixbox.Server.Footprint
import Nixbox.Store.Invariant

namespace Nixbox

open Effect Prog Store Directory Server
open Nix hiding FlakeInput

/-! ## The documents of the rows -/

namespace Store.Db

variable (db : Db)

/-- The entries of the index, of the workloads that are enabled. -/
def indexEntries : List IndexEntry :=
  (db.workloadList.filter (·.enabled)).map fun w =>
    ⟨w.name, w.type, decodeHostPorts ((db.latest w.id).elim "" (·.ports))⟩

/-- The index.nix of the rows. -/
def index : IndexDoc := indexDoc db.indexEntries (db.secretList.map (indexSecret db.workloadList))

/-- The flake.nix of the rows. -/
def flake : FlakeDoc := flakeDoc (db.flakeInputList.map declared) (!db.secretList.isEmpty)

/-- Each enabled workload with its latest revision. -/
def revisionSnapshot : List (ID × ID) :=
  (db.workloadList.filter (·.enabled)).map fun w => (w.id, (db.latest w.id).elim 0 (·.id))

variable {db}

/-- The index lists the enabled workloads of registered types. -/
theorem index_lists {name : String} : db.index.lists name ↔
    ∃ w ∈ db.workloads, w.name = name ∧ w.enabled = true ∧ (lookup w.type).isSome := by
  unfold index
  rw [indexDoc_lists]
  constructor
  · rintro ⟨e, he, hname, hty⟩
    obtain ⟨w, hw, rfl⟩ := List.mem_map.1 he
    obtain ⟨hmem, hen⟩ := List.mem_filter.1 hw
    exact ⟨w, mem_workloadList.1 hmem, hname, hen, hty⟩
  · rintro ⟨w, hw, hname, hen, hty⟩
    exact ⟨_, List.mem_map.2 ⟨w, List.mem_filter.2 ⟨mem_workloadList.2 hw, hen⟩, rfl⟩, hname, hty⟩

theorem index_declaresSecrets : db.index.declaresSecrets = !db.secretList.isEmpty := by
  unfold index
  rw [indexDoc_declaresSecrets, List.isEmpty_map]

theorem flake_importsAgenix : db.flake.importsAgenix = !db.secretList.isEmpty := rfl

end Store.Db

/-! ## The index on disk -/

/-- index.nix is there and references the workload's workload.nix. -/
def Disk.lists (d : Disk) (name : String) : Prop := ∃ i, d.indexNix = some i ∧ i.lists name

theorem lists_of_index {d d' : Disk} (h : d'.indexNix = d.indexNix) {name : String} (hl : d'.lists name) :
    d.lists name := by
  obtain ⟨i, hi, hl⟩ := hl
  exact ⟨i, h ▸ hi, hl⟩

theorem lists_some {d : Disk} {i : IndexDoc} (h : d.indexNix = some i) {name : String} (hl : d.lists name) :
    i.lists name := by
  obtain ⟨i', hi, hl⟩ := hl
  rw [h] at hi
  cases hi
  exact hl

instance (d : Disk) (name : String) : Decidable (d.lists name) :=
  match h : d.indexNix with
  | none => isFalse fun ⟨_, hi, _⟩ => by rw [h] at hi; cases hi
  | some i => decidable_of_iff (i.lists name) ⟨fun hl => ⟨i, h, hl⟩, fun hl => lists_some h hl⟩

/-! ## Regenerating -/

namespace State

variable (s : State)

/-- The state with index.nix regenerated. -/
def reindexed : State := { s with disk.indexNix := some s.db.index }

/-- The state with flake.nix regenerated. -/
def reflaked : State := { s with disk.flakeNix := some s.db.flake }

/-- The names of the declared secrets: their files survive the pruning. -/
def keptSecrets : List String := s.db.secretList.map (·.name)

/-- The state after everything `startApply` does before it asks for the job slot. -/
def prepared : State :=
  { s with
    disk.indexNix := some s.db.index
    disk.flakeNix := some s.db.flake
    disk.secrets := pruned s.keptSecrets s.disk.secrets }

end State

theorem mem_keptSecrets {s : State} {x : SecretRow} (hx : x ∈ s.db.secrets) :
    secretFile x.name ∈ s.keptSecrets.map secretFile := by
  refine List.mem_map.2 ⟨x.name, ?_, rfl⟩
  unfold State.keptSecrets Db.secretList
  rw [List.map_map]
  exact List.mem_map.2 ⟨x, Db.mem_secretRows.2 hx, rfl⟩

/-- What `startApply` may have done before an error: either file regenerated or as it was, some
orphans removed, nothing else. -/
structure PartlyPrepared (s s' : State) : Prop where
  index : s'.disk.indexNix = s.disk.indexNix ∨ s'.disk.indexNix = some s.db.index
  flake : s'.disk.flakeNix = s.disk.flakeNix ∨ s'.disk.flakeNix = some s.db.flake
  secrets : ∃ removed, removed <+: s.disk.secrets.entries.filter (orphan s.keptSecrets) ∧
    s'.disk.secrets = removed.foldl (fun d e => d.remove e.1) s.disk.secrets
  workloads : s'.disk.workloads = s.disk.workloads
  db : s'.db = s.db
  busy : s'.busy = s.busy
  job : s'.job = s.job
  ticks : s'.ticks = s.ticks
  host : s'.host = s.host

theorem PartlyPrepared.refl (s : State) : PartlyPrepared s s :=
  ⟨.inl rfl, .inl rfl, ⟨[], List.nil_prefix, rfl⟩, rfl, rfl, rfl, rfl, rfl, rfl⟩

theorem partlyPrepared_prepared (s : State) : PartlyPrepared s s.prepared :=
  ⟨.inr rfl, .inr rfl, ⟨_, List.prefix_rfl, rfl⟩, rfl, rfl, rfl, rfl, rfl, rfl⟩

namespace Server

theorem reads_indexEntries (s : State) :
    Reads (· = s.db.indexEntries) (forEach indexEntry (s.db.workloadList.filter (·.enabled))) s :=
  reads_forEach fun wl _ => by
    refine reads_query.seq fun rev hrev => reads_pure ?_
    rw [Db.latestRevision_ok.1 hrev]
    rfl

theorem reads_indexSecrets (s : State) :
    Reads (· = s.db.secretList.map (indexSecret s.db.workloadList)) (indexSecrets s.db.workloadList) s :=
  reads_secrets.seq fun l hl => reads_pure (by rw [hl])

theorem regenerateIndex_ends (s : State) :
    Ends (fun r s' => (r = .ok () ∧ s' = s.reindexed) ∨ ((∃ e, r = .error e) ∧ s' = s))
      regenerateIndex.run s := by
  refine reads_query_ok.bind (fun workloads hw => ?_) fun e => .inr ⟨⟨e, rfl⟩, rfl⟩
  subst hw
  refine (reads_indexEntries s).bind (fun entries he => ?_) fun e => .inr ⟨⟨e, rfl⟩, rfl⟩
  refine (reads_indexSecrets s).bind (fun secs hsecs => ?_) fun e => .inr ⟨⟨e, rfl⟩, rfl⟩
  subst he hsecs
  refine ends_call.2 ⟨.inl ⟨rfl, rfl⟩, fun r hr => ?_⟩
  cases hr
  exact .inr ⟨⟨_, rfl⟩, rfl⟩

theorem regenerateFlake_ends (s : State) :
    Ends (fun r s' => (r = .ok () ∧ s' = s.reflaked) ∨ ((∃ e, r = .error e) ∧ s' = s))
      regenerateFlake.run s := by
  refine reads_query_ok.bind (fun rows hrows => ?_) fun e => .inr ⟨⟨e, rfl⟩, rfl⟩
  refine reads_secrets.bind (fun secs hsecs => ?_) fun e => .inr ⟨⟨e, rfl⟩, rfl⟩
  subst hrows hsecs
  refine ends_call.2 ⟨.inl ⟨rfl, rfl⟩, fun r hr => ?_⟩
  cases hr
  exact .inr ⟨⟨_, rfl⟩, rfl⟩

/-! ## Preparing an apply -/

/-- What `prepareApply` returns in `s`. -/
def snapshot (s : State) : List (ID × ID) × List ID × List ID :=
  (s.db.revisionSnapshot, s.db.flakeInputList.map (·.id), s.db.secretList.map (·.id))

theorem reads_revisionSnapshot (s : State) :
    Reads (· = s.db.revisionSnapshot) (forEach snapshotRevision (s.db.workloadList.filter (·.enabled))) s :=
  reads_forEach fun wl _ => by
    refine reads_query.seq fun rev hrev => reads_pure ?_
    rw [Db.latestRevision_ok.1 hrev]
    rfl

theorem prepareApply_ends (s : State) :
    Ends (fun r s' => match r with
      | .ok snap => s' = s.prepared ∧ snap = snapshot s
      | .error _ => PartlyPrepared s s') prepareApply.run s := by
  refine ends_exceptT_bind.2 ((regenerateIndex_ends s).mono fun r s₁ h₁ => ?_)
  rcases h₁ with ⟨rfl, rfl⟩ | ⟨⟨e, rfl⟩, rfl⟩
  case inr => exact PartlyPrepared.refl s₁
  refine ends_exceptT_bind.2 ((regenerateFlake_ends s.reindexed).mono fun r s₂ h₂ => ?_)
  rcases h₂ with ⟨rfl, rfl⟩ | ⟨⟨e, rfl⟩, rfl⟩
  case inr => exact { PartlyPrepared.refl s with index := .inr rfl }
  -- both files are written; what is left reads until the pruning
  have hfail : PartlyPrepared s s.reindexed.reflaked :=
    { PartlyPrepared.refl s with
      index := .inr rfl
      flake := .inr rfl }
  refine reads_query_ok.bind (fun workloads hw => ?_) fun e => hfail
  subst hw
  refine (reads_revisionSnapshot s.reindexed.reflaked).bind (fun applied ha => ?_) fun e => hfail
  refine reads_query_ok.bind (fun inputs hi => ?_) fun e => hfail
  refine reads_secrets.bind (fun secs hs => ?_) fun e => hfail
  subst ha hi hs
  refine ends_exceptT_bind.2 ((pruneSecrets_ends _ _).mono fun r s₃ h₃ => ?_)
  obtain ⟨removed, hpre, hall, rfl⟩ := h₃
  cases r with
  | ok u =>
    refine ends_return.2 ⟨?_, rfl⟩
    show ({ s.reindexed.reflaked with disk.secrets := _ } : State) = _
    rw [show removed.foldl (fun d e => d.remove e.1) s.reindexed.reflaked.disk.secrets =
      pruned s.keptSecrets s.disk.secrets from hall rfl]
    rfl
  | error e => exact { hfail with secrets := ⟨removed, hpre, rfl⟩ }

end Server

end Nixbox
