/-
The order of the calls by which a request comes to remove a ciphertext: it writes flake.nix, reads the
declared secrets, lists secrets/, and removes what is listed and belongs to none of the secrets read. Only
then does it ask for the job slot, and a request that gets this far inserts no secret.
-/
import Nixbox.Server.Sealing

namespace Nixbox

open Effect Prog Store
open Nix hiding FlakeInput

/-! ## Definitions -/

/-- The secrets that are declared are read. -/
def rowsRead (rows : List SecretRow) : Exchange Op := ⟨.query fun db => .ok db.secretRows, .ok rows⟩

/-- flake.nix has been written. -/
def flaked (l : List (Exchange Op)) : Bool := l.any fun c => c.op.kind == .flake

/-- The job slot has been asked for. -/
def slotted (l : List (Exchange Op)) : Bool := l.any fun c => c.op.kind == .slot

/-- After flake.nix the secrets of these names have been read as those declared: the ones whose ciphertexts
pruning keeps. -/
def HasKept (names : List String) (l : List (Exchange Op)) : Prop :=
  ∃ pre rows post, l = pre ++ rowsRead rows :: post ∧ flaked pre = true ∧ rows.map (·.name) = names

/-- What a call has found in secrets/. -/
def listing {β : Type} (op : Op β) (b : β) : Option (List (String × SecretsEntry)) :=
  match op, b with
  | .readSecretsDir, .ok entries => some entries
  | _, _ => none

/-- The files that were listed. -/
def listed (l : List (Exchange Op)) : Option (List String) :=
  (l.findSome? fun c => listing c.op c.answer).map fun entries => entries.map Prod.fst

/-- The file is listed, and of none of the secrets that were read. -/
def Prunable (file : String) (l : List (Exchange Op)) : Prop :=
  slotted l = false ∧ ∃ names, HasKept names l ∧ file ∉ names.map secretFile ∧
    ∃ files, listed l = some files ∧ file ∈ files

/-- What is removed is prunable; who has written flake.nix inserts no secret. -/
def pruning : Discipline Op (List (Exchange Op)) where
  allows l op := match op with
    | .removeSecretFile file => Prunable file l
    | op => op.creates.isSome = true → flaked l = false
  next l op b := l ++ [⟨op, b⟩]

/-! ## Calls made so far -/

section Traces

variable {β : Type} {op : Op β} {b : β} {l more : List (Exchange Op)} {c : Exchange Op} {names : List String}

theorem pruning_after (l more : List (Exchange Op)) : pruning.after l more = l ++ more :=
  Discipline.after_trace (fun _ _ _ => rfl) l more

@[simp] theorem flaked_snoc : flaked (l ++ [c]) = (flaked l || c.op.kind == .flake) := by simp [flaked]

@[simp] theorem slotted_snoc : slotted (l ++ [c]) = (slotted l || c.op.kind == .slot) := by simp [slotted]

/-- The first listing counts. -/
theorem listed_snoc :
    listed (l ++ [c]) = (listed l).or ((listing c.op c.answer).map fun entries => entries.map Prod.fst) := by
  unfold listed
  rw [List.findSome?_append, List.findSome?_singleton]
  cases l.findSome? fun c => listing c.op c.answer <;> rfl

theorem listed_append {files : List String} (h : listed l = some files) : listed (l ++ more) = some files := by
  unfold listed at h ⊢
  rw [List.findSome?_append]
  cases hf : l.findSome? fun c => listing c.op c.answer with
  | none =>
    rw [hf] at h
    cases h
  | some entries =>
    rw [hf] at h
    exact h

theorem HasKept.append (h : HasKept names l) : HasKept names (l ++ more) := by
  obtain ⟨pre, rows, post, rfl, hpre, hnames⟩ := h
  exact ⟨pre, rows, post ++ more, by simp, hpre, hnames⟩

/-- What has been read as declared was read before, or is read by the last call. -/
theorem HasKept.snoc (h : HasKept names (l ++ [c])) :
    HasKept names l ∨ flaked l = true ∧ ∃ rows, c = rowsRead rows ∧ rows.map (·.name) = names := by
  obtain ⟨pre, rows, post, heq, hpre, hnames⟩ := h
  rcases List.eq_nil_or_concat post with rfl | ⟨post, c', rfl⟩
  · obtain ⟨rfl, hlast⟩ := List.append_inj' heq rfl
    cases hlast
    exact .inr ⟨hpre, rows, rfl, hnames⟩
  · have hsplit : l ++ [c] = (pre ++ rowsRead rows :: post) ++ [c'] := by rw [heq]; simp
    exact .inl ⟨pre, rows, post, (List.append_inj' hsplit rfl).1, hpre, hnames⟩

theorem HasKept.flaked (h : HasKept names l) : flaked l = true := by
  obtain ⟨pre, rows, post, rfl, hpre, -⟩ := h
  unfold Nixbox.flaked at hpre ⊢
  rw [List.any_append, hpre, Bool.true_or]

/-- Who inserts a secret has not written flake.nix. -/
theorem pruning_unflaked {name : String} (h : pruning.allows l op) (hc : op.creates = some name) :
    flaked l = false := by
  cases op with
  | removeSecretFile => cases hc
  | _ => exact h (Option.isSome_iff_exists.2 ⟨name, hc⟩)

end Traces

/-! ## Calls before the listing -/

/-- The calls that neither list secrets/ nor prune it, insert no secret and leave the slot. -/
def Op.plain {β : Type} (op : Op β) : Prop :=
  op.kind ≠ .slot ∧ op.kind ≠ .prune ∧ op.creates = none ∧ ∀ b, listing op b = none

section Plain

variable {α β γ ε : Type} {op : Op β} {l : List (Exchange Op)}

theorem plain_query (q : Db → Except Err α) : (Op.query q).plain := ⟨nofun, nofun, rfl, fun _ => rfl⟩

theorem plain_writeIndex (d : IndexDoc) : (Op.writeIndex d).plain := ⟨nofun, nofun, rfl, fun _ => rfl⟩

theorem plain_writeFlake (d : FlakeDoc) : (Op.writeFlake d).plain := ⟨nofun, nofun, rfl, fun _ => rfl⟩

/-- A call that removes nothing is allowed if it inserts no secret. -/
theorem pruning_allows (hp : op.kind ≠ .prune) (hc : op.creates = none) : pruning.allows l op := by
  cases op with
  | removeSecretFile => exact absurd rfl hp
  | _ =>
    intro h
    rw [hc] at h
    cases h

/-- No slot has been asked for and nothing has been listed. -/
structure Early (l : List (Exchange Op)) : Prop where
  slot : slotted l = false
  list : listed l = none

theorem Early.snoc (h : Early l) (hop : op.plain) (b : β) : Early (l ++ [⟨op, b⟩]) := by
  obtain ⟨hs, -, -, hl⟩ := hop
  refine ⟨?_, ?_⟩
  · rw [slotted_snoc, h.slot]
    simpa using hs
  · rw [listed_snoc, h.list, hl]
    rfl

/-- Plain calls keep what is known of the calls so far, if a further call cannot spoil it. -/
theorem plain_pruning {I : List (Exchange Op) → Prop} (hI : ∀ l c, I l → I (l ++ [c])) {p : Prog Op α}
    (h : p.Uses fun _ op => op.plain) (hq : Early l ∧ I l) : p.Keeps pruning (fun _ l => Early l ∧ I l) l := by
  refine Uses.keeps_inv h (fun β op q hop hq => ?_) hq
  exact ⟨pruning_allows hop.2.1 hop.2.2.1, fun b => ⟨hq.1.snoc hop b, hI _ _ hq.2⟩⟩

/-- Plain calls, and what goes on from their result. -/
theorem plain_seq {I : List (Exchange Op) → Prop} (hI : ∀ l c, I l → I (l ++ [c])) {x : ExceptT ε (Prog Op) α}
    {f : α → ExceptT ε (Prog Op) γ} {E : Except ε γ → List (Exchange Op) → Prop}
    (hx : Uses (fun _ op => op.plain) x.run) (hq : Early l ∧ I l) (hE : ∀ e l, Early l ∧ I l → E (.error e) l)
    (hf : ∀ a l, Early l ∧ I l → Keeps pruning E l (f a).run) :
    Keeps pruning E l (x >>= f).run := by
  refine Keeps.seqE (P := fun _ l => Early l ∧ I l) ((plain_pruning hI hx hq).mono fun r l h => ?_) hf
  cases r with
  | ok a => exact h
  | error e => exact hE e l h

end Plain

/-! ## An apply -/

namespace Server

section Apply

variable {l : List (Exchange Op)}

theorem secrets_plain : Uses (fun _ op => op.plain) Store.secrets.run := secrets_uses fun _ => plain_query

theorem regenerateFlake_pruning (h : Early l) :
    Keeps pruning (fun r l => r = .ok () → Early l ∧ flaked l = true) l regenerateFlake.run := by
  refine plain_seq (I := fun _ => True) (fun _ _ _ => trivial) (uses_perform (plain_query _)) ⟨h, trivial⟩
    (fun _ _ _ h => nomatch h) fun inputs l h => ?_
  refine plain_seq (I := fun _ => True) (fun _ _ _ => trivial) secrets_plain h (fun _ _ _ h =>
    nomatch h) fun secrets l h => ?_
  refine keeps_perform (pruning_allows nofun rfl) fun b _ _ => ⟨h.1.snoc (plain_writeFlake _) b, ?_⟩
  show flaked (l ++ [_]) = true
  rw [flaked_snoc]
  exact Bool.or_true _

theorem names_eq {rows : List SecretRow} {secrets : List Secret}
    (h : List.Forall₂ (fun (a : SecretRow) (b : Secret) => b.name = a.name) rows secrets) :
    secrets.map (·.name) = rows.map (·.name) := by
  induction h with
  | nil => rfl
  | cons h _ ih => rw [List.map_cons, List.map_cons, h, ih]

/-- The secrets that are read after flake.nix are those pruning keeps. -/
theorem secrets_pruning (h : Early l) (hf : flaked l = true) :
    Keeps pruning (fun r l => ∀ secrets, r = .ok secrets →
      Early l ∧ HasKept (secrets.map (·.name)) l) l Store.secrets.run := by
  refine Keeps.seqE (P := fun rows l => Early l ∧ HasKept (rows.map (·.name)) l)
    (keeps_perform (pruning_allows nofun rfl) fun r _ => ?_) fun rows l h => ?_
  · cases r with
    | ok rows => exact ⟨h.snoc (plain_query _) _, l, rows, [], rfl, hf, rfl⟩
    | error _ => exact nofun
  · refine (keeps_forEach (R := fun (a : SecretRow) (b : Secret) => b.name = a.name)
      (I := fun l => Early l ∧ HasKept (rows.map (·.name)) l) (fun row _ l h => ?_) h).mono
        fun r l hr secrets hsecrets => ?_
    · refine plain_seq (fun _ _ hk => hk.append) (uses_perform (plain_query _)) h (fun _ _ h =>
        ⟨h, nofun⟩) fun ids l h => ?_
      refine keeps_return.2 ⟨h, fun b hb => ?_⟩
      cases hb
      rfl
    · rw [names_eq (hr.2 secrets hsecrets)]
      exact hr.1

/-- Pruning removes what it has listed and none of the names kept has. -/
theorem pruneSecrets_pruning {keep : List String} (h : Early l) (hk : HasKept keep l) :
    Keeps pruning (fun _ _ => True) l (pruneSecrets keep).run := by
  refine Keeps.seqE (P := fun entries l => slotted l = false ∧ HasKept keep l ∧
    listed l = some (entries.map Prod.fst))
    (keeps_perform (pruning_allows nofun rfl) fun r _ => ?_) fun entries l h => ?_
  · cases r with
    | ok entries =>
      refine ⟨?_, hk.append, ?_⟩
      · show slotted (l ++ [_]) = false
        rw [slotted_snoc, h.slot]
        rfl
      · show listed (l ++ [_]) = _
        rw [listed_snoc, h.list]
        rfl
    | error _ => trivial
  refine Keeps.seqE (P := fun _ _ => True) ((keeps_forEach (R := fun _ _ => True) (I := fun l => slotted l = false ∧
    HasKept keep l ∧ listed l = some (entries.map Prod.fst)) (fun e he l h => ?_) h).mono fun r _ _ =>
      ?_) fun _ _ _ =>
      keeps_return.2 trivial
  · obtain ⟨hmem, horphan⟩ := List.mem_filter.1 he
    have hnot : e.1 ∉ keep.map secretFile := by
      unfold orphan at horphan
      simpa using (Bool.and_eq_true_iff.1 horphan).2
    refine keeps_perform ⟨h.1, keep, h.2.1, hnot, _, h.2.2, List.mem_map_of_mem hmem⟩ fun r _ =>
      ⟨⟨?_, h.2.1.append, ?_⟩, fun _ _ => trivial⟩
    · show slotted (l ++ [_]) = false
      rw [slotted_snoc, h.1]
      rfl
    · exact listed_append h.2.2
  · cases r <;> trivial

theorem prepareApply_pruning (h : Early l) : Keeps pruning (fun _ _ => True) l prepareApply.run := by
  have htrue : ∀ (l : List (Exchange Op)) (c : Exchange Op), True → True := fun _ _ h => h
  have hflaked : ∀ l c, flaked l = true → flaked (l ++ [c]) = true := by
    intro l c hl
    rw [flaked_snoc, hl, Bool.true_or]
  refine plain_seq htrue (regenerateIndex_uses (fun _ => plain_query) plain_writeIndex) ⟨h,
    trivial⟩ (fun _ _ _ => trivial)
    fun _ l h => ?_
  refine Keeps.seqE (P := fun _ l => Early l ∧ flaked l = true) ((regenerateFlake_pruning h.1).mono fun r l hr => ?_)
    fun _ l h => ?_
  · cases r with
    | ok _ => exact hr rfl
    | error _ => trivial
  refine plain_seq hflaked (uses_perform (plain_query _)) h (fun _ _ _ => trivial) fun workloads l h => ?_
  refine plain_seq hflaked
    (uses_forEach fun _ _ => uses_exceptT_bind (uses_perform (plain_query _)) fun _ => uses_return _) h
    (fun _ _ _ => trivial) fun applied l h => ?_
  refine plain_seq hflaked (uses_perform (plain_query _)) h (fun _ _ _ => trivial) fun inputs l h => ?_
  refine Keeps.seqE (P := fun secrets l => Early l ∧ HasKept (secrets.map (·.name)) l)
    ((secrets_pruning h.1 h.2).mono fun r l hr => ?_) fun secrets l h => ?_
  · cases r with
    | ok secrets => exact hr secrets rfl
    | error _ => trivial
  refine Keeps.seqE (P := fun _ _ => True) ((pruneSecrets_pruning h.1 h.2).mono fun r _ _ => ?_) fun _ _ _ =>
    keeps_return.2 trivial
  cases r <;> trivial

/-- Programs that neither prune nor insert a secret, wherever they come. -/
theorem within_pruning {α : Type} {ks : List Kind} {p : Prog Op α} (h : Within ks p) (hp : .prune ∉ ks)
    (hr : .secretRow ∉ ks) : p.Keeps pruning (fun _ _ => True) l := by
  refine (Uses.keeps_inv (I := fun _ => True) h (fun β op q hop _ =>
    ⟨pruning_allows ?_ (creates_of_kind ?_), fun _ => trivial⟩) trivial).mono fun _ _ _ => trivial
  · rintro heq
    exact hp (heq ▸ hop)
  · rintro heq
    exact hr (heq ▸ hop)

theorem startApply_pruning (workloadID : Option ID) (mode : RebuildMode) (h : Early l) :
    Keeps pruning (fun _ _ => True) l (startApply workloadID mode).run := by
  refine Keeps.seqE (P := fun _ _ => True)
    (keeps_adapt.2 ((prepareApply_pruning h).mono fun r _ _ => by cases r <;> trivial))
    fun _ l _ => ?_
  have hstart : ∀ kind fn, Within [.read, .jobRow, .slot] (Jobs.start kind workloadID fn).run := fun kind fn =>
    start_within (by decide) (by decide) (by decide) kind workloadID fn
  exact within_pruning (hstart _ _) (by decide) (by decide)

/-- The answer makes no call of its own. -/
theorem answerJob_pruning {page : String} {x : ExceptT Jobs.StartError (Prog Op) Job}
    (h : Keeps pruning (fun _ _ => True) l x.run) : Keeps pruning (fun _ _ => True) l (answerJob page x).run := by
  refine Keeps.seqE (P := fun _ _ => True) (keeps_lift.2 (h.mono fun _ _ _ => trivial)) fun r l _ => ?_
  split
  · exact keeps_throw.2 trivial
  · exact keeps_throw.2 trivial
  · exact keeps_return.2 trivial

/-- Programs that do not prune and do not write flake.nix. -/
theorem within_unflaked {α : Type} {ks : List Kind} {p : Prog Op α} (h : Within ks p)
    (hp : .prune ∉ ks) (hf : .flake ∉ ks)
    (hl : flaked l = false) : p.Keeps pruning (fun _ _ => True) l := by
  refine (Uses.keeps_inv (I := fun l => flaked l = false) h (fun β op q hop hq => ⟨?_, fun b => ?_⟩) hl).mono
    fun _ _ _ => trivial
  · cases op with
    | removeSecretFile => exact absurd hop hp
    | _ => exact fun _ => hq
  · show flaked (q ++ [⟨op, b⟩]) = false
    rw [flaked_snoc, hq, Bool.false_or, beq_eq_false_iff_ne]
    rintro heq
    exact hf (heq ▸ hop)

end Apply

/-! ## The requests -/

/-- Every request keeps to the order. -/
theorem serve_pruning (r : Request) : (serve r).Keeps pruning (fun _ _ => True) [] := by
  have hanswer : ∀ {h : Handler Response}, Keeps pruning (fun _ _ => True) [] h.run →
      h.answer.Keeps pruning (fun _ _ => True) [] := by
    intro h hh
    refine keeps_bind.2 (hh.mono fun r q _ => ?_)
    cases r with
    | ok _ => exact keeps_ret.2 trivial
    | error _ => exact keeps_ret.2 trivial
  have hearly : Early [] := ⟨rfl, rfl⟩
  cases r with
  | workloadApply name mode =>
    refine hanswer (plain_seq (I := fun _ => True) (fun _ _ h => h) (lookupBy_uses (uses_perform (plain_query _)))
      ⟨hearly, trivial⟩ (fun _ _ _ => trivial) fun wl l h => ?_)
    exact answerJob_pruning (startApply_pruning _ _ h.1)
  | flakeApply mode | secretApply mode | rebuild => exact hanswer (answerJob_pruning (startApply_pruning _ _ hearly))
  | _ =>
    refine within_unflaked (serve_within _) ?_ ?_ rfl
    all_goals simp

end Server

end Nixbox
