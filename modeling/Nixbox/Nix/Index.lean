/-
The generated index.nix as the document `WriteIndex` puts on disk: one section of workload names
per registered type, the host ports to open, and one entry per secret.
-/
import Nixbox.Nix.Types
import Nixbox.Nix.Syntax
import Mathlib.Data.List.Dedup
import Mathlib.Data.String.Basic

namespace Nixbox.Nix

/-- One enabled workload to expose to the host system. -/
structure IndexEntry where
  name : String
  type : String
  ports : List HostPort
  deriving DecidableEq, Repr

/-- One secret to expose: the decrypted file's identity, and per index key the workloads it is
delivered into. -/
structure IndexSecret where
  name : String
  owner : String
  group : String
  mode : String
  mounts : List (String × List String)
  deriving DecidableEq, Repr

/-- The bindings of index.nix in the order of the file. A workload name `n` in a section is bound
to `./workloads/n/workload.nix`. -/
structure IndexDoc where
  sections : List (String × List String)
  tcp : List Nat
  udp : List Nat
  secrets : List IndexSecret
  deriving DecidableEq, Repr

/-- `sort.Strings`. -/
def sortStrings (l : List String) : List String := l.insertionSort fun a b => a ≤ b

/-- The names bound in the section of `key`; entries of an unregistered type belong to none. -/
def sectionNames (entries : List IndexEntry) (key : String) : List String :=
  sortStrings ((entries.filter fun e => (lookup e.type).any fun wt => wt.indexKey == key).map (·.name))

/-- The ports of one protocol the registered entries ask for, each once, in order. -/
def openPorts (entries : List IndexEntry) (p : Proto) : List Nat :=
  ((((entries.filter fun e => (lookup e.type).isSome).flatMap (·.ports)).filter (·.proto == p)).map
    (·.port)).dedup.insertionSort fun a b => a ≤ b

/-- A secret as `writeIndexSecrets` emits it: only non-empty mount lists, keys and names sorted. -/
def normalizeSecret (s : IndexSecret) : IndexSecret :=
  { s with
    mounts := ((s.mounts.filter fun m => !m.2.isEmpty).insertionSort fun a b => a.1 ≤ b.1).map fun m =>
      (m.1, sortStrings m.2) }

/-- What `WriteIndex` writes. -/
def indexDoc (entries : List IndexEntry) (secrets : List IndexSecret) : IndexDoc where
  sections := registeredTypes.map fun wt => (wt.indexKey, sectionNames entries wt.indexKey)
  tcp := openPorts entries .tcp
  udp := openPorts entries .udp
  secrets := (secrets.insertionSort fun a b => a.name ≤ b.name).map normalizeSecret

/-- The index declares at least one secret: the condition on which modules/default.nix imports
the secrets module. -/
def IndexDoc.declaresSecrets (d : IndexDoc) : Bool := !d.secrets.isEmpty

/-- The index binds the workload `name`, that is it references its workload.nix. -/
def IndexDoc.lists (d : IndexDoc) (name : String) : Prop := ∃ s ∈ d.sections, name ∈ s.2

instance (d : IndexDoc) (name : String) : Decidable (d.lists name) :=
  inferInstanceAs (Decidable (∃ s ∈ d.sections, name ∈ s.2))

theorem mem_sectionNames {entries : List IndexEntry} {key name : String} :
    name ∈ sectionNames entries key ↔
      ∃ e ∈ entries, e.name = name ∧ ∃ wt, lookup e.type = some wt ∧ wt.indexKey = key := by
  unfold sectionNames sortStrings
  rw [List.mem_insertionSort, List.mem_map]
  simp only [List.mem_filter, Option.any_eq_true, beq_iff_eq]
  constructor
  · rintro ⟨e, ⟨he, wt, h⟩, rfl⟩; exact ⟨e, he, rfl, wt, h⟩
  · rintro ⟨e, he, rfl, wt, h⟩; exact ⟨e, ⟨he, wt, h⟩, rfl⟩

theorem lookup_mem {id : String} {wt : WorkloadType} (h : lookup id = some wt) :
    wt ∈ registeredTypes ∧ wt.id = id :=
  ⟨List.mem_of_find?_eq_some h, by simpa using List.find?_some h⟩

/-- The index lists exactly the names of the entries of registered types. -/
theorem indexDoc_lists {entries : List IndexEntry} {secrets : List IndexSecret} {name : String} :
    (indexDoc entries secrets).lists name ↔ ∃ e ∈ entries, e.name = name ∧ (lookup e.type).isSome := by
  unfold IndexDoc.lists
  constructor
  · rintro ⟨s, hs, hn⟩
    obtain ⟨wt, -, rfl⟩ := List.mem_map.1 hs
    obtain ⟨e, he, hne, wt', h, -⟩ := mem_sectionNames.1 hn
    exact ⟨e, he, hne, by rw [h]; rfl⟩
  · rintro ⟨e, he, hne, h⟩
    obtain ⟨wt, h⟩ := Option.isSome_iff_exists.1 h
    exact ⟨_, List.mem_map.2 ⟨wt, (lookup_mem h).1, rfl⟩, mem_sectionNames.2 ⟨e, he, hne, wt, h, rfl⟩⟩

theorem indexDoc_declaresSecrets {entries : List IndexEntry} {secrets : List IndexSecret} :
    (indexDoc entries secrets).declaresSecrets = !secrets.isEmpty := by
  show (!((secrets.insertionSort _).map _).isEmpty) = _
  rw [List.isEmpty_map]
  have := (List.perm_insertionSort (fun a b : IndexSecret => a.name ≤ b.name) secrets).length_eq
  cases secrets with
  | nil => rfl
  | cons a l => cases h : List.insertionSort (fun a b : IndexSecret => a.name ≤ b.name) (a :: l) with
    | nil => rw [h] at this; cases this
    | cons _ _ => rfl

/-! ## The text -/

/-- A line of a section: the attribute and the path it is bound to, as text. -/
structure PathBinding where
  key : String
  attr : String
  path : String
  deriving DecidableEq, Repr

/-- The path of a workload's module, as index.nix has it. -/
def workloadPath (name : String) : String := "./workloads/" ++ name ++ "/workload.nix"

/-- The bindings of a section: each name is bound to the path of its module. -/
def sectionBindings (s : String × List String) : List PathBinding :=
  s.2.map fun name => ⟨s.1, nixAttrName name, workloadPath name⟩

/-- The workloads index.nix binds, in the order of the file. -/
def IndexDoc.bindings (d : IndexDoc) : List PathBinding := d.sections.flatMap sectionBindings

/-- `nixIntList`. -/
def nixIntList (xs : List Nat) : String :=
  if xs.isEmpty then "[ ]" else "[ " ++ " ".intercalate (xs.map toString) ++ " ]"

/-- The lines of a secret. -/
def IndexSecret.text (s : IndexSecret) : String :=
  "    " ++ nixAttrName s.name ++ " = \x7b\n" ++ "      file = ./secrets/" ++ s.name ++ ".age;\n" ++
    "      owner = " ++ nixStr s.owner ++ ";\n" ++ "      group = " ++ nixStr s.group ++ ";\n" ++
    "      mode = " ++ nixStr s.mode ++ ";\n" ++ "      mounts = \x7b\n" ++
    String.join (s.mounts.map fun m => "        " ++ m.1 ++ " = [ " ++ " ".intercalate (m.2.map nixStr) ++ " ];\n") ++
    "      \x7d;\n    \x7d;\n"

/-- The lines of a section. -/
def sectionText (s : String × List String) : String :=
  "  " ++ s.1 ++ " = \x7b\n" ++
    String.join ((sectionBindings s).map fun b => "    " ++ b.attr ++ " = " ++ b.path ++ ";\n") ++ "  \x7d;\n"

/-- The bytes of index.nix. -/
def IndexDoc.text (d : IndexDoc) : String :=
  "# Generated by nixbox; do not edit.\n\x7b\n" ++ String.join (d.sections.map sectionText) ++
    "  hostPorts = \x7b\n    tcp = " ++ nixIntList d.tcp ++ ";\n    udp = " ++ nixIntList d.udp ++ ";\n  \x7d;\n" ++
    "  secrets = \x7b\n" ++ String.join (d.secrets.map (·.text)) ++ "  \x7d;\n" ++ "\x7d\n"

/-! ## The loop of `WriteIndex` -/

/-- What the loop over the entries has gathered: names by index key, and the ports seen of each
protocol in the order they came. -/
structure Gathered where
  namesByKey : String → List String
  tcp : List Nat
  udp : List Nat

/-- A port appended unless it was seen. -/
def seePort (seen : List Nat) (port : Nat) : List Nat := if port ∈ seen then seen else seen ++ [port]

/-- A port goes to the list of its protocol, once. -/
def Gathered.addPort (g : Gathered) (p : HostPort) : Gathered :=
  match p.proto with
  | .udp => { g with udp := seePort g.udp p.port }
  | .tcp => { g with tcp := seePort g.tcp p.port }

/-- One turn of the loop; an entry of an unregistered type is passed over. -/
def Gathered.add (g : Gathered) (e : IndexEntry) : Gathered :=
  match lookup e.type with
  | none => g
  | some wt =>
    let names k := if k = wt.indexKey then g.namesByKey k ++ [e.name] else g.namesByKey k
    e.ports.foldl addPort { g with namesByKey := names }

/-- What the loop over the entries has gathered at its end. -/
def gather (entries : List IndexEntry) : Gathered := entries.foldl Gathered.add ⟨fun _ => [], [], []⟩

section Gather

variable {g : Gathered} {entries : List IndexEntry} {ps : List HostPort}

/-- The ports of one protocol. -/
def Gathered.ports (g : Gathered) : Proto → List Nat
  | .tcp => g.tcp
  | .udp => g.udp

theorem mem_seePort {seen : List Nat} {port p : Nat} : p ∈ seePort seen port ↔ p ∈ seen ∨ p = port := by
  unfold seePort
  split
  · rename_i h
    exact ⟨.inl, fun h' => h'.elim id fun h' => h' ▸ h⟩
  · rw [List.mem_append, List.mem_singleton]

theorem nodup_seePort {seen : List Nat} {port : Nat} (h : seen.Nodup) : (seePort seen port).Nodup := by
  unfold seePort
  split
  · exact h
  · rename_i hnew
    rw [List.nodup_append]
    refine ⟨h, List.nodup_singleton port, ?_⟩
    rintro a ha b hb rfl
    exact hnew (List.mem_singleton.1 hb ▸ ha)

theorem mem_addPort {proto : Proto} {p : HostPort} {n : Nat} :
    n ∈ (g.addPort p).ports proto ↔ n ∈ g.ports proto ∨ p = ⟨n, proto⟩ := by
  obtain ⟨port, kind⟩ := p
  cases kind <;> cases proto <;> simp [Gathered.addPort, Gathered.ports, mem_seePort, eq_comm]

theorem nodup_addPort {proto : Proto} {p : HostPort} (h : (g.ports proto).Nodup) :
    ((g.addPort p).ports proto).Nodup := by
  obtain ⟨port, kind⟩ := p
  cases kind <;> cases proto <;> first | exact h | exact nodup_seePort h

/-- The ports of one entry. -/
theorem addPorts_spec {proto : Proto} (h : (g.ports proto).Nodup) :
    ((ps.foldl Gathered.addPort g).ports proto).Nodup ∧
      ∀ n, n ∈ (ps.foldl Gathered.addPort g).ports proto ↔ n ∈ g.ports proto ∨ ⟨n, proto⟩ ∈ ps := by
  induction ps generalizing g with
  | nil => exact ⟨h, fun n => by simp⟩
  | cons p ps ih =>
    obtain ⟨hnd, hmem⟩ := ih (nodup_addPort (p := p) h)
    refine ⟨hnd, fun n => ?_⟩
    rw [List.foldl_cons, hmem, mem_addPort, List.mem_cons, or_assoc, eq_comm]

theorem addPorts_names : (ps.foldl Gathered.addPort g).namesByKey = g.namesByKey := by
  induction ps generalizing g with
  | nil => rfl
  | cons p ps ih =>
    rw [List.foldl_cons, ih]
    unfold Gathered.addPort
    split <;> rfl

theorem add_names (e : IndexEntry) (k : String) : (g.add e).namesByKey k =
    g.namesByKey k ++ if (lookup e.type).any (fun wt => wt.indexKey == k) then [e.name] else [] := by
  unfold Gathered.add
  split
  · rename_i h
    simp [h]
  · rename_i wt h
    rw [addPorts_names, h]
    by_cases hk : k = wt.indexKey
    · simp [hk]
    · simp [hk, Ne.symm hk]

theorem add_ports {proto : Proto} {e : IndexEntry} (h : (g.ports proto).Nodup) :
    ((g.add e).ports proto).Nodup ∧ ∀ n, n ∈ (g.add e).ports proto ↔
      n ∈ g.ports proto ∨ ((lookup e.type).isSome ∧ ⟨n, proto⟩ ∈ e.ports) := by
  unfold Gathered.add
  split
  · rename_i hnone
    exact ⟨h, fun n => by simp [hnone]⟩
  · rename_i wt hsome
    have hspec : ∀ names, ((e.ports.foldl Gathered.addPort { g with namesByKey := names }).ports proto).Nodup ∧
        ∀ n, n ∈ (e.ports.foldl Gathered.addPort { g with namesByKey := names }).ports proto ↔
          n ∈ g.ports proto ∨ ⟨n, proto⟩ ∈ e.ports := by
      intro names
      cases proto <;> exact addPorts_spec h
    refine ⟨(hspec _).1, fun n => ?_⟩
    rw [(hspec _).2, hsome]
    simp

theorem foldl_add_names (k : String) : (entries.foldl Gathered.add g).namesByKey k =
    g.namesByKey k ++ (entries.filter fun e => (lookup e.type).any fun wt => wt.indexKey == k).map (·.name) := by
  induction entries generalizing g with
  | nil => simp
  | cons e entries ih =>
    rw [List.foldl_cons, ih, add_names, List.filter_cons, List.append_assoc]
    split <;> rfl

theorem foldl_add_ports {proto : Proto} (h : (g.ports proto).Nodup) :
    ((entries.foldl Gathered.add g).ports proto).Nodup ∧
      ∀ n, n ∈ (entries.foldl Gathered.add g).ports proto ↔
        n ∈ g.ports proto ∨ ∃ e ∈ entries, (lookup e.type).isSome ∧ ⟨n, proto⟩ ∈ e.ports := by
  induction entries generalizing g with
  | nil => exact ⟨h, fun n => by simp⟩
  | cons e entries ih =>
    obtain ⟨hnd, hmem⟩ := add_ports (e := e) h
    obtain ⟨hnd', hmem'⟩ := ih hnd
    refine ⟨hnd', fun n => ?_⟩
    rw [List.foldl_cons, hmem', hmem, or_assoc]
    simp only [List.mem_cons, exists_eq_or_imp]

end Gather

/-! ## The documents agree -/

/-- The ports of a registered entry. -/
theorem mem_openPorts {entries : List IndexEntry} {proto : Proto} {n : Nat} :
    n ∈ openPorts entries proto ↔ ∃ e ∈ entries, (lookup e.type).isSome ∧ ⟨n, proto⟩ ∈ e.ports := by
  unfold openPorts
  rw [List.mem_insertionSort, List.mem_dedup, List.mem_map]
  simp only [List.mem_filter, List.mem_flatMap, beq_iff_eq]
  constructor
  · rintro ⟨hp, ⟨⟨e, ⟨he, hty⟩, hmem⟩, rfl⟩, rfl⟩
    exact ⟨e, he, hty, hmem⟩
  · rintro ⟨e, he, hty, hmem⟩
    exact ⟨⟨n, proto⟩, ⟨⟨e, ⟨he, hty⟩, hmem⟩, rfl⟩, rfl⟩

/-- Each port is there once, in increasing order. -/
theorem openPorts_increasing {entries : List IndexEntry} {proto : Proto} :
    (openPorts entries proto).Pairwise (· < ·) := by
  unfold openPorts
  have hnd : ((((((entries.filter fun e => (lookup e.type).isSome).flatMap (·.ports)).filter
      (·.proto == proto)).map (·.port)).dedup).insertionSort fun a b => a ≤ b).Nodup :=
    (List.perm_insertionSort _ _).nodup_iff.2 (List.nodup_dedup _)
  exact ((List.pairwise_insertionSort _ _).and hnd).imp fun h => Nat.lt_of_le_of_ne h.1 h.2

/-- Lists with the same members, each once, sort alike. -/
theorem sort_eq_of_mem {l l' : List Nat} (h : l.Nodup) (h' : l'.Pairwise (· < ·))
    (hmem : ∀ n, n ∈ l ↔ n ∈ l') :
    (l.insertionSort fun a b => a ≤ b) = l' := by
  have hperm : (l.insertionSort fun a b => a ≤ b).Perm l' :=
    (List.perm_insertionSort _ l).trans ((List.perm_ext_iff_of_nodup h (h'.imp Nat.ne_of_lt)).2 hmem)
  exact hperm.eq_of_pairwise (fun _ _ _ _ => Nat.le_antisymm) (List.pairwise_insertionSort _ l) (h'.imp Nat.le_of_lt)

/-- The document the loop leads to. -/
theorem indexDoc_eq_gather (entries : List IndexEntry) (secrets : List IndexSecret) :
    indexDoc entries secrets =
      { sections := registeredTypes.map fun wt => (wt.indexKey, sortStrings ((gather entries).namesByKey wt.indexKey))
        tcp := (gather entries).tcp.insertionSort fun a b => a ≤ b
        udp := (gather entries).udp.insertionSort fun a b => a ≤ b
        secrets := (secrets.insertionSort fun a b => a.name ≤ b.name).map normalizeSecret } := by
  have hports : ∀ proto, ((gather entries).ports proto).insertionSort (fun a b => a ≤ b) =
      openPorts entries proto := by
    intro proto
    have hstart : (Gathered.ports ⟨fun _ => [], [], []⟩ proto) = [] := by cases proto <;> rfl
    have hnd : ((gather entries).ports proto).Nodup := (foldl_add_ports (by rw [hstart]; exact List.nodup_nil)).1
    have hmem : ∀ n, n ∈ (gather entries).ports proto ↔ n ∈ Gathered.ports ⟨fun _ => [], [], []⟩ proto ∨
        ∃ e ∈ entries, (lookup e.type).isSome ∧ ⟨n, proto⟩ ∈ e.ports :=
      (foldl_add_ports (by rw [hstart]; exact List.nodup_nil)).2
    refine sort_eq_of_mem hnd openPorts_increasing fun n => ?_
    rw [mem_openPorts, hmem, hstart]
    simp
  have hnames : ∀ k, sortStrings ((gather entries).namesByKey k) = sectionNames entries k := by
    intro k
    unfold gather sectionNames
    rw [foldl_add_names, List.nil_append]
  unfold indexDoc
  rw [← hports .tcp, ← hports .udp]
  simp only [hnames]
  rfl

end Nixbox.Nix
