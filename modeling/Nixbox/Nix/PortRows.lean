/-
The port rows of the workload editor: which submissions are accepted, what string is stored for
one, and that the string shown and submitted again is the string stored.
-/
import Nixbox.Nix.Ports

namespace Nixbox.Nix

open Go

/-! ## Rows -/

/-- A row as it counts: the texts of its port and its protocol. -/
structure PortRow where
  port : String
  proto : String
  deriving DecidableEq, Repr

/-- The row of two fields without the blanks around them: none for a blank port, tcp for a protocol that is
missing or blank. -/
def portRow (port : String) (proto : Option String) : Option PortRow :=
  if trimSpace port = "" then none
  else some ⟨trimSpace port, if trimSpace (proto.getD "") = "" then "tcp" else trimSpace (proto.getD "")⟩

/-- `r` is a row of the two arrays, paired by index. -/
def RowOf (ports protos : List String) (r : PortRow) : Prop :=
  ∃ (i : Nat) (port : String), ports[i]? = some port ∧ portRow port protos[i]? = some r

/-- What the row asks for: a decimal integer that is a port, and the name of a protocol. -/
structure PortRow.Asks (r : PortRow) (p : HostPort) : Prop where
  port : IsDecimal r.port p.port
  range : 1 ≤ p.port ∧ p.port ≤ 65535
  proto : r.proto = p.proto.name

/-- The port is not an integer in range, or the protocol neither tcp nor udp. -/
def PortRow.Bad (r : PortRow) : Prop :=
  (¬∃ n, IsDecimal r.port n ∧ 1 ≤ n ∧ n ≤ 65535) ∨ (r.proto ≠ "tcp" ∧ r.proto ≠ "udp")

/-- By protocol, then by port. -/
def HostPort.Before (a b : HostPort) : Prop :=
  a.proto = .tcp ∧ b.proto = .udp ∨ a.proto = b.proto ∧ a.port < b.port

/-- The fields of the rows the editor shows for a stored string. -/
def shownPorts (s : String) : List String := (decodeHostPorts s).map fun p => toString p.port

/-- The protocols of the rows that are shown again. -/
def shownProtos (s : String) : List String := (decodeHostPorts s).map fun p => p.proto.name

section Rows

variable {ports protos : List String} {r : PortRow} {p q : HostPort} {port : String} {proto : Option String}

theorem rowOf_cons :
    RowOf (port :: ports) protos r ↔ portRow port protos.head? = some r ∨ RowOf ports protos.tail r := by
  constructor
  · rintro ⟨i, x, hx, hr⟩
    cases i with
    | zero =>
      cases hx
      rw [List.head?_eq_getElem?]
      exact .inl hr
    | succ i => exact .inr ⟨i, x, hx, by rwa [List.getElem?_tail]⟩
  · rintro (h | ⟨i, x, hx, hr⟩)
    · exact ⟨0, port, rfl, by rwa [← List.head?_eq_getElem?]⟩
    · exact ⟨i + 1, x, hx, by rwa [← List.getElem?_tail]⟩

theorem not_rowOf_nil : ¬RowOf [] protos r := by
  rintro ⟨i, x, hx, -⟩
  simp at hx

theorem portNumber_eq_some_iff {s : String} {n : Nat} :
    portNumber s = some n ↔ IsDecimal s n ∧ 1 ≤ n ∧ n ≤ 65535 := by
  rw [portNumber_eq_some, parseInt_eq_some]
  constructor
  · rintro ⟨⟨hn, -⟩, hrange⟩
    exact ⟨hn, hrange⟩
  · rintro ⟨hn, hrange⟩
    exact ⟨⟨hn, by omega⟩, hrange⟩

theorem portNumber_eq_none {s : String} :
    portNumber s = none ↔ ¬∃ n, IsDecimal s n ∧ 1 ≤ n ∧ n ≤ 65535 := by
  rw [Option.eq_none_iff_forall_ne_some]
  constructor
  · rintro h ⟨n, hn, hlo, hhi⟩
    obtain ⟨m, rfl⟩ := Int.eq_ofNat_of_zero_le (by omega : 0 ≤ n)
    exact h m (portNumber_eq_some_iff.2 ⟨hn, by omega⟩)
  · rintro h n hn
    obtain ⟨hdec, hlo, hhi⟩ := portNumber_eq_some_iff.1 hn
    exact h ⟨n, hdec, by omega, by omega⟩

theorem Proto.parse_eq_none {s : String} : Proto.parse s = none ↔ s ≠ "tcp" ∧ s ≠ "udp" := by
  unfold Proto.parse
  split <;> simp_all

theorem asks_iff : r.Asks p ↔ portNumber r.port = some p.port ∧ Proto.parse r.proto = some p.proto := by
  rw [portNumber_eq_some_iff, Proto.parse_eq_some]
  constructor
  · rintro ⟨hport, hrange, hproto⟩
    exact ⟨⟨hport, hrange⟩, hproto⟩
  · rintro ⟨⟨hport, hrange⟩, hproto⟩
    exact ⟨hport, hrange, hproto⟩

theorem bad_iff : r.Bad ↔ portNumber r.port = none ∨ Proto.parse r.proto = none := by
  rw [portNumber_eq_none, Proto.parse_eq_none]
  rfl

theorem PortRow.Asks.unique (h : r.Asks p) (h' : r.Asks q) : p = q := by
  obtain ⟨hport, hproto⟩ := asks_iff.1 h
  obtain ⟨hport', hproto'⟩ := asks_iff.1 h'
  rw [hport] at hport'
  rw [hproto] at hproto'
  cases p
  cases q
  simp_all

theorem PortRow.Asks.not_bad (h : r.Asks p) : ¬r.Bad := by
  obtain ⟨hport, hproto⟩ := asks_iff.1 h
  rw [bad_iff, hport, hproto]
  simp

/-- What one row is parsed to. -/
theorem parsePortRow_cases (port : String) (proto : Option String) :
    (portRow port proto = none ∧ parsePortRow port proto = .ok none) ∨
      ∃ r, portRow port proto = some r ∧
        ((r.Bad ∧ ∃ m, parsePortRow port proto = .error m) ∨
          ∃ p, r.Asks p ∧ parsePortRow port proto = .ok (some p)) := by
  unfold parsePortRow portRow
  dsimp only
  split
  · exact .inl ⟨rfl, rfl⟩
  · refine .inr ⟨_, rfl, ?_⟩
    simp only [bad_iff, asks_iff]
    generalize (if trimSpace (proto.getD "") = "" then "tcp" else trimSpace (proto.getD "")) = text
    cases hport : portNumber (trimSpace port) with
    | none => exact .inl ⟨.inl rfl, _, rfl⟩
    | some n =>
      cases hproto : Proto.parse text with
      | none => exact .inl ⟨.inr rfl, _, rfl⟩
      | some k => exact .inr ⟨⟨n, k⟩, ⟨rfl, rfl⟩, rfl⟩

/-- The loop collects what the rows ask for, each once, up to a bad row. -/
theorem parsePortRows_spec (ports protos : List String) {out : List HostPort} (hout : out.Nodup) :
    (∃ m, parsePortRows out ports protos = .error m ∧ ∃ r, RowOf ports protos r ∧ r.Bad) ∨
      ∃ ps, parsePortRows out ports protos = .ok ps ∧ (∀ r, RowOf ports protos r → ¬r.Bad) ∧ ps.Nodup ∧
        ∀ p, p ∈ ps ↔ p ∈ out ∨ ∃ r, RowOf ports protos r ∧ r.Asks p := by
  induction ports generalizing protos out with
  | nil => exact .inr ⟨out, rfl, fun r hr => absurd hr not_rowOf_nil, hout, by simp [not_rowOf_nil]⟩
  | cons port ports ih =>
    unfold parsePortRows
    simp only [rowOf_cons]
    rcases parsePortRow_cases port protos.head? with ⟨hnone, hparse⟩ | ⟨r, hrow,
      ⟨hbad, m, hparse⟩ | ⟨p, hasks, hparse⟩⟩
    · rw [hparse, hnone]
      simpa using ih protos.tail hout
    · rw [hparse]
      exact .inl ⟨m, rfl, r, .inl hrow, hbad⟩
    · rw [hparse, hrow]
      dsimp only
      -- the port of this row is taken up unless an earlier row asked for it
      have hnodup : (if p ∈ out then out else out ++ [p]).Nodup := by
        split
        · exact hout
        · rename_i hnew
          rw [List.nodup_append]
          refine ⟨hout, List.nodup_singleton p, ?_⟩
          rintro a ha b hb rfl
          exact hnew (List.mem_singleton.1 hb ▸ ha)
      have hmem : ∀ q, q ∈ (if p ∈ out then out else out ++ [p]) ↔ q ∈ out ∨ r.Asks q := by
        intro q
        have hq : r.Asks q ↔ q = p := ⟨fun h => h.unique hasks, fun h => h ▸ hasks⟩
        rw [hq]
        split
        · rename_i hp
          exact ⟨.inl, fun h => h.elim id fun h => h ▸ hp⟩
        · rw [List.mem_append, List.mem_singleton]
      rcases ih protos.tail hnodup with ⟨m, herr, r', hr', hbad⟩ | ⟨ps, hok, hgood, hps, hall⟩
      · exact .inl ⟨m, herr, r', .inr hr', hbad⟩
      · refine .inr ⟨ps, hok, ?_, hps, fun q => ?_⟩
        · rintro r' (heq | hr')
          · cases heq
            exact hasks.not_bad
          · exact hgood r' hr'
        · rw [hall, hmem, or_assoc]
          simp only [Option.some.injEq, or_and_right, exists_or, exists_eq_left']

/-! ## The stored string -/

theorem HostPort.le_iff : p.le q = true ↔ p = q ∨ p.Before q := by
  obtain ⟨n, k⟩ := p
  obtain ⟨m, l⟩ := q
  cases k <;> cases l <;> simp [HostPort.le, HostPort.Before, Nat.le_iff_lt_or_eq, or_comm]

theorem HostPort.Before.not_symm (h : p.Before q) : ¬q.Before p := by
  rcases h with ⟨hp, hq⟩ | ⟨heq, hlt⟩
  · rintro (⟨hq', -⟩ | ⟨heq', -⟩)
    · rw [hq] at hq'
      cases hq'
    · rw [hp, hq] at heq'
      cases heq'
  · rintro (⟨hq', hp'⟩ | ⟨-, hlt'⟩)
    · rw [hq', hp'] at heq
      cases heq
    · exact absurd hlt (Nat.lt_asymm hlt')

theorem HostPort.Before.ne (h : p.Before q) : p ≠ q := by
  rintro rfl
  exact h.not_symm h

instance : IsTrans HostPort fun a b => a.le b = true where
  trans := by
    rintro ⟨n, k⟩ ⟨m, l⟩ ⟨i, j⟩ h h'
    cases k <;> cases l <;> cases j <;> simp_all [HostPort.le] <;> omega

instance : Std.Total fun a b : HostPort => a.le b = true where
  total := by
    rintro ⟨n, k⟩ ⟨m, l⟩
    cases k <;> cases l <;> simp [HostPort.le] <;> omega

/-- Sorted ports without a repetition are in strict order. -/
theorem pairwise_before {ps : List HostPort} (h : ps.Nodup) : (sortHostPorts ps).Pairwise HostPort.Before := by
  have hsorted : (sortHostPorts ps).Pairwise fun a b => a.le b = true := List.pairwise_insertionSort _ _
  have hnodup : (sortHostPorts ps).Nodup := (List.perm_insertionSort _ ps).nodup_iff.2 h
  refine (hsorted.and hnodup).imp fun {a b} hab => ?_
  exact (HostPort.le_iff.1 hab.1).resolve_left hab.2

/-- A strictly ordered list is known by its members. -/
theorem eq_of_before {ps qs : List HostPort} (hp : ps.Pairwise HostPort.Before) (hq : qs.Pairwise HostPort.Before)
    (h : ∀ p, p ∈ ps ↔ p ∈ qs) : ps = qs := by
  have hperm : ps.Perm qs := (List.perm_ext_iff_of_nodup (hp.imp HostPort.Before.ne) (hq.imp HostPort.Before.ne)).2 h
  exact hperm.eq_of_pairwise (fun _ _ _ _ hab hba => absurd hba hab.not_symm) hp hq

theorem sortHostPorts_of_before {ps : List HostPort} (h : ps.Pairwise HostPort.Before) : sortHostPorts ps = ps :=
  eq_of_before (pairwise_before (h.imp HostPort.Before.ne)) h fun _ => List.mem_insertionSort _

/-- The token of a port in the stored string. -/
def HostPort.token (p : HostPort) : String := toString p.port ++ "/" ++ p.proto.name

theorem formatHostPorts_eq (ps : List HostPort) : formatHostPorts ps = " ".intercalate (ps.map HostPort.token) := rfl

theorem isToken_toString (n : Nat) : IsToken (toString n) := by
  have hlist : (toString n).toList = Nat.toDigits 10 n := Nat.toList_repr
  unfold IsToken
  rw [hlist]
  refine ⟨Nat.toDigits_ne_nil, fun c hc => isSpace_of_isDigit ?_⟩
  exact Nat.isDigit_of_mem_toDigits (by decide) (by decide) hc

theorem isToken_name (k : Proto) : IsToken k.name := by
  cases k <;> exact ⟨by decide, by simp [Proto.name]; decide⟩

theorem isToken_token (p : HostPort) : IsToken p.token := by
  obtain ⟨hne, hport⟩ := isToken_toString p.port
  have hproto := (isToken_name p.proto).2
  have hlist : p.token.toList = (toString p.port).toList ++ '/' :: p.proto.name.toList := by simp [HostPort.token]
  unfold IsToken
  rw [hlist]
  refine ⟨by simp, fun c hc => ?_⟩
  rcases List.mem_append.1 hc with hc | hc
  · exact hport c hc
  · rcases List.mem_cons.1 hc with rfl | hc
    · decide
    · exact hproto c hc

theorem decodeHostPort_token (h : 1 ≤ p.port ∧ p.port ≤ 65535) : decodeHostPort p.token = some p := by
  refine decodeHostPort_eq_some.2 ⟨_, rfl, parseInt_eq_some.2 ⟨isDecimal_toString _, ?_⟩, h⟩
  omega

/-- The stored string is read back. -/
theorem decode_format {ps : List HostPort} (hps : ps.Pairwise HostPort.Before)
    (hrange : ∀ p ∈ ps, 1 ≤ p.port ∧ p.port ≤ 65535) : decodeHostPorts (formatHostPorts ps) = ps := by
  have htokens : ∀ t ∈ ps.map HostPort.token, IsToken t := by
    intro t ht
    obtain ⟨p, -, rfl⟩ := List.mem_map.1 ht
    exact isToken_token p
  have hdecode : (ps.map HostPort.token).filterMap decodeHostPort = ps := by
    rw [List.filterMap_map]
    calc ps.filterMap (decodeHostPort ∘ HostPort.token)
        = ps.filterMap some := List.filterMap_congr fun p hp => decodeHostPort_token (hrange p hp)
      _ = ps := List.filterMap_some
  unfold decodeHostPorts
  rw [formatHostPorts_eq, fields_intercalate htokens, hdecode, sortHostPorts_of_before hps]

/-! ## Submissions -/

/-- A submission is refused for a bad row, and otherwise read in strict order. -/
theorem parseHostPorts_cases (ports protos : List String) :
    (∃ m, parseHostPorts ports protos = .error m ∧ ∃ r, RowOf ports protos r ∧ r.Bad) ∨
      ∃ ps, parseHostPorts ports protos = .ok ps ∧ (∀ r, RowOf ports protos r → ¬r.Bad) ∧
        ps.Pairwise HostPort.Before ∧ ∀ p, p ∈ ps ↔ ∃ r, RowOf ports protos r ∧ r.Asks p := by
  unfold parseHostPorts
  rcases parsePortRows_spec ports protos List.nodup_nil with ⟨m, herr, hbad⟩ | ⟨ps, hok, hgood, hnodup, hmem⟩
  · exact .inl ⟨m, by rw [herr], hbad⟩
  · refine .inr ⟨sortHostPorts ps, by rw [hok], hgood, pairwise_before hnodup, fun p => ?_⟩
    rw [sortHostPorts, List.mem_insertionSort, hmem]
    simp

theorem parseHostPorts_ok {ps : List HostPort} (h : parseHostPorts ports protos = .ok ps) :
    (∀ r, RowOf ports protos r → ¬r.Bad) ∧ ps.Pairwise HostPort.Before ∧
      ∀ p, p ∈ ps ↔ ∃ r, RowOf ports protos r ∧ r.Asks p := by
  rcases parseHostPorts_cases ports protos with ⟨m, herr, -⟩ | ⟨qs, hok, hspec⟩
  · rw [h] at herr
    cases herr
  · rw [h] at hok
    cases hok
    exact hspec

/-- A row shown for a port asks for that port. -/
theorem portRow_shown (h : 1 ≤ p.port ∧ p.port ≤ 65535) :
    ∃ r, portRow (toString p.port) (some p.proto.name) = some r ∧ r.Asks p := by
  have hport := isToken_toString p.port
  have hproto := isToken_name p.proto
  refine ⟨⟨toString p.port, p.proto.name⟩, ?_, ⟨isDecimal_toString _, h, rfl⟩⟩
  unfold portRow
  rw [Option.getD_some, trimSpace_eq_self hport.2, trimSpace_eq_self hproto.2, if_neg, if_neg]
  · exact fun heq => hproto.1 (by rw [heq]; rfl)
  · exact fun heq => hport.1 (by rw [heq]; rfl)

/-- The rows shown for a list of ports. -/
theorem rowOf_shown {ps : List HostPort} (hrange : ∀ p ∈ ps, 1 ≤ p.port ∧ p.port ≤ 65535) :
    (∀ r, RowOf (ps.map fun p => toString p.port) (ps.map fun p => p.proto.name) r → ∃ p ∈ ps, r.Asks p) ∧
      ∀ p ∈ ps, ∃ r, RowOf (ps.map fun p => toString p.port) (ps.map fun p => p.proto.name) r ∧ r.Asks p := by
  induction ps with
  | nil => exact ⟨fun r hr => absurd hr not_rowOf_nil, nofun⟩
  | cons p ps ih =>
    obtain ⟨hrows, hall⟩ := ih fun q hq => hrange q (.tail _ hq)
    obtain ⟨r, hrow, hasks⟩ := portRow_shown (hrange p (.head _))
    simp only [List.map_cons, rowOf_cons, List.head?_cons, List.tail_cons, hrow, Option.some.injEq]
    constructor
    · rintro r' (rfl | hr')
      · exact ⟨p, .head _, hasks⟩
      · obtain ⟨q, hq, hask⟩ := hrows r' hr'
        exact ⟨q, .tail _ hq, hask⟩
    · intro q hq
      rcases List.mem_cons.1 hq with rfl | hq
      · exact ⟨r, .inl rfl, hasks⟩
      · obtain ⟨r', hr', hask⟩ := hall q hq
        exact ⟨r', .inr hr', hask⟩

/-- The rows shown for what is stored ask for it. -/
theorem parse_shown {ps : List HostPort} (hps : parseHostPorts ports protos = .ok ps) :
    (parseHostPorts (shownPorts (formatHostPorts ps)) (shownProtos (formatHostPorts ps))).map formatHostPorts =
      .ok (formatHostPorts ps) := by
  obtain ⟨-, hbefore, hmem⟩ := parseHostPorts_ok hps
  have hrange : ∀ p ∈ ps, 1 ≤ p.port ∧ p.port ≤ 65535 := fun p hp => by
    obtain ⟨r, -, hasks⟩ := (hmem p).1 hp
    exact hasks.range
  obtain ⟨hrows, hall⟩ := rowOf_shown hrange
  unfold shownPorts shownProtos
  rw [decode_format hbefore hrange]
  rcases parseHostPorts_cases (ps.map fun p => toString p.port) (ps.map fun p => p.proto.name) with
    ⟨m, -, r, hr, hbad⟩ | ⟨qs, hok, -, hbefore', hmem'⟩
  · obtain ⟨p, -, hasks⟩ := hrows r hr
    exact absurd hbad hasks.not_bad
  · rw [hok, eq_of_before hbefore' hbefore fun p => ?_]
    · rfl
    · rw [hmem']
      constructor
      · rintro ⟨r, hr, hasks⟩
        obtain ⟨q, hq, hasks'⟩ := hrows r hr
        exact hasks.unique hasks' ▸ hq
      · exact hall p

/-- Every submission: refused exactly for a bad row. Otherwise what is stored stands for the ports asked for,
in strict order, depends on the set of rows only, and is stored again when it is shown and submitted. -/
theorem parseHostPorts_spec (ports protos : List String) :
    ((∃ m, parseHostPorts ports protos = .error m) ↔ ∃ r, RowOf ports protos r ∧ r.Bad) ∧
      ∀ ps, parseHostPorts ports protos = .ok ps →
        ps.Pairwise HostPort.Before ∧ (∀ p, p ∈ ps ↔ ∃ r, RowOf ports protos r ∧ r.Asks p) ∧
        decodeHostPorts (formatHostPorts ps) = ps ∧
        (∀ ports' protos' ps', parseHostPorts ports' protos' = .ok ps' →
          (∀ r, RowOf ports' protos' r ↔ RowOf ports protos r) → formatHostPorts ps' = formatHostPorts ps) ∧
        (parseHostPorts (shownPorts (formatHostPorts ps)) (shownProtos (formatHostPorts ps))).map formatHostPorts =
          .ok (formatHostPorts ps) := by
  constructor
  · rcases parseHostPorts_cases ports protos with ⟨m, herr, hbad⟩ | ⟨ps, hok, hgood, -⟩
    · exact ⟨fun _ => hbad, fun _ => ⟨m, herr⟩⟩
    · constructor
      · rintro ⟨m, herr⟩
        rw [hok] at herr
        cases herr
      · rintro ⟨r, hr, hbad⟩
        exact absurd hbad (hgood r hr)
  · intro ps hps
    obtain ⟨-, hbefore, hmem⟩ := parseHostPorts_ok hps
    have hrange : ∀ p ∈ ps, 1 ≤ p.port ∧ p.port ≤ 65535 := fun p hp => by
      obtain ⟨r, -, hasks⟩ := (hmem p).1 hp
      exact hasks.range
    have hdecode := decode_format hbefore hrange
    refine ⟨hbefore, hmem, hdecode, fun ports' protos' ps' hps' hrows => ?_, ?_⟩
    · -- the same rows ask for the same ports, and the order is theirs
      obtain ⟨-, hbefore', hmem'⟩ := parseHostPorts_ok hps'
      rw [eq_of_before hbefore' hbefore fun p => by rw [hmem', hmem]; simp only [hrows]]
    · exact parse_shown hps

end Rows

end Nixbox.Nix
