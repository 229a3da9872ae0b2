/-
Dispatch of a path to one of many patterns, segment by segment: a literal is tried before a wildcard for
one segment, and that before one for all the rest. What is found is the first of the patterns that match
by this order, so the most specific one, whichever way the table is written down.
-/
import Mathlib.Data.List.Nodup

namespace Routes

variable {σ α : Type}

/-- A segment of a pattern: these bytes, any one segment, or one or more segments up to the end. -/
inductive Seg (σ : Type)
  | lit (s : σ)
  | any
  | rest
  deriving DecidableEq, Repr

/-- A path with wildcards. -/
abbrev Pattern (σ : Type) := List (Seg σ)

/-- Patterns with what is registered for them. -/
abbrev Table (σ α : Type) := List (Pattern σ × α)

section Defs

variable [DecidableEq σ] (single : σ → Bool)

/-- `single` says which segments a wildcard stands for. -/
def Matches : Pattern σ → List σ → Bool
  | [], [] => true
  | [.rest], _ :: _ => true
  | .lit a :: p, s :: path => a == s && Matches p path
  | .any :: p, s :: path => single s && Matches p path
  | _, _ => false

/-- The patterns that go on with the segment, without it. -/
def under (seg : Seg σ) (t : Table σ α) : Table σ α :=
  t.filterMap fun e => match e.1 with
    | h :: p => if h = seg then some (p, e.2) else none
    | [] => none

/-- What is registered at the pattern. -/
def leaf (p : Pattern σ) (t : Table σ α) : Option α := (t.find? fun e => e.1 == p).map (·.2)

/-- Where the path leads. -/
def route (t : Table σ α) : List σ → Option α
  | [] => leaf [] t
  | s :: path =>
    (route (under (.lit s) t) path).or
      (((if single s then route (under .any t) path else none)).or (leaf [.rest] t))

/-- At the first place where they differ the one has a literal, or one wildcard where the other has one for
all the rest. -/
def Before : Pattern σ → Pattern σ → Bool
  | .lit _ :: _, .any :: _ => true
  | .lit _ :: _, .rest :: _ => true
  | .any :: _, .rest :: _ => true
  | a :: p, b :: q => a == b && Before p q
  | _, _ => false

/-- Segment by segment, the second pattern takes what the first one takes. -/
def Within : Pattern σ → Pattern σ → Bool
  | [], [] => true
  | _ :: _, [.rest] => true
  | .lit a :: p, .lit b :: q => a == b && Within p q
  | .lit a :: p, .any :: q => single a && Within p q
  | .any :: p, .any :: q => Within p q
  | _, _ => false

/-- At some segment the two take different ones. -/
def Apart : Pattern σ → Pattern σ → Bool
  | [], _ :: _ => true
  | _ :: _, [] => true
  | .lit a :: p, .lit b :: q => a != b || Apart p q
  | .lit a :: p, .any :: q => !single a || Apart p q
  | .any :: p, .lit b :: q => !single b || Apart p q
  | .any :: p, .any :: q => Apart p q
  | _, _ => false

/-- Of two patterns that take a path in common the one that comes before takes no other paths. -/
def Nested (t : Table σ α) : Prop :=
  ∀ e ∈ t, ∀ e' ∈ t, Before e.1 e'.1 = true → Apart single e.1 e'.1 = true ∨ Within single e.1 e'.1 = true

instance (t : Table σ α) : Decidable (Nested single t) :=
  inferInstanceAs (Decidable (∀ e ∈ t, ∀ e' ∈ t, _))

end Defs

/-! ## What is found -/

section Found

variable [DecidableEq σ] {single : σ → Bool} {t : Table σ α} {p q : Pattern σ} {path : List σ} {a : α} {s : σ}

theorem mem_under {seg : Seg σ} : (p, a) ∈ under seg t ↔ (seg :: p, a) ∈ t := by
  unfold under
  rw [List.mem_filterMap]
  constructor
  · rintro ⟨⟨q, b⟩, hmem, h⟩
    cases q with
    | nil => cases h
    | cons h' q =>
      dsimp only at h
      split at h
      · rename_i heq
        cases h
        exact heq ▸ hmem
      · cases h
  · intro hmem
    exact ⟨_, hmem, by simp⟩

theorem leaf_some (h : leaf p t = some a) : (p, a) ∈ t := by
  obtain ⟨⟨q, b⟩, hfind, rfl⟩ := Option.map_eq_some_iff.1 h
  obtain rfl : q = p := by simpa using List.find?_some hfind
  exact List.mem_of_find?_eq_some hfind

theorem leaf_none (h : leaf p t = none) (a : α) : (p, a) ∉ t := by
  intro hmem
  have hfind := List.find?_eq_none.1 (Option.map_eq_none_iff.1 h) _ hmem
  simp at hfind

theorem matches_cases (h : Matches single p (s :: path) = true) :
    p = [.rest] ∨ (∃ q, p = .lit s :: q ∧ Matches single q path = true) ∨
      ∃ q, p = .any :: q ∧ single s = true ∧ Matches single q path = true := by
  cases p with
  | nil => cases h
  | cons seg q =>
    cases seg with
    | lit a =>
      obtain ⟨ha, hq⟩ := Bool.and_eq_true_iff.1 h
      obtain rfl := beq_iff_eq.1 ha
      exact .inr (.inl ⟨q, rfl, hq⟩)
    | any =>
      obtain ⟨hs, hq⟩ := Bool.and_eq_true_iff.1 h
      exact .inr (.inr ⟨q, rfl, hs, hq⟩)
    | rest =>
      cases q with
      | nil => exact .inl rfl
      | cons => cases h

theorem matches_nil (h : Matches single p [] = true) : p = [] := by
  cases p with
  | nil => rfl
  | cons seg q => cases seg <;> cases q <;> cases h

theorem matches_lit : Matches single (.lit s :: p) (s :: path) = Matches single p path := by simp [Matches]

theorem matches_any (hs : single s = true) : Matches single (.any :: p) (s :: path) = Matches single p path := by
  simp [Matches, hs]

theorem matches_nil_iff {segs : List σ} : Matches single [] segs = true ↔ segs = [] := by
  cases segs <;> simp [Matches]

theorem matches_lit_iff {segs : List σ} :
    Matches single (.lit s :: p) segs = true ↔ ∃ path, segs = s :: path ∧ Matches single p path = true := by
  cases segs with
  | nil => exact ⟨nofun, fun ⟨_, h, _⟩ => by cases h⟩
  | cons x path =>
    rw [Matches, Bool.and_eq_true, beq_iff_eq]
    refine ⟨fun h => ⟨path, by rw [h.1], h.2⟩, ?_⟩
    rintro ⟨_, h, hp⟩
    cases h
    exact ⟨rfl, hp⟩

theorem matches_any_iff {segs : List σ} :
    Matches single (.any :: p) segs = true ↔
    ∃ s path, segs = s :: path ∧ single s = true ∧ Matches single p path = true := by
  cases segs with
  | nil => exact ⟨nofun, fun ⟨_, _, h, _⟩ => by cases h⟩
  | cons x path =>
    rw [Matches, Bool.and_eq_true]
    refine ⟨fun h => ⟨x, path, rfl, h⟩, ?_⟩
    rintro ⟨_, _, h, hs, hp⟩
    cases h
    exact ⟨hs, hp⟩

theorem before_cons {seg : Seg σ} (h : q = p ∨ Before p q = true) :
    seg :: q = seg :: p ∨ Before (seg :: p) (seg :: q) = true := by
  refine h.imp (fun h => by rw [h]) fun h => ?_
  cases seg <;> simp [Before, h]

/-- Where nothing is found no pattern matches. -/
theorem route_none (h : route single t path = none) (hmem : (p, a) ∈ t) : Matches single p path = false := by
  refine Bool.eq_false_iff.2 fun hp => ?_
  induction path generalizing t p with
  | nil =>
    obtain rfl := matches_nil hp
    exact leaf_none h a hmem
  | cons s path ih =>
    rw [route, Option.or_eq_none_iff, Option.or_eq_none_iff] at h
    obtain ⟨hlit, hany, hrest⟩ := h
    rcases matches_cases hp with rfl | ⟨q, rfl, hq⟩ | ⟨q, rfl, hs, hq⟩
    · exact leaf_none hrest a hmem
    · exact ih hlit (mem_under.2 hmem) hq
    · rw [if_pos hs] at hany
      exact ih hany (mem_under.2 hmem) hq

/-- What is found is registered under a pattern that matches, and no other one that does comes before it. -/
theorem route_some (h : route single t path = some a) :
    ∃ p, (p, a) ∈ t ∧ Matches single p path = true ∧
      ∀ q b, (q, b) ∈ t → Matches single q path = true → q = p ∨ Before p q = true := by
  induction path generalizing t with
  | nil => exact ⟨[], leaf_some h, rfl, fun q b _ hq => .inl (matches_nil hq)⟩
  | cons s path ih =>
    rw [route, Option.or_eq_some_iff, Option.or_eq_some_iff] at h
    rcases h with h | ⟨hlit, h⟩
    -- a literal
    · obtain ⟨p, hmem, hp, hfirst⟩ := ih h
      refine ⟨.lit s :: p, mem_under.1 hmem, matches_lit.trans hp, fun q b hq hm => ?_⟩
      rcases matches_cases hm with rfl | ⟨q, rfl, hq'⟩ | ⟨q, rfl, -, hq'⟩
      · exact .inr rfl
      · exact before_cons (hfirst q b (mem_under.2 hq) hq')
      · exact .inr rfl
    have hnolit : ∀ q b, (.lit s :: q, b) ∈ t → Matches single q path = true → False := fun q b hq hm => by
      rw [route_none hlit (mem_under.2 hq)] at hm
      cases hm
    rcases h with h | ⟨hany, h⟩
    -- a wildcard for one segment
    · obtain ⟨hs, h⟩ : single s = true ∧ route single (under .any t) path = some a := by
        split at h
        · exact ⟨‹_›, h⟩
        · cases h
      obtain ⟨p, hmem, hp, hfirst⟩ := ih h
      refine ⟨.any :: p, mem_under.1 hmem, (matches_any hs).trans hp, fun q b hq hm => ?_⟩
      rcases matches_cases hm with rfl | ⟨q, rfl, hq'⟩ | ⟨q, rfl, -, hq'⟩
      · exact .inr rfl
      · exact (hnolit q b hq hq').elim
      · exact before_cons (hfirst q b (mem_under.2 hq) hq')
    -- one for all the rest
    · refine ⟨[.rest], leaf_some h, rfl, fun q b hq hm => ?_⟩
      rcases matches_cases hm with rfl | ⟨q, rfl, hq'⟩ | ⟨q, rfl, hs, hq'⟩
      · exact .inl rfl
      · exact (hnolit q b hq hq').elim
      · rw [if_pos hs] at hany
        rw [route_none hany (mem_under.2 hq)] at hq'
        cases hq'

theorem route_isSome : (route single t path).isSome = true ↔
    ∃ p a, (p, a) ∈ t ∧ Matches single p path = true := by
  constructor
  · intro h
    obtain ⟨a, ha⟩ := Option.isSome_iff_exists.1 h
    obtain ⟨p, hmem, hp, -⟩ := route_some ha
    exact ⟨p, a, hmem, hp⟩
  · rintro ⟨p, a, hmem, hp⟩
    cases h : route single t path with
    | some a => rfl
    | none =>
      rw [route_none h hmem] at hp
      cases hp

/-! ## Which pattern that is -/

theorem before_asymm : ∀ {p q : Pattern σ}, Before p q = true → Before q p = false
  | [], _, h => by simp [Before] at h
  | a :: p, [], h => by simp [Before] at h
  | a :: p, b :: q, h => by
    by_cases hab : a = b
    · subst hab
      have hp : Before p q = true := by cases a <;> simpa [Before] using h
      have hq := before_asymm hp
      cases a <;> simp [Before, hq]
    · cases a <;> cases b <;> simp_all [Before]

/-- The order of the table does not matter. -/
theorem route_perm {t' : Table σ α} (hperm : t.Perm t') (hnd : (t.map (·.1)).Nodup) (path : List σ) :
    route single t path = route single t' path := by
  cases h : route single t path with
  | none =>
    cases h' : route single t' path with
    | none => rfl
    | some a' =>
      obtain ⟨p', hmem', hp', -⟩ := route_some h'
      rw [route_none h (hperm.mem_iff.2 hmem')] at hp'
      cases hp'
  | some a =>
    obtain ⟨p, hmem, hp, hfirst⟩ := route_some h
    obtain ⟨a', h'⟩ : ∃ a', route single t' path = some a' :=
      Option.isSome_iff_exists.1 (route_isSome.2 ⟨p, a, hperm.mem_iff.1 hmem, hp⟩)
    obtain ⟨p', hmem', hp', hfirst'⟩ := route_some h'
    have heq : p' = p := by
      rcases hfirst p' a' (hperm.mem_iff.2 hmem') hp' with heq | hbefore
      · exact heq
      rcases hfirst' p a (hperm.mem_iff.1 hmem) hp with heq | hbefore'
      · exact heq.symm
      · rw [before_asymm hbefore] at hbefore'
        cases hbefore'
    subst heq
    have hentry := List.inj_on_of_nodup_map hnd hmem (hperm.mem_iff.2 hmem') rfl
    cases hentry
    exact h'.symm

theorem within_rest (h : Within single p (.rest :: q) = true) : q = [] := by
  cases q with
  | nil => rfl
  | cons => rcases p with _ | ⟨_ | _ | _, p⟩ <;> cases h

theorem within_matches (h : Within single p q = true) (hp : Matches single p path = true) :
    Matches single q path = true := by
  induction path generalizing p q with
  | nil =>
    obtain rfl := matches_nil hp
    cases q with
    | nil => rfl
    | cons => cases h
  | cons s path ih =>
    rcases q with _ | ⟨b | _ | _, q⟩
    · rcases matches_cases hp with rfl | ⟨p, rfl, -⟩ | ⟨p, rfl, -⟩ <;> cases h
    · rcases matches_cases hp with rfl | ⟨p, rfl, hp'⟩ | ⟨p, rfl, -⟩
      · cases h
      · obtain ⟨hb, hpq⟩ := Bool.and_eq_true_iff.1 h
        obtain rfl := beq_iff_eq.1 hb
        exact matches_lit.trans (ih hpq hp')
      · cases h
    · rcases matches_cases hp with rfl | ⟨p, rfl, hp'⟩ | ⟨p, rfl, hs, hp'⟩
      · cases h
      · obtain ⟨hs, hpq⟩ := Bool.and_eq_true_iff.1 h
        exact (matches_any hs).trans (ih hpq hp')
      · exact (matches_any hs).trans (ih h hp')
    · obtain rfl := within_rest h
      rfl

theorem apart_matches (h : Apart single p q = true) (hp : Matches single p path = true) :
    Matches single q path = false := by
  refine Bool.eq_false_iff.2 fun hq => ?_
  induction path generalizing p q with
  | nil =>
    obtain rfl := matches_nil hp
    obtain rfl := matches_nil hq
    cases h
  | cons s path ih =>
    rcases matches_cases hp with rfl | ⟨p, rfl, hp'⟩ | ⟨p, rfl, hs, hp'⟩ <;>
      rcases matches_cases hq with rfl | ⟨q, rfl, hq'⟩ | ⟨q, rfl, hs', hq'⟩
    · cases h
    · cases h
    · cases h
    · cases h
    · simp only [Apart, bne_self_eq_false, Bool.false_or] at h
      exact ih h hp' hq'
    · simp only [Apart, hs', Bool.not_true, Bool.false_or] at h
      exact ih h hp' hq'
    · cases h
    · simp only [Apart, hs, Bool.not_true, Bool.false_or] at h
      exact ih h hp' hq'
    · exact ih (p := p) (q := q) h hp' hq'

/-- In a table whose patterns nest, what is found is registered under the one that takes the fewest paths. -/
theorem route_least (hnest : Nested single t) (h : route single t path = some a) :
    ∃ p, (p, a) ∈ t ∧ Matches single p path = true ∧ ∀ q b, (q, b) ∈ t → Matches single q path = true →
      ∀ path', Matches single p path' = true → Matches single q path' = true := by
  obtain ⟨p, hmem, hp, hfirst⟩ := route_some h
  refine ⟨p, hmem, hp, fun q b hq hmq path' hp' => ?_⟩
  rcases hfirst q b hq hmq with rfl | hbefore
  · exact hp'
  rcases hnest _ hmem _ hq hbefore with hapart | hwithin
  · rw [apart_matches hapart hp] at hmq
    cases hmq
  · exact within_matches hwithin hp'

end Found

end Routes
