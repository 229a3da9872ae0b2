/-
The functions of Go's `path` and `filepath` packages the program calls, on paths as lists of characters:
which segment comes first in a path that has been cleaned, and what stands behind a segment that is joined.
-/
import Mathlib.Tactic.Common
import Mathlib.Data.List.Induction
import Nixbox.Go.Strings

namespace Go

/-- One more segment of a path, over the ones kept so far, the last of them first. Empty ones and `.`
are dropped, and `..` takes away the one before it; with none before it, it goes too if the path is
rooted. -/
def pushSegment (rooted : Bool) (kept : List (List Char)) (seg : List Char) : List (List Char) :=
  if seg = [] ∨ seg = ['.'] then kept
  else if seg = ['.', '.'] then
    match kept with
    | [] => if rooted then [] else [seg]
    | last :: rest => if !rooted && last == ['.', '.'] then seg :: kept else rest
  else seg :: kept

/-- The segments that `path.Clean` keeps, in their order. -/
def cleanSegments (rooted : Bool) (segs : List (List Char)) : List (List Char) :=
  (segs.foldl (pushSegment rooted) []).reverse

/-- `path.Clean`. -/
def pathClean : List Char → List Char
  | '/' :: cs => '/' :: ['/'].intercalate (cleanSegments true (cs.splitOn '/'))
  | cs =>
    match cleanSegments false (cs.splitOn '/') with
    | [] => ['.']
    | segs => ['/'].intercalate segs

example : pathClean "/a//b/./../c/".toList = "/a/c".toList ∧ pathClean "/../..".toList = "/".toList ∧
    pathClean "a/../../b".toList = "../b".toList ∧ pathClean [] = ".".toList := by decide +kernel

/-- `filepath.Join`, on a system whose separator is the slash. -/
def joinPath (elems : List String) : List Char :=
  match elems.dropWhile (· = "") with
  | [] => []
  | elems => pathClean (['/'].intercalate (elems.map String.toList))

example : joinPath ["", "/var//lib/", "", "x"] = "/var/lib/x".toList ∧ joinPath ["", ""] = [] := by decide +kernel

/-- The directory of `path.Split`: what comes up to the last slash. -/
def pathDir (cs : List Char) : List Char := (cs.reverse.dropWhile (· ≠ '/')).reverse

/-! ## The first segment -/

/-- How far below the root a segment leads from depth `d`. -/
def depth (d : Nat) (seg : List Char) : Nat :=
  if seg = [] ∨ seg = ['.'] then d else if seg = ['.', '.'] then d - 1 else d + 1

/-- A segment that stands for itself. -/
def IsName (seg : List Char) : Prop := seg ≠ [] ∧ seg ≠ ['.'] ∧ seg ≠ ['.', '.']

/-- The segments before `seg` lead back to the root, and those after it never do. -/
def Surfaces (segs : List (List Char)) (seg : List Char) : Prop :=
  ∃ pre post, segs = pre ++ seg :: post ∧ IsName seg ∧ pre.foldl depth 0 = 0 ∧
    ∀ post₁ post₂, post = post₁ ++ post₂ → 0 < post₁.foldl depth 1

section First

variable {segs : List (List Char)} {seg s : List Char} {d : Nat}

theorem depth_name (h : IsName seg) : depth d seg = d + 1 := by
  unfold depth
  rw [if_neg (not_or.2 ⟨h.1, h.2.1⟩), if_neg h.2.2]

/-- The last segment comes first if it is alone at the root; another stays first unless the last one
leads back to the root. -/
theorem surfaces_snoc : Surfaces (segs ++ [s]) seg ↔
    (Surfaces segs seg ∧ 0 < (segs ++ [s]).foldl depth 0) ∨ (s = seg ∧ IsName s ∧ segs.foldl depth 0 = 0) := by
  have hdepth : ∀ pre post, IsName seg → pre.foldl depth 0 = 0 →
      (pre ++ seg :: post).foldl depth 0 = post.foldl depth 1 := by
    intro pre post hname hpre
    rw [List.foldl_append, hpre, List.foldl_cons, depth_name hname]
  constructor
  · rintro ⟨pre, post, heq, hname, hpre, hpost⟩
    rcases List.eq_nil_or_concat post with rfl | ⟨post, s', rfl⟩
    · obtain ⟨rfl, hlast⟩ := List.append_inj' heq rfl
      cases hlast
      exact .inr ⟨rfl, hname, hpre⟩
    · have hsplit : segs ++ [s] = (pre ++ seg :: post) ++ [s'] := by rw [heq]; simp
      obtain ⟨rfl, hlast⟩ := List.append_inj' hsplit rfl
      cases hlast
      refine .inl ⟨⟨pre, post, rfl, hname, hpre, fun post₁ post₂ hp => ?_⟩, ?_⟩
      · exact hpost post₁ (post₂ ++ [s]) (by rw [hp]; simp)
      · rw [List.append_assoc, List.cons_append, hdepth pre _ hname hpre]
        exact hpost (post ++ [s]) [] (by simp)
  · rintro (⟨⟨pre, post, rfl, hname, hpre, hpost⟩, hpos⟩ | ⟨rfl, hname, hpre⟩)
    · rw [List.append_assoc, List.cons_append, hdepth pre _ hname hpre] at hpos
      refine ⟨pre, post ++ [s], by simp, hname, hpre, fun post₁ post₂ hp => ?_⟩
      rcases List.eq_nil_or_concat post₂ with rfl | ⟨post₂, s', rfl⟩
      · rw [List.append_nil] at hp
        rw [← hp]
        exact hpos
      · have hsplit : post ++ [s] = (post₁ ++ post₂) ++ [s'] := by rw [hp]; simp
        exact hpost post₁ post₂ (List.append_inj' hsplit rfl).1
    · refine ⟨segs, [], rfl, hname, hpre, fun post₁ post₂ hp => ?_⟩
      obtain ⟨rfl, -⟩ := List.append_eq_nil_iff.1 hp.symm
      exact Nat.one_pos

theorem length_pushSegment (kept : List (List Char)) :
    (pushSegment true kept s).length = depth kept.length s := by
  unfold pushSegment depth
  split
  · rfl
  split
  · cases kept <;> simp
  · rfl

/-- The segments kept of a rooted path are as many as it is deep. -/
theorem length_kept (segs : List (List Char)) :
    (segs.foldl (pushSegment true) []).length = segs.foldl depth 0 := by
  induction segs using List.reverseRecOn with
  | nil => rfl
  | append_singleton segs s ih =>
    rw [List.foldl_append, List.foldl_append, ← ih]
    exact length_pushSegment _

/-- The segment at the bottom of those kept is the one that surfaces. -/
theorem getLast?_kept (segs : List (List Char)) :
    (segs.foldl (pushSegment true) []).getLast? = some seg ↔ Surfaces segs seg := by
  induction segs using List.reverseRecOn with
  | nil =>
    refine ⟨nofun, ?_⟩
    rintro ⟨pre, post, heq, -⟩
    cases pre <;> cases heq
  | append_singleton segs s ih =>
    have hlen := length_kept segs
    have hlen' := length_kept (segs ++ [s])
    rw [surfaces_snoc, ← ih, ← hlen, ← hlen', List.foldl_append]
    show (pushSegment true _ s).getLast? = some seg ↔
      (_ ∧ 0 < (pushSegment true _ s).length) ∨ _
    generalize segs.foldl (pushSegment true) [] = kept
    -- an empty or dot segment, a step up, a name
    unfold pushSegment
    split
    · rename_i hskip
      have hnot : ¬ IsName s := fun h => hskip.elim h.1 h.2.1
      simp only [hnot, false_and, and_false, or_false]
      refine ⟨fun h => ⟨h, ?_⟩, fun h => h.1⟩
      cases kept with
      | nil => cases h
      | cons => exact Nat.succ_pos _
    split
    · rename_i _ hup
      have hnot : ¬ IsName s := fun h => h.2.2 hup
      simp only [hnot, false_and, and_false, or_false]
      match kept with
      | [] => simp
      | [last] => simp
      | last :: next :: rest => simp
    · rename_i hskip hup
      have hname : IsName s := ⟨fun h => hskip (.inl h), fun h => hskip (.inr h), hup⟩
      simp only [hname, true_and]
      cases kept with
      | nil => simp
      | cons last rest => simp

/-- What comes first in a cleaned rooted path. -/
theorem head?_cleanSegments : (cleanSegments true segs).head? = some seg ↔ Surfaces segs seg := by
  unfold cleanSegments
  rw [List.head?_reverse]
  exact getLast?_kept segs

/-- A cleaned path has no segments of its own. -/
theorem mem_cleanSegments {rooted : Bool} (h : seg ∈ cleanSegments rooted segs) : seg ∈ segs := by
  have hkept : ∀ kept, ∀ seg ∈ segs.foldl (pushSegment rooted) kept, seg ∈ kept ∨ seg ∈ segs := by
    clear h
    induction segs with
    | nil => exact fun kept seg h => .inl h
    | cons s segs ih =>
      intro kept seg h
      have hpush : ∀ seg ∈ pushSegment rooted kept s, seg ∈ kept ∨ seg = s := by
        intro seg h
        unfold pushSegment at h
        split at h
        · exact .inl h
        split at h
        · cases kept with
          | nil =>
            dsimp only at h
            split at h
            · exact absurd h List.not_mem_nil
            · exact .inr (List.mem_singleton.1 h)
          | cons last rest =>
            dsimp only at h
            split at h
            · exact (List.mem_cons.1 h).symm
            · exact .inl (List.mem_cons_of_mem _ h)
        · exact (List.mem_cons.1 h).symm
      rcases ih _ seg h with h | h
      · exact (hpush seg h).imp_right fun (h : seg = s) => h ▸ List.mem_cons_self ..
      · exact .inr (List.mem_cons_of_mem _ h)
  exact (hkept [] seg (List.mem_reverse.1 h)).resolve_left List.not_mem_nil

theorem not_mem_of_mem_splitOn {cs : List Char} {c : Char} (h : seg ∈ cs.splitOn c) : c ∉ seg := by
  induction cs generalizing seg with
  | nil =>
    rw [List.splitOn_nil, List.mem_singleton] at h
    rw [h]
    exact List.not_mem_nil
  | cons x cs ih =>
    rw [List.splitOn_cons_eq_if_modifyHead] at h
    obtain ⟨first, rest, hsplit⟩ := List.exists_cons_of_ne_nil (List.splitOn_ne_nil c cs)
    rw [hsplit] at h ih
    split at h
    · rcases List.mem_cons.1 h with rfl | h
      · exact List.not_mem_nil
      · exact ih h
    · rename_i hx
      rcases List.mem_cons.1 h with rfl | h
      · refine fun hc => (List.mem_cons.1 hc).elim (fun hc => hx (by simp [hc])) (ih (List.mem_cons_self ..))
      · exact ih (List.mem_cons_of_mem _ h)

theorem mem_of_mem_splitOn {cs : List Char} {c x : Char} (h : seg ∈ cs.splitOn c) (hx : x ∈ seg) : x ∈ cs := by
  induction cs generalizing seg with
  | nil =>
    rw [List.splitOn_nil, List.mem_singleton] at h
    rw [h] at hx
    exact absurd hx List.not_mem_nil
  | cons y cs ih =>
    rw [List.splitOn_cons_eq_if_modifyHead] at h
    obtain ⟨first, rest, hsplit⟩ := List.exists_cons_of_ne_nil (List.splitOn_ne_nil c cs)
    rw [hsplit] at h ih
    split at h
    · rcases List.mem_cons.1 h with rfl | h
      · exact absurd hx List.not_mem_nil
      · exact List.mem_cons_of_mem _ (ih h hx)
    · rcases List.mem_cons.1 h with rfl | h
      · rcases List.mem_cons.1 hx with rfl | hx
        · exact List.mem_cons_self ..
        · exact List.mem_cons_of_mem _ (ih (List.mem_cons_self ..) hx)
      · exact List.mem_cons_of_mem _ (ih (List.mem_cons_of_mem _ h) hx)

theorem Surfaces.isName (h : Surfaces segs seg) : IsName seg := by
  obtain ⟨pre, post, -, hname, -⟩ := h
  exact hname

/-- The segment that surfaces is one of the path's. -/
theorem Surfaces.mem (h : Surfaces segs seg) : seg ∈ segs := by
  obtain ⟨pre, post, rfl, -⟩ := h
  exact List.mem_append_right _ (List.mem_cons_self ..)

end First

/-! ## One segment behind another -/

/-- A name without a slash, as one segment of a path. -/
def IsSegment (seg : List Char) : Prop := IsName seg ∧ '/' ∉ seg

/-- The path ends with the segment. -/
def EndsWith (x seg : List Char) : Prop := x = seg ∨ ∃ y, x = y ++ '/' :: seg

section Join

variable {segs : List (List Char)} {a b x : List Char}

theorem cleanSegments_snoc (rooted : Bool) (h : IsName b) :
    cleanSegments rooted (segs ++ [b]) = cleanSegments rooted segs ++ [b] := by
  unfold cleanSegments
  rw [List.foldl_append]
  show (pushSegment rooted _ b).reverse = _
  unfold pushSegment
  rw [if_neg (not_or.2 ⟨h.1, h.2.1⟩), if_neg h.2.2, List.reverse_cons]

theorem intercalate_snoc (hsegs : segs ≠ []) :
    ['/'].intercalate (segs ++ [b]) = ['/'].intercalate segs ++ '/' :: b := by
  induction segs with
  | nil => exact absurd rfl hsegs
  | cons s segs ih =>
    cases segs with
    | nil =>
      rw [List.singleton_append, List.intercalate_cons_cons, List.intercalate_singleton, List.intercalate_singleton,
        List.append_assoc, List.singleton_append]
    | cons s' segs =>
      show ['/'].intercalate (s :: s' :: (segs ++ [b])) = _
      rw [List.intercalate_cons_cons, List.intercalate_cons_cons]
      have hih := ih (List.cons_ne_nil _ _)
      rw [List.cons_append] at hih
      rw [hih, List.append_assoc, List.append_assoc, List.append_assoc]

theorem EndsWith.cleanSegments (ha : IsSegment a) (hb : IsSegment b) (h : EndsWith x a) (rooted : Bool) :
    Go.cleanSegments rooted ((x ++ '/' :: b).splitOn '/') = Go.cleanSegments rooted (x.splitOn '/') ++ [b] ∧
    Go.cleanSegments rooted (x.splitOn '/') ≠ [] := by
  constructor
  · rw [List.splitOn_append_cons_self, List.splitOn_eq_singleton hb.2, cleanSegments_snoc rooted hb.1]
  · have hends : ∃ segs, x.splitOn '/' = segs ++ [a] := by
      rcases h with rfl | ⟨y, rfl⟩
      · exact ⟨[], List.splitOn_eq_singleton ha.2⟩
      · exact ⟨_, by rw [List.splitOn_append_cons_self, List.splitOn_eq_singleton ha.2]⟩
    obtain ⟨segs, hsegs⟩ := hends
    rw [hsegs, cleanSegments_snoc rooted ha.1]
    exact List.append_ne_nil_of_right_ne_nil _ (List.cons_ne_nil _ _)

theorem pathClean_relative (h : ∀ cs, x ≠ '/' :: cs) (hsegs : cleanSegments false (x.splitOn '/') ≠ []) :
    pathClean x = ['/'].intercalate (cleanSegments false (x.splitOn '/')) := by
  unfold pathClean
  split
  · exact absurd rfl (h _)
  · split
    · exact absurd ‹_› hsegs
    · rfl

/-- Behind a segment that stands for itself another one stays as it is. -/
theorem pathClean_snoc (ha : IsSegment a) (hb : IsSegment b) (h : EndsWith x a) :
    pathClean (x ++ '/' :: b) = pathClean x ++ '/' :: b := by
  by_cases hrooted : ∃ cs, x = '/' :: cs
  · obtain ⟨cs, rfl⟩ := hrooted
    have hends : EndsWith cs a := by
      rcases h with rfl | ⟨y, hy⟩
      · exact absurd (List.mem_cons_self ..) ha.2
      · cases y with
        | nil => exact .inl (List.cons.inj hy).2
        | cons c y => exact .inr ⟨y, (List.cons.inj hy).2⟩
    obtain ⟨hsnoc, hne⟩ := hends.cleanSegments ha hb true
    show '/' :: ['/'].intercalate (cleanSegments true ((cs ++ '/' :: b).splitOn '/')) = _
    rw [hsnoc, intercalate_snoc hne]
    rfl
  · have hx : ∀ cs, x ≠ '/' :: cs := fun cs hcs => hrooted ⟨cs, hcs⟩
    have hne' : x ≠ [] := by
      rintro rfl
      rcases h with h | ⟨y, hy⟩
      · exact ha.1.1 h.symm
      · exact List.append_ne_nil_of_right_ne_nil y (List.cons_ne_nil _ _) hy.symm
    have hx' : ∀ cs, x ++ '/' :: b ≠ '/' :: cs := by
      intro cs hcs
      cases x with
      | nil => exact hne' rfl
      | cons c x => exact hx x (by rw [(List.cons.inj hcs).1])
    obtain ⟨hsnoc, hne⟩ := h.cleanSegments ha hb false
    rw [pathClean_relative hx hne, pathClean_relative hx' (by rw [hsnoc]; simp), hsnoc, intercalate_snoc hne]

/-- Behind a segment that stands for itself another one is joined with a slash. -/
theorem joinPath_snoc {s t : String} (hs : IsSegment s.toList) (ht : IsSegment t.toList) (elems : List String) :
    joinPath (elems ++ [s, t]) = joinPath (elems ++ [s]) ++ '/' :: t.toList := by
  have hs' : s ≠ "" := fun h => hs.1.1 (by rw [h]; rfl)
  have hdrop : ∀ more, (elems ++ s :: more).dropWhile (· = "") = elems.dropWhile (· = "") ++ s :: more := by
    intro more
    induction elems with
    | nil => simp [hs']
    | cons e elems ih =>
      by_cases he : e = ""
      · simp [he, ih]
      · simp [he]
  have hclean : ∀ more, joinPath (elems ++ s :: more) =
      pathClean (['/'].intercalate ((elems.dropWhile (· = "") ++ s :: more).map String.toList)) := by
    intro more
    unfold joinPath
    rw [hdrop]
    split
    · simp at *
    · rfl
  rw [hclean, hclean, List.map_append, List.map_append]
  show pathClean (['/'].intercalate (_ ++ ([s.toList] ++ [t.toList]))) =
    pathClean (['/'].intercalate (_ ++ [s.toList])) ++ _
  generalize (elems.dropWhile (· = "")).map String.toList = segs
  rw [← List.append_assoc, intercalate_snoc (by simp)]
  refine pathClean_snoc hs ht ?_
  cases segs with
  | nil => exact .inl List.intercalate_singleton
  | cons seg segs => exact .inr ⟨_, intercalate_snoc (List.cons_ne_nil _ _)⟩

end Join

end Go
