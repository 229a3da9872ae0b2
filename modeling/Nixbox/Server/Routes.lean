/-
The routes of the service, as the mux dispatches to them: patterns over the unescaped segments of a cleaned
path. The gate in front reads the decoded path as a whole; nothing it takes for public is dispatched to
anything but the login page, the language picker and the static files, however the path is escaped.
-/
import Nixbox.Auth.Sessions
import Nixbox.Lib.Routes
import Nixbox.Server.SetLang

namespace Nixbox.Server

open Go Routes Percent
open UrlEncoded (Bytes)

/-! ## The table -/

/-- What is registered with the mux. -/
inductive RouteHandler
  | static
  | dashboard
  | loginPage
  | loginSubmit
  | logout
  | setLang
  | workloadList
  | workloadNew
  | workloadFields
  | workloadCreate
  | workloadDetail
  | workloadLogs
  | workloadTerminal
  | workloadMetrics
  | workloadSave
  | workloadValidate
  | workloadEnable
  | workloadDisable
  | workloadApply
  | workloadRename
  | workloadDestroy
  | workloadRestore
  | workloadSecretCreate
  | workloadSecretAttach
  | workloadSecretDetach
  | workloadLifecycle
  | flakeList
  | flakeCreate
  | flakeApply
  | flakeSave
  | flakeDelete
  | secretList
  | secretCreate
  | secretApply
  | secretSave
  | secretDelete
  | terminalPage
  | hostTerminal
  | system
  | rebuild
  | reboot
  | poweroff
  | jobLogFragment
  | jobEvents
  | metrics
  deriving DecidableEq, Repr

/-- What `New` registers. -/
def registered : List (String × RouteHandler) := [
  ("GET /static/", .static),
  ("GET /\x7b$\x7d", .dashboard),
  ("GET /login", .loginPage),
  ("POST /login", .loginSubmit),
  ("POST /logout", .logout),
  ("POST /lang", .setLang),
  ("GET /partials/workloads", .workloadList),
  ("GET /workloads/new", .workloadNew),
  ("GET /partials/workload-fields", .workloadFields),
  ("POST /workloads", .workloadCreate),
  ("GET /workloads/\x7bname\x7d", .workloadDetail),
  ("GET /workloads/\x7bname\x7d/logs", .workloadLogs),
  ("GET /events/workloads/\x7bname\x7d/terminal", .workloadTerminal),
  ("GET /events/workloads/\x7bname\x7d/metrics", .workloadMetrics),
  ("POST /workloads/\x7bname\x7d/save", .workloadSave),
  ("POST /workloads/\x7bname\x7d/validate", .workloadValidate),
  ("POST /workloads/\x7bname\x7d/enable", .workloadEnable),
  ("POST /workloads/\x7bname\x7d/disable", .workloadDisable),
  ("POST /workloads/\x7bname\x7d/apply", .workloadApply),
  ("POST /workloads/\x7bname\x7d/rename", .workloadRename),
  ("POST /workloads/\x7bname\x7d/destroy", .workloadDestroy),
  ("POST /workloads/\x7bname\x7d/revisions/\x7bid\x7d/restore", .workloadRestore),
  ("POST /workloads/\x7bname\x7d/secrets", .workloadSecretCreate),
  ("POST /workloads/\x7bname\x7d/secrets/attach", .workloadSecretAttach),
  ("POST /workloads/\x7bname\x7d/secrets/detach", .workloadSecretDetach),
  ("POST /workloads/\x7bname\x7d/\x7bverb\x7d", .workloadLifecycle),
  ("GET /flakes", .flakeList),
  ("POST /flakes", .flakeCreate),
  ("POST /flakes/apply", .flakeApply),
  ("POST /flakes/\x7bname\x7d/save", .flakeSave),
  ("POST /flakes/\x7bname\x7d/delete", .flakeDelete),
  ("GET /secrets", .secretList),
  ("POST /secrets", .secretCreate),
  ("POST /secrets/apply", .secretApply),
  ("POST /secrets/\x7bname\x7d/save", .secretSave),
  ("POST /secrets/\x7bname\x7d/delete", .secretDelete),
  ("GET /terminal", .terminalPage),
  ("GET /terminal/ws", .hostTerminal),
  ("GET /system", .system),
  ("POST /system/rebuild", .rebuild),
  ("POST /system/reboot", .reboot),
  ("POST /system/poweroff", .poweroff),
  ("GET /system/jobs/\x7bid\x7d/log", .jobLogFragment),
  ("GET /events/jobs/\x7bid\x7d", .jobEvents),
  ("GET /events/metrics", .metrics)]

/-- One segment of a pattern: a wildcard in braces, or bytes. -/
def parseSegment (seg : List Char) : Seg Bytes :=
  if seg = [] then .rest
  else if seg = ['\x7b', '$', '\x7d'] then .lit [slash]
  else if seg.head? = some '\x7b' then (if ['.', '.', '.', '\x7d'] <:+ seg then .rest else .any)
  else .lit (seg.map fun c => c.toNat.toUInt8)

/-- `parsePattern`: the method, and the segments; none of the patterns has a host or a percent sign. -/
def parsePattern (s : String) : String × Pattern Bytes :=
  let cs := s.toList
  let method := if ' ' ∈ cs then cs.takeWhile (· ≠ ' ') else []
  let path := if ' ' ∈ cs then (cs.dropWhile (· ≠ ' ')).drop 1 else cs
  (String.ofList method, ((path.drop 1).splitOn '/').map parseSegment)

/-! ## The mux -/

/-- `pathUnescape`: what is not escaped properly is left as it is. -/
def pathUnescape (s : Bytes) : Bytes := (unescape s).getD s

/-- A last segment without bytes is a slash at the end. -/
def readSegments : List Bytes → List Bytes
  | [] => []
  | [[]] => [[slash]]
  | seg :: segs => pathUnescape seg :: readSegments segs

/-- The segments that `firstSegment` takes off one after the other. -/
def segments (path : Bytes) : List Bytes := if path = [] then [] else readSegments ((path.drop 1).splitOn slash)

/-- A wildcard does not stand for a slash at the end. -/
def single (seg : Bytes) : Bool := seg ≠ [slash]

/-- `cleanPath`. -/
def cleanPath (p : Bytes) : Bytes :=
  let p := if p.head? = some slash then p else slash :: p
  let np := bytesOf (String.ofList (pathClean (p.map toChar)))
  if p.getLast? = some slash ∧ np ≠ [slash] then np ++ [slash] else np

/-- What the mux does with a request. -/
inductive Outcome
  | handled (h : RouteHandler)
  | movedPermanently
  | methodNotAllowed
  | notFound
  deriving DecidableEq, Repr

/-- A leaf of the tree: its pattern and its handler. -/
abbrev Node := Pattern Bytes × RouteHandler

/-- The patterns of a method; that of those without one is empty. -/
def patternsOf (t : List (String × RouteHandler)) (method : String) : Table Bytes Node :=
  (t.filter fun e => (parsePattern e.1).1 = method).map fun e => ((parsePattern e.1).2, (parsePattern e.1).2, e.2)

/-- `exactMatch`: no wildcard stands for what follows a slash at the end. -/
def exactMatch (n : Option Node) (path : Bytes) : Bool :=
  match n with
  | none => false
  | some (p, _) => p.getLast? ≠ some .rest || (path.getLast? = some slash && p.length == path.count slash)

section Mux

variable (t : List (String × RouteHandler)) (method : String)

/-- `matchMethodAndPath`. -/
def find (path : Bytes) : Option Node :=
  (route single (patternsOf t method) (segments path)).or
    ((if method = "HEAD" then route single (patternsOf t "GET") (segments path) else none).or
      (route single (patternsOf t "") (segments path)))

/-- `matchOrRedirect` redirects: the path is found with a slash behind it. -/
def redirects (path : Bytes) : Bool :=
  !exactMatch (find t method path) path && path.getLast? ≠ some slash &&
    exactMatch (find t method (path ++ [slash])) (path ++ [slash])

/-- `matchingMethods` finds one. -/
def allowed (path : Bytes) : Bool := t.any fun e => (parsePattern e.1).1 ≠ "" &&
  ((route single (patternsOf t (parsePattern e.1).1) (segments path)).isSome ||
    (path.getLast? ≠ some slash && (route single (patternsOf t (parsePattern e.1).1)
      (segments (path ++ [slash]))).isSome))

/-- `findHandler`, for the patterns registered. -/
def mux (u : Url) : Outcome :=
  let path := if method = "CONNECT" then u.escapedPath else cleanPath u.escapedPath
  if redirects t method path || path ≠ u.escapedPath then .movedPermanently
  else match find t method path with
    | some n => .handled n.2
    | none => if allowed t path then .methodNotAllowed else .notFound

end Mux

/-! ## The table is in order -/

/-- What the service answers without a session. -/
def openHandlers : List RouteHandler := [.static, .loginPage, .loginSubmit, .setLang]

/-- The first segments the gate takes for public. -/
def openSegments : List Bytes := [bytesOf "login", bytesOf "lang", bytesOf "static"]

/-- The pattern begins with a literal, and with one of the gate's only where its handler is open. -/
def Headed (e : String × RouteHandler) : Prop :=
  match (parsePattern e.1).2 with
  | .lit s :: _ => s = [slash] ∨ (slash ∉ s ∧ (s ∈ openSegments → e.2 ∈ openHandlers))
  | _ => False

instance (e : String × RouteHandler) : Decidable (Headed e) := by
  unfold Headed
  split <;> infer_instance

/-- The patterns of the service are pairwise different and nest, each with a method; one of them is for verbs. -/
structure Orderly (t : List (String × RouteHandler)) : Prop where
  headed : ∀ e ∈ t, Headed e
  methods : ∀ e ∈ t, (parsePattern e.1).1 = "GET" ∨ (parsePattern e.1).1 = "POST"
  nodup : (t.map fun e => parsePattern e.1).Nodup
  nested : ∀ m ∈ ["GET", "POST"], Nested single (patternsOf t m)
  lifecycle : ∀ e ∈ t, e.2 = .workloadLifecycle → (parsePattern e.1).2 = [.lit (bytesOf "workloads"), .any, .any]

theorem registered_orderly : Orderly registered := by
  -- in one, so that each text is read once
  have hchecks : (∀ e ∈ registered, Headed e) ∧
      (∀ e ∈ registered, (parsePattern e.1).1 = "GET" ∨ (parsePattern e.1).1 = "POST") ∧
      (registered.map fun e => parsePattern e.1).Nodup ∧
        (∀ m ∈ ["GET", "POST"], Nested single (patternsOf registered m)) ∧
      ∀ e ∈ registered, e.2 = .workloadLifecycle →
        (parsePattern e.1).2 = [.lit (bytesOf "workloads"), .any, .any] := by
    decide +kernel
  exact ⟨hchecks.1, hchecks.2.1, hchecks.2.2.1, hchecks.2.2.2.1, hchecks.2.2.2.2⟩

/-! ## Where a path leads -/

section Patterns

variable {t : List (String × RouteHandler)}
  {method : String} {path : Bytes} {n : Node} {p : Pattern Bytes} {m : String}

theorem mem_patternsOf : (p, n) ∈ patternsOf t m ↔ ∃ e ∈ t, parsePattern e.1 = (m, p) ∧ n = (p, e.2) := by
  unfold patternsOf
  rw [List.mem_map]
  constructor
  · rintro ⟨e, he, heq⟩
    obtain ⟨hmem, hm⟩ := List.mem_filter.1 he
    cases heq
    exact ⟨e, hmem, Prod.ext (of_decide_eq_true hm) rfl, rfl⟩
  · rintro ⟨e, he, hparse, rfl⟩
    refine ⟨e, List.mem_filter.2 ⟨he, by rw [hparse]; exact decide_eq_true rfl⟩, ?_⟩
    rw [hparse]

theorem patternsOf_nodup (hnd : (t.map fun e => parsePattern e.1).Nodup) (m : String) :
    ((patternsOf t m).map (·.1)).Nodup := by
  have hmap : (patternsOf t m).map (·.1) =
      ((t.map fun e => parsePattern e.1).filter fun e => e.1 = m).map (·.2) := by
    unfold patternsOf
    rw [List.map_map, List.filter_map, List.map_map]
    rfl
  rw [hmap]
  refine (hnd.filter _).map_on fun a ha b hb heq => Prod.ext ?_ heq
  have hm : ∀ e ∈ (t.map fun e => parsePattern e.1).filter fun e => e.1 = m, e.1 = m := fun e he =>
    of_decide_eq_true (List.mem_filter.1 he).2
  exact (hm a ha).trans (hm b hb).symm

/-- A method no pattern has leads nowhere. -/
theorem patternsOf_registered (h : m ∉ ["GET", "POST"]) : patternsOf registered m = [] := by
  unfold patternsOf
  rw [List.filter_eq_nil_iff.2 fun e he hm => h ?_, List.map_nil]
  rw [← of_decide_eq_true hm]
  rcases registered_orderly.methods e he with hget | hpost
  · rw [hget]
    exact List.mem_cons_self ..
  · rw [hpost]
    exact List.mem_cons_of_mem _ (List.mem_cons_self ..)

/-- A path is found as one of the patterns of its method, or of GET where that is HEAD. -/
theorem find_route (h : find registered method path = some n) : ∃ m ∈ ["GET", "POST"],
    (m = method ∨ (m = "GET" ∧ method = "HEAD")) ∧ route single (patternsOf registered m)
    (segments path) = some n := by
  have hlisted : ∀ m, route single (patternsOf registered m) (segments path) = some n → m ∈ ["GET", "POST"] := by
    intro m hm
    by_contra hnot
    rw [patternsOf_registered hnot] at hm
    obtain ⟨p, hp, -⟩ := route_some hm
    exact absurd hp List.not_mem_nil
  unfold find at h
  rw [Option.or_eq_some_iff, Option.or_eq_some_iff] at h
  rcases h with h | ⟨-, h | ⟨-, h⟩⟩
  · exact ⟨method, hlisted _ h, .inl rfl, h⟩
  · split at h
    · exact ⟨"GET", List.mem_cons_self .., .inr ⟨rfl, ‹_›⟩, h⟩
    · cases h
  · exact absurd (hlisted "" h) (by decide)

end Patterns

/-! ## The order of registration -/

section Order

variable {t : List (String × RouteHandler)} {method : String} {u : Url}

theorem find_perm (hperm : t.Perm registered) (path : Bytes) : find t method path = find registered method path := by
  have hroute : ∀ m, route single (patternsOf t m) (segments path) =
      route single (patternsOf registered m) (segments path) :=
    fun m => (route_perm ((hperm.symm.filter _).map _) (patternsOf_nodup registered_orderly.nodup m) _).symm
  unfold find
  simp only [hroute]

theorem allowed_perm (hperm : t.Perm registered) (path : Bytes) : allowed t path = allowed registered path := by
  have hroute : ∀ m path, route single (patternsOf t m) path = route single (patternsOf registered m) path :=
    fun m path => (route_perm ((hperm.symm.filter _).map _) (patternsOf_nodup registered_orderly.nodup m) _).symm
  unfold allowed
  simp only [hroute]
  exact hperm.any_eq

theorem mux_perm (hperm : t.Perm registered) : mux t method u = mux registered method u := by
  unfold mux redirects
  simp only [find_perm hperm, allowed_perm hperm]

theorem mux_handled {h : RouteHandler} (hmux : mux t method u = .handled h) : ∃ p,
    find t method u.escapedPath = some (p, h) ∧ (method = "CONNECT" ∨ cleanPath u.escapedPath = u.escapedPath) := by
  unfold mux at hmux
  dsimp only at hmux
  generalize hpath : (if method = "CONNECT" then u.escapedPath else cleanPath u.escapedPath) = path at hmux
  by_cases hmoved : (redirects t method path || decide (path ≠ u.escapedPath)) = true
  · rw [if_pos hmoved] at hmux
    cases hmux
  obtain rfl : path = u.escapedPath := by
    by_contra hne
    exact hmoved (by rw [decide_eq_true hne, Bool.or_true])
  rw [if_neg hmoved] at hmux
  cases hfind : find t method u.escapedPath with
  | none =>
    rw [hfind] at hmux
    dsimp only at hmux
    split at hmux <;> cases hmux
  | some n =>
    rw [hfind] at hmux
    cases hmux
    refine ⟨n.1, rfl, ?_⟩
    split at hpath
    · exact .inl ‹_›
    · exact .inr hpath

end Order

/-- A path that is taken for a verb names no literal. -/
theorem verb_free {t : Table Bytes Node} {w : Bytes} {s : List Bytes}
    (hp : Matches single [.lit w, .any, .any] s = true)
    (hleast : ∀ q n, (q, n) ∈ t → Matches single q s = true →
      ∀ s', Matches single [.lit w, .any, .any] s' = true → Matches single q s' = true) :
    ∃ name verb, s = [w, name, verb] ∧ ∀ n, ([.lit w, .any, .lit verb], n) ∉ t := by
  obtain ⟨_, rfl, hrest⟩ := matches_lit_iff.1 hp
  obtain ⟨name, _, rfl, hname, hrest⟩ := matches_any_iff.1 hrest
  obtain ⟨verb, _, rfl, -, hrest⟩ := matches_any_iff.1 hrest
  obtain rfl := matches_nil_iff.1 hrest
  refine ⟨name, verb, rfl, fun n hmem => ?_⟩
  -- another verb
  have hother : Matches single [.lit w, .any, .any] [w, name, 0 :: 0 :: verb] = true := by
    rw [matches_lit, matches_any hname, matches_any (by simp [single])]
    rfl
  have htaken := hleast _ n hmem (by rw [matches_lit, matches_any hname, matches_lit]; rfl) _ hother
  rw [matches_lit, matches_any hname] at htaken
  obtain ⟨_, hverb, -⟩ := matches_lit_iff.1 htaken
  have hlen := congrArg List.length (List.cons.inj hverb).1
  rw [List.length_cons, List.length_cons] at hlen
  omega

/-- In whichever order the patterns are registered, a request is dispatched in the same way: to the handler of
a pattern that takes its path, and takes no other path that another pattern which takes it does not take. So
what a literal names is never taken for a verb. -/
theorem dispatch_mostSpecific {t : List (String × RouteHandler)} (hperm : t.Perm registered)
    (method : String) (u : Url) :
    mux t method u = mux registered method u ∧ ∀ h, mux t method u = .handled h → ∃ m p s,
      s = segments u.escapedPath ∧ (m = method ∨ (m = "GET" ∧ method = "HEAD")) ∧
      (p, p, h) ∈ patternsOf t m ∧
      Matches single p s = true ∧
      (∀ q n, (q, n) ∈ patternsOf t m → Matches single q s = true →
        ∀ s', Matches single p s' = true → Matches single q s' = true) ∧
      (h = .workloadLifecycle → ∃ name verb, s = [bytesOf "workloads", name, verb] ∧
        ∀ n, ([.lit (bytesOf "workloads"), .any, .lit verb], n) ∉ patternsOf t m) := by
  refine ⟨mux_perm hperm, fun h hmux => ?_⟩
  rw [mux_perm hperm] at hmux
  obtain ⟨p, hfind, -⟩ := mux_handled hmux
  obtain ⟨m, hm, hmethod, hroute⟩ := find_route hfind
  obtain ⟨q, hmem, hq, hleast⟩ := route_least (registered_orderly.nested m hm) hroute
  obtain ⟨e, he, hparse, hnode⟩ := mem_patternsOf.1 hmem
  cases hnode
  have hiff : ∀ x, x ∈ patternsOf t m ↔ x ∈ patternsOf registered m := fun x => ((hperm.filter _).map _).mem_iff
  have hleast' : ∀ q n, (q, n) ∈ patternsOf t m → _ := fun q n hq => hleast q n ((hiff _).1 hq)
  refine ⟨m, p, _, rfl, hmethod, (hiff _).2 hmem, hq, hleast', fun hverb => ?_⟩
  obtain rfl : p = _ := (congrArg Prod.snd hparse).symm.trans (registered_orderly.lifecycle e he hverb)
  exact verb_free hq hleast'

theorem dispatch_mostSpecific_reverse :
    ∃ m p s, s = segments (Url.escapedPath { path := bytesOf "/workloads/web/start" }) ∧
    (m = "POST" ∨ (m = "GET" ∧ "POST" = "HEAD")) ∧
      (p, p, .workloadLifecycle) ∈ patternsOf registered.reverse m ∧
      Matches single p s = true ∧
      (∀ q n, (q, n) ∈ patternsOf registered.reverse m → Matches single q s = true →
        ∀ s', Matches single p s' = true → Matches single q s' = true) ∧
      (RouteHandler.workloadLifecycle = .workloadLifecycle → ∃ name verb, s = [bytesOf "workloads", name, verb] ∧
        ∀ n, ([.lit (bytesOf "workloads"), .any, .lit verb], n) ∉ patternsOf registered.reverse m) :=
  (dispatch_mostSpecific (List.reverse_perm registered) "POST" { path := bytesOf "/workloads/web/start" }).2 _
    (by decide +kernel)

/-! ## Past the gate -/

section Gate

variable {p d rest : Bytes} {path : String}

theorem readSegments_cons {seg : Bytes} {segs : List Bytes} (h : segs ≠ []) :
    readSegments (seg :: segs) = pathUnescape seg :: readSegments segs := by
  cases segs with
  | nil => exact absurd rfl h
  | cons => cases seg <;> rfl

theorem cleanPath_head (p : Bytes) : ∃ rest, cleanPath p = slash :: rest := by
  obtain ⟨q, hq⟩ : ∃ q, (if p.head? = some slash then p else slash :: p) = slash :: q := by
    split
    · exact List.head?_eq_some_iff.1 ‹_›
    · exact ⟨p, rfl⟩
  have hrooted : ∃ np, bytesOf (String.ofList (pathClean ((slash :: q).map toChar))) = slash :: np := by
    obtain ⟨cs, hcs⟩ : ∃ cs, pathClean ((slash :: q).map toChar) = '/' :: cs := ⟨_, rfl⟩
    rw [hcs, bytesOf, String.toList_ofList]
    exact ⟨_, rfl⟩
  obtain ⟨np, hnp⟩ := hrooted
  unfold cleanPath
  dsimp only
  rw [hq, hnp]
  split
  · exact ⟨_, rfl⟩
  · exact ⟨_, rfl⟩

/-- The first segment, and what the path is when it is read as a whole. -/
theorem segments_head (h : unescape rest = some d) : ∃ s segs, segments (slash :: rest) = s :: segs ∧
    ((s = [slash] ∧ d = []) ∨ d = s ∨ ∃ y, d = s ++ slash :: y) := by
  have hsegs : segments (slash :: rest) = readSegments (rest.splitOn slash) := if_neg (List.cons_ne_nil _ _)
  rw [hsegs]
  by_cases hslash : slash ∈ rest
  · obtain ⟨a, b, rfl, ha⟩ := List.eq_append_cons_of_mem hslash
    rw [unescape_append_cons rfl (by decide)] at h
    obtain ⟨x, hx, h⟩ := Option.bind_eq_some_iff.1 h
    obtain ⟨y, -, rfl⟩ := Option.map_eq_some_iff.1 h
    have hx' : pathUnescape a = x := by rw [pathUnescape, hx]; rfl
    obtain ⟨seg, segs, hsplit⟩ := List.exists_cons_of_ne_nil (List.splitOn_ne_nil slash b)
    rw [List.splitOn_append_cons_self, List.splitOn_eq_singleton ha, hsplit]
    exact ⟨x, _, by rw [List.singleton_append, readSegments_cons (List.cons_ne_nil _ _), hx'],
      .inr (.inr ⟨y, rfl⟩)⟩
  · rw [List.splitOn_eq_singleton hslash]
    cases rest with
    | nil =>
      cases h
      exact ⟨_, _, rfl, .inl ⟨rfl, rfl⟩⟩
    | cons b rest => exact ⟨_, _, rfl, .inr (.inl (by rw [pathUnescape, h]; rfl))⟩

theorem latin1_eq {s : String} (h : latin1 p = s) : p = bytesOf s := by
  rw [← h, bytesOf_latin1]

/-- A path the gate takes for public begins with one of its segments. -/
theorem publicPath_head (h : Auth.publicPath (latin1 (slash :: d)) = true) :
    d.takeWhile (· ≠ slash) ∈ openSegments := by
  unfold Auth.publicPath at h
  rw [Bool.or_eq_true, Bool.or_eq_true, beq_iff_eq, beq_iff_eq] at h
  rcases h with (h | h) | h
  · obtain rfl := (List.cons.inj (latin1_eq h)).2
    decide
  · obtain rfl := (List.cons.inj (latin1_eq h)).2
    decide
  · obtain ⟨cs, hcs⟩ := List.isPrefixOf_iff_prefix.1 h
    obtain ⟨y, hy⟩ : ∃ y, slash :: d = bytesOf "/static/" ++ y := by
      refine ⟨bytesOf (String.ofList cs), ?_⟩
      rw [← bytesOf_append, ← bytesOf_latin1 (slash :: d)]
      congr 1
      rw [← String.toList_inj, ← hcs, String.toList_append, String.toList_ofList (l := cs)]
    obtain rfl : d = bytesOf "static/" ++ y := (List.cons.inj hy).2
    exact List.mem_cons_of_mem _ (List.mem_cons_of_mem _ (List.mem_cons_self ..))

/-- However its path is escaped, a request the gate takes for public is handled by an open handler. -/
theorem handled_open {method : String} {u : Url} {h : RouteHandler} (hmux : mux registered method u = .handled h)
    (hpath : Auth.publicPath (latin1 u.path) = true) : h ∈ openHandlers := by
  obtain ⟨p, hfind, hclean⟩ := mux_handled hmux
  obtain ⟨m, hm, hmethod, hroute⟩ := find_route hfind
  obtain ⟨q, hmem, hq, -⟩ := route_some hroute
  obtain ⟨e, he, hparse, hnode⟩ := mem_patternsOf.1 hmem
  cases hnode
  obtain ⟨rest, hrest⟩ : ∃ rest, u.escapedPath = slash :: rest := by
    rcases hclean with rfl | hclean
    · rcases hmethod with rfl | ⟨-, hhead⟩
      · exact absurd hm (by decide)
      · exact absurd hhead (by decide)
    · rw [← hclean]
      exact cleanPath_head _
  -- the path as the gate reads it
  have hread := u.unescape_escapedPath
  rw [hrest, unescape_cons (by decide)] at hread
  obtain ⟨d, hd, hread⟩ := Option.map_eq_some_iff.1 hread
  rw [← hread] at hpath
  have hopen := publicPath_head hpath
  obtain ⟨s, segs, hsegs, hs⟩ := segments_head hd
  rw [hrest, hsegs] at hq
  have hheaded := registered_orderly.headed e he
  unfold Headed at hheaded
  rw [hparse] at hheaded
  split at hheaded
  · rename_i s' q' hq'
    dsimp only at hq'
    subst hq'
    obtain ⟨_, hcons, -⟩ := matches_lit_iff.1 hq
    obtain ⟨rfl, -⟩ := List.cons.inj hcons
    rcases hheaded with rfl | ⟨hslash, hheaded⟩
    · have hnil : d.takeWhile (· ≠ slash) = [] := by
        rcases hs with ⟨-, rfl⟩ | rfl | ⟨y, rfl⟩ <;> rfl
      rw [hnil] at hopen
      exact absurd hopen (by decide)
    · refine hheaded ?_
      have hpass : ∀ b ∈ s, decide (b ≠ slash) = true := fun b hb => decide_eq_true fun heq => hslash (heq ▸ hb)
      rcases hs with ⟨rfl, -⟩ | rfl | ⟨y, rfl⟩
      · exact absurd (List.mem_cons_self ..) hslash
      · rwa [List.takeWhile_eq_self_iff.2 hpass] at hopen
      · rwa [List.takeWhile_append_of_pos hpass, List.takeWhile_cons_of_neg (by simp), List.append_nil] at hopen
  · exact hheaded.elim

/-- In every run, a request that reaches a handler other than the open ones does so with the token of a login
that was let in, while its session runs, and as that login's user, however its path is escaped. -/
theorem routes_guarded {srv : Auth.Server} {l : Auth.Limiter} {t : Auth.Time} {h : Auth.Host} {ms : List Auth.Move}
    {p : Auth.Pool} (hauth : srv.authn = true) (hd : Auth.Distinct srv h)
    (hu : Runs.Along (Auth.step srv) (Auth.Unguessed srv h) (.fresh (.fresh l t h)) ms)
    (hrun : Auth.run srv (.fresh (.fresh l t h)) ms = some p) {pre post : List Auth.Event} {e : Auth.Event}
    {username method : String} {u : Url} {handler : RouteHandler} (hlog : p.log = pre ++ e :: post)
    (he : e.toExchange = ⟨.serveHTTP username, ()⟩) (hpath : e.tag.path = latin1 u.path)
    (hmux : mux registered method u = .handled handler) :
    handler ∈ openHandlers ∨ Auth.Justified srv pre e username := by
  cases hpub : Auth.publicPath e.tag.path with
  | true =>
    rw [hpath] at hpub
    exact .inl (handled_open hmux hpub)
  | false =>
    have hsound : Auth.Sound srv h p :=
      Runs.exec_inv (I := Auth.Sound srv h) (fun _ _ _ hu hs hstep => hs.step hd hu hstep) hu
        (Auth.sound_fresh srv l t h) hrun
    exact .inr (hsound.justified hauth hlog he hpub)

theorem routes_guarded_visited : RouteHandler.dashboard ∈ openHandlers ∨ Auth.Justified Auth.exampleServer
    (Auth.visited.log.take 14) (Auth.visited.log.get ⟨14, by rw [Auth.length_visited]; decide⟩) "alice" := by
  have hsplit : Auth.visited.log = Auth.visited.log.take 14 ++
      Auth.visited.log.get ⟨14, by rw [Auth.length_visited]; decide⟩ :: Auth.visited.log.drop 15 := by
    rw [List.get_eq_getElem, List.getElem_cons_drop, List.take_append_drop]
  have hmux : mux registered "GET" { path := bytesOf "/" } = .handled .dashboard := by decide +kernel
  exact routes_guarded rfl Auth.distinct_example Auth.unguessed_lateVisit Auth.run_visited hsplit
    (Auth.toExchange_of_reaches (by decide +kernel)) (by decide +kernel) hmux

end Gate

end Nixbox.Server
