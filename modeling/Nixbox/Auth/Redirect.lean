/-
Where a login leads: the guard on the posted target, and the cleaning the redirect does after it.
The guard looks at the first two characters; a path can be cleaned into one that it would refuse.
-/
import Nixbox.Auth.Serve

namespace Nixbox.Auth

open Effect Prog Go

/-! ## Definitions -/

/-- A Location as a browser reads it: tabs and newlines dropped, each backslash a slash. -/
def browserRead (loc : String) : List Char :=
  (loc.toList.filter fun c => c ∉ ['\t', '\n', '\r']).map fun c => if c = '\\' then '/' else c

/-- Read so, the Location starts with one slash and no second one. -/
def staysOnSite (loc : String) : Bool :=
  match browserRead loc with
  | '/' :: c :: _ => c != '/'
  | ['/'] => true
  | _ => false

/-- The segments of a target's path, after its first slash. -/
def segments (next : String) : List (List Char) :=
  ((next.toList.takeWhile (· ≠ '?')).drop 1).splitOn '/'

/-- The target passes the guard and parses, and a segment that begins with a backslash comes first
once `.`, `..` and empty segments are resolved. -/
def Escapes (srv : Server) (next : String) : Prop :=
  isLocalURL next = true ∧ (srv.urlParse next).isSome = true ∧
    ∃ seg, Surfaces (segments next) seg ∧ seg.head? = some '\\'

/-! ## The guard and the cleaning -/

section Targets

variable {next : String}

theorem isLocalURL_iff : isLocalURL next = true ↔ (∀ c ∈ next.toList, isControl c = false) ∧
    ∃ cs, next.toList = '/' :: cs ∧ cs.head? ≠ some '/' ∧ cs.head? ≠ some '\\' := by
  unfold isLocalURL containsFunc hasPrefix
  rw [show "/".toList = ['/'] from rfl, show "//".toList = ['/', '/'] from rfl,
    show "/\\".toList = ['/', '\\'] from rfl]
  split
  · rename_i hctl
    obtain ⟨c, hc, hctl⟩ := List.any_eq_true.1 hctl
    refine ⟨nofun, fun h => ?_⟩
    rw [h.1 c hc] at hctl
    cases hctl
  · rename_i hctl
    have hctl : ∀ c ∈ next.toList, ¬ isControl c = true := by simpa using hctl
    simp only [Bool.and_eq_true, Bool.not_eq_true', ← Bool.not_eq_true, List.isPrefixOf_iff_prefix, and_assoc]
    constructor
    · rintro ⟨⟨cs, hcs⟩, hslash, hback⟩
      refine ⟨hctl, cs, hcs.symm, fun h => hslash ?_, fun h => hback ?_⟩
      all_goals
        obtain ⟨cs', rfl⟩ := List.head?_eq_some_iff.1 h
        exact ⟨cs', hcs⟩
    · rintro ⟨-, cs, hcs, hslash, hback⟩
      rw [hcs]
      refine ⟨⟨cs, rfl⟩, ?_, ?_⟩
      · rintro ⟨cs', h⟩
        cases h
        exact hslash rfl
      · rintro ⟨cs', h⟩
        cases h
        exact hback rfl

theorem not_control_kept {c : Char} (h : isControl c = false) : c ∉ ['\t', '\n', '\r'] := by
  rintro hc
  simp only [List.mem_cons, List.not_mem_nil, or_false] at hc
  rcases hc with rfl | rfl | rfl <;> cases h

/-- After the slash it is the next character that decides. -/
theorem staysOnSite_slash {l : List Char} (h : ∀ c, l.head? = some c → isControl c = false) :
    staysOnSite (String.ofList ('/' :: l)) = true ↔ l.head? ≠ some '/' ∧ l.head? ≠ some '\\' := by
  unfold staysOnSite browserRead
  rw [String.toList_ofList]
  cases l with
  | nil => exact ⟨fun _ => ⟨nofun, nofun⟩, fun _ => rfl⟩
  | cons c cs =>
    have hc := not_control_kept (h c rfl)
    rw [List.filter_cons_of_pos (by decide), List.filter_cons_of_pos (by simpa using hc)]
    simp only [List.map_cons, List.head?_cons, Option.some.injEq, ne_eq]
    by_cases hb : c = '\\'
    · subst hb
      simp
    · simp [hb]

/-- The path of a target, cleaned: what comes after its slash begins as the first segment does. -/
theorem cleanKeepingSlash_slash (p : List Char) : ∃ l, cleanKeepingSlash ('/' :: p) = '/' :: l ∧
    (∀ seg, Surfaces (p.splitOn '/') seg → l.head? = seg.head?) ∧
      ((∀ seg, ¬ Surfaces (p.splitOn '/') seg) → l = []) := by
  have hclean : pathClean ('/' :: p) = '/' :: ['/'].intercalate (cleanSegments true (p.splitOn '/')) := rfl
  cases hsegs : cleanSegments true (p.splitOn '/') with
  | nil =>
    refine ⟨[], ?_, fun seg h => ?_, fun _ => rfl⟩
    · unfold cleanKeepingSlash
      rw [hclean, hsegs]
      exact if_neg fun h => h.2 rfl
    · rw [← head?_cleanSegments, hsegs] at h
      cases h
  | cons s rest =>
    have hfirst : Surfaces (p.splitOn '/') s := head?_cleanSegments.1 (by rw [hsegs]; rfl)
    obtain ⟨c, cs, rfl⟩ := List.exists_cons_of_ne_nil hfirst.isName.1
    obtain ⟨tail, htail⟩ : ∃ tail, ['/'].intercalate ((c :: cs) :: rest) = c :: tail := by
      cases rest with
      | nil => exact ⟨cs, by simp⟩
      | cons s' rest => exact ⟨_, by rw [List.intercalate_cons_cons]; rfl⟩
    have huniq : ∀ seg, Surfaces (p.splitOn '/') seg → seg = c :: cs := by
      intro seg h
      rw [← head?_cleanSegments, hsegs] at h
      exact (Option.some.inj h).symm
    unfold cleanKeepingSlash
    rw [hclean, hsegs, htail]
    dsimp only
    split
    · exact ⟨c :: tail ++ ['/'], rfl, fun seg h => by rw [huniq seg h]; rfl, fun h => absurd hfirst (h _)⟩
    · exact ⟨c :: tail, rfl, fun seg h => by rw [huniq seg h]; rfl, fun h => absurd hfirst (h _)⟩

/-- A path cleaned, and a query behind it: it is the segment that comes first that decides. -/
theorem cleaned_staysOnSite {cs query : List Char} (hctl : ∀ c ∈ cs, isControl c = false)
    (hquery : ∀ c, query.head? = some c → c = '?') :
    staysOnSite (String.ofList (cleanKeepingSlash ('/' :: cs) ++ query)) = true ↔
      ¬ ∃ seg, Surfaces (cs.splitOn '/') seg ∧ seg.head? = some '\\' := by
  obtain ⟨l, hl, hfirst, hnone⟩ := cleanKeepingSlash_slash cs
  rw [hl, List.cons_append]
  -- the path after cleaning begins with the segment that surfaces, if one does
  by_cases hsurf : ∃ seg, Surfaces (cs.splitOn '/') seg
  · obtain ⟨seg, hseg⟩ := hsurf
    obtain ⟨c, seg', rfl⟩ := List.exists_cons_of_ne_nil hseg.isName.1
    have hc : c ∈ cs := mem_of_mem_splitOn hseg.mem (List.mem_cons_self ..)
    have hne : c ≠ '/' := fun hc => not_mem_of_mem_splitOn hseg.mem (hc ▸ List.mem_cons_self ..)
    have hhead : (l ++ query).head? = some c := by
      rw [List.head?_append, hfirst _ hseg]
      rfl
    rw [staysOnSite_slash fun x hx => by rw [hhead] at hx; cases hx; exact hctl c hc, hhead]
    simp only [ne_eq, Option.some.injEq, hne, not_false_eq_true, true_and]
    refine not_congr ⟨fun hb => ⟨_, hseg, by rw [hb]; rfl⟩, ?_⟩
    rintro ⟨other, hother, hb⟩
    rw [← hfirst _ hother, hfirst _ hseg] at hb
    exact Option.some.inj hb
  · have hall : ∀ seg, ¬ Surfaces (cs.splitOn '/') seg := fun seg hseg => hsurf ⟨seg, hseg⟩
    rw [hnone hall, List.nil_append]
    refine iff_of_true ((staysOnSite_slash fun c hc => by rw [hquery c hc]; rfl).2 ⟨?_, ?_⟩) ?_
    · intro hc
      cases hquery _ hc
    · intro hc
      cases hquery _ hc
    · rintro ⟨seg, hseg, -⟩
      exact hall seg hseg

/-- A target that passes the guard stays on the site unless it escapes. -/
theorem location_local {srv : Server} {r : Request}
    (hparse : ∀ u, srv.urlParse next = some u → u.scheme = "" ∧ u.host = "")
    (h : isLocalURL next = true) : staysOnSite (location srv r next) = true ↔ ¬ Escapes srv next := by
  obtain ⟨hctl, cs, hcs, hslash, hback⟩ := isLocalURL_iff.1 h
  rw [hcs] at hctl
  have hctl : ∀ c ∈ cs, isControl c = false := fun c hc => hctl c (List.mem_cons_of_mem _ hc)
  unfold Escapes location redirect segments
  cases hu : srv.urlParse next with
  -- a target that does not parse is kept as it is
  | none =>
    have hstays : staysOnSite (String.ofList next.toList) = true := by
      rw [hcs]
      exact (staysOnSite_slash fun c hc => hctl c (List.mem_of_mem_head? hc)).2 ⟨hslash, hback⟩
    rw [String.ofList_toList] at hstays
    simp [hstays]
  | some u =>
    have hpath : ('/' :: cs).takeWhile (· ≠ '?') = '/' :: cs.takeWhile (· ≠ '?') := rfl
    have hquery : ('/' :: cs).dropWhile (· ≠ '?') = cs.dropWhile (· ≠ '?') := rfl
    have hhead : ∀ c, (cs.dropWhile (· ≠ '?')).head? = some c → c = '?' := by
      intro c hc
      have := List.head?_dropWhile_not (· ≠ '?') cs
      rw [hc] at this
      simpa using this
    dsimp only
    rw [if_pos (hparse u hu), hcs, List.head?_cons, if_pos rfl, hpath, hquery, List.drop_one, List.tail_cons,
      cleaned_staysOnSite (fun c hc => hctl c ((List.takeWhile_sublist _).subset hc)) hhead]
    simp only [h, Option.isSome_some, true_and]

end Targets

/-! ## The answer to a login -/

section Logins

variable {srv : Server} {r : Request} {s : State}

/-- An answer that says the user is logged in redirects to the target. -/
def RedirectsTo (srv : Server) (r : Request) (target : String) (a : Response) : Prop :=
  ∀ token loc, a = .loggedIn token loc → loc = location srv r target

theorem failLogin_redirectsTo (target : String) :
    (failLogin r target).Ends (fun a _ => RedirectsTo srv r target a) s :=
  ends_after fun _ _ => ends_pure.2 nofun

theorem startSession_redirectsTo (target : String) :
    (startSession srv r target).Ends (fun a _ => RedirectsTo srv r target a) s := by
  refine ends_after fun drawn _ => ?_
  cases drawn with
  | error _ => exact ends_pure.2 nofun
  | ok token =>
    refine ends_after fun now _ => ends_after fun created _ => ?_
    cases created with
    | error _ => exact ends_pure.2 nofun
    | ok _ =>
      refine ends_after fun _ _ => ends_after fun _ _ => ends_pure.2 fun _ _ h => ?_
      cases h
      rfl

theorem checkLogin_redirectsTo (target : String) :
    (checkLogin srv r target).Ends (fun a _ => RedirectsTo srv r target a) s := by
  refine ends_after fun checked _ => ?_
  match checked with
  | .error .badCredentials => exact failLogin_redirectsTo target
  | .error .backend => exact ends_pure.2 nofun
  | .ok _ =>
    refine ends_after fun allowed _ => ?_
    match allowed with
    | .error .notAuthorized => exact ends_pure.2 nofun
    | .error .failed => exact ends_pure.2 nofun
    | .ok _ => exact startSession_redirectsTo target

theorem handleLoginSubmit_redirectsTo :
    (handleLoginSubmit srv r).Ends (fun a _ => RedirectsTo srv r (safeNext r.next) a) s := by
  unfold handleLoginSubmit
  split
  · exact ends_pure.2 nofun
  · refine ends_after fun blocked _ => ?_
    split
    · exact ends_pure.2 nofun
    split
    · exact failLogin_redirectsTo _
    · exact checkLogin_redirectsTo _

end Logins

/-- `url.Parse` finds no scheme and no host in a target that passes the guard. -/
def ParsesLocal (srv : Server) : Prop :=
  ∀ target u, isLocalURL target = true → srv.urlParse target = some u → u.scheme = "" ∧ u.host = ""

theorem not_escapes_root (srv : Server) : ¬ Escapes srv "/" := by
  rintro ⟨-, -, seg, hseg, -⟩
  have hmem : seg ∈ [([] : List Char)] := hseg.mem
  exact hseg.isName.1 (List.mem_singleton.1 hmem)

/-- The Location of a successful login stays on the site unless the posted target escapes. -/
theorem login_staysOnSite {srv : Server} (hparse : ParsesLocal srv) {r : Request} {s : State} {faults : List Bool}
    {token loc : String} (h : ((handleLoginSubmit srv r).runWith faults s).1 = .loggedIn token loc) :
    staysOnSite loc = true ↔ ¬ Escapes srv r.next := by
  rw [handleLoginSubmit_redirectsTo.runWith faults token loc h]
  unfold safeNext
  split
  · rename_i hlocal
    exact location_local (hparse _ · hlocal) hlocal
  · rename_i hforeign
    have hroot : isLocalURL "/" = true := by decide
    refine iff_of_true ?_ fun hesc => hforeign hesc.1
    exact (location_local (hparse _ · hroot) hroot).2 (not_escapes_root srv)

/-- A server whose `url.Parse` finds neither scheme nor host. -/
def exampleServer : Server := ⟨true, ["wheel"], id, fun _ => some ⟨"", ""⟩⟩

/-- A machine whose only user is the administrator. -/
def exampleHost : Host where
  token n := String.ofList (List.replicate (n + 1) 'a')
  authenticate _ _ password := if password = "pw" then .ok () else .error .badCredentials
  lookupUser _ name := .ok ⟨"1000", name⟩
  groupIDs _ _ := .ok ["10"]
  lookupGroup _ gid := if gid = "10" then .ok "wheel" else .error ()

/-- The state of a server that has handled no request. -/
def exampleState : State := .fresh (.newLoginLimiter 5 minute) 0 exampleHost

/-- The form of the login page, posted. -/
def loginRequest (password next : String) : Request :=
  ⟨.post, "/login", "/login", none, false, false, "192.0.2.1", "alice", password, next⟩

theorem parsesLocal_example : ParsesLocal exampleServer := by
  intro target u _ hu
  cases hu
  exact ⟨rfl, rfl⟩

theorem login_staysOnSite_workloads : staysOnSite "/workloads/new?tab=1" = true := by
  have hlogin :
      ((handleLoginSubmit exampleServer (loginRequest "pw" "/workloads/new?tab=1")).runWith [] exampleState).1 =
        .loggedIn "a" "/workloads/new?tab=1" := by decide +kernel
  refine (login_staysOnSite parsesLocal_example hlogin).2 ?_
  rintro ⟨-, -, seg, hseg, hback⟩
  have hplain : ∀ seg ∈ segments "/workloads/new?tab=1", seg.head? ≠ some '\\' := by decide +kernel
  exact hplain seg hseg.mem hback

/-- A target whose cleaned path begins with a slash and a backslash. -/
theorem login_leavesSite : ¬ ∀ (srv : Server) (r : Request) (s : State) (faults : List Bool) (token loc : String),
    ParsesLocal srv → ((handleLoginSubmit srv r).runWith faults s).1 = .loggedIn token loc →
      staysOnSite loc = true := by
  intro hall
  have hstays := hall exampleServer (loginRequest "pw" "/x/../\\evil.example") exampleState [] "a" "/\\evil.example"
    parsesLocal_example (by decide +kernel)
  exact absurd hstays (by decide +kernel)

end Nixbox.Auth
