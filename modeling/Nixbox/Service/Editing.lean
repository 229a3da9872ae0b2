/-
The editor of a workload and the service behind it: edits of the form, submissions of it, the handler's
answers, and whatever else the service does meanwhile that leaves the workload's latest revision alone. When
the buttons that deploy are enabled, is it the latest revision that the form shows?
-/
import Nixbox.Nix.PortRows
import Nixbox.Service.Histories
import Nixbox.Web.WorkloadForm

namespace Nixbox

open Effect Prog Store Server Web
open Nix hiding FlakeInput

/-! ## The system -/

/-- Content and ports of the latest revision of the workload `name`. -/
def State.latestOf (s : State) (name : String) : Option (String × String) :=
  match s.db.workloadByName name with
  | .ok w => (s.db.latest w.id).map fun r => (r.content, r.ports)
  | .error _ => none

/-- The page of a workload, its requests, and the service. -/
structure Editor where
  server : State
  page : Page

namespace Editor

/-- What happens next: an edit leaves the form with `f` in it; the form is submitted; the request under way is handled,
with the calls that fail; its answer arrives; or the service does something else. -/
inductive Step
  | edit (f : Form)
  | submit
  | handle (faults : List Bool)
  | deliver
  | other (e : Event)

variable (name : String) (valid : Form → Bool)

/-- The page as it is rendered, with `text` in its editor and a row for each port of the latest revision. -/
def load (s : State) (text : String) (busy : Bool) : Editor :=
  let ports := decodeHostPorts ((s.latestOf name).elim "" Prod.snd)
  ⟨s, Page.load ⟨text, ports.map fun p => (toString p.port, p.proto.name)⟩ busy⟩

/-- One step of the page or of the service. -/
def step (e : Editor) : Step → Option Editor
  | .edit f => some { e with page := e.page.edit f }
  | .submit => some { e with page := e.page.submit valid }
  | .handle faults =>
    match e.page.flight with
    | .sent f => some {
        server := e.server.handle (f.save name) faults
        page := { e.page with flight := .answered f (e.server.answer (f.save name) faults) } }
    | _ => none
  | .deliver =>
    match e.page.flight with
    | .answered _ r => some { e with page := e.page.deliver valid r }
    | _ => none
  | .other ev =>
    match e.server.step ev with
    -- no one else writes the workload
    | some s => if s.latestOf name = e.server.latestOf name then some { e with server := s } else none
    | none => none

/-- The form is not back at the value saved last, unless that would store what `f` does. -/
def Apart (g : Guard) (f : Form) : Prop := signature g.form = g.savedValue → g.form.canonical = f.canonical

/-- A save that is handled has rows the handler accepts; from then on until its answer arrives, the form stays apart
from the value saved before. -/
def Settled (e : Editor) : Step → Prop
  | .handle _ => ∀ f ∈ e.page.flight.asked, f.canonical.isOk = true ∧ Apart e.page.guard f
  | .edit f => ∀ f' ∈ e.page.flight.done, Apart (e.page.guard.input f) f'
  | _ => True

instance (g : Guard) (f : Form) : Decidable (Apart g f) :=
  inferInstanceAs (Decidable (signature g.form = g.savedValue → g.form.canonical = f.canonical))

instance (e : Editor) : ∀ x, Decidable (e.Settled x)
  | .handle _ => inferInstanceAs (Decidable (∀ f ∈ e.page.flight.asked, f.canonical.isOk = true ∧
    Apart e.page.guard f))
  | .edit f => inferInstanceAs (Decidable (∀ f' ∈ e.page.flight.done, Apart (e.page.guard.input f) f'))
  | .submit => isTrue trivial
  | .deliver => isTrue trivial
  | .other _ => isTrue trivial

end Editor

/-! ## The answer to a save -/

theorem lookupWorkload_ends {F : ∀ β : Type, Op β → Bool} {s : State} {name : String}
    {Q : Except Response Workload → State → Prop} (hok : ∀ w, s.db.workloadByName name = .ok w → Q (.ok w) s)
    (herr : ∀ r, successful r = false → Q (.error r) s) : EndsIf F Q (lookupWorkload name).run s := by
  unfold lookupWorkload lookupBy
  split
  · exact ends_throw.2 (herr _ rfl)
  · refine ends_exceptT_bind.2 (ends_attempt.2 (endsIf_query ?_ (ends_throw.2 (herr _ rfl))))
    cases hw : s.db.workloadByName name with
    | ok w => exact ends_return.2 (hok w hw)
    | error e =>
      cases e with
      | notFound => exact ends_throw.2 (herr _ rfl)
      | failed => exact ends_throw.2 (herr _ rfl)

theorem Store.Db.saveRevision_workloadByName {db db' : Db} {w : Workload} {content ports note : String} {now : Time}
    {rid : ID} (hwf : db.WF) (hw : db.workloadByName w.name = .ok w)
    (h : db.saveRevision w.id content ports note now = .ok (rid, db')) :
    ∃ w', db'.workloadByName w.name = .ok w' ∧ w'.id = w.id := by
  have hwf' : db'.WF := saveRevision_wf hwf h
  obtain ⟨w', hw', hid, hname, -⟩ := (saveRevision_grown h).1.kept w (workloadByName_ok hw).1
  cases hfind : db'.workloadByName w.name with
  | error e => exact absurd hname (Db.workloadByName_error hfind w' hw')
  | ok x =>
    obtain ⟨hx, hxname⟩ := workloadByName_ok hfind
    rw [hwf'.workloadNames x hx w' hw' (hxname.trans hname.symm)]
    exact ⟨w', rfl, hid⟩

/-- A save with rows the handler accepts is answered successfully exactly if it was stored. -/
theorem save_latestOf {s : State} (hwf : s.db.WF) {name : String} {f : Form} {v : String × String}
    (hv : f.canonical = .ok v) :
    (serve (f.save name)).Ends (fun r s' => s'.latestOf name = if successful r then some v else s.latestOf name) s := by
  unfold Form.canonical at hv
  refine ends_answer.2 (ends_exceptT_bind.2 (lookupWorkload_ends (fun w hw => ?_) fun r hr => ?_))
  · cases hports : parseHostPorts f.ports f.protos with
    | error m =>
      rw [hports] at hv
      cases hv
    | ok ps =>
      rw [hports] at hv
      cases hv
      have hwn : w.name = name := (workloadByName_ok hw).2
      dsimp only
      -- the file does not tell what is stored
      refine ends_exceptT_bind.2 (ends_orError.2 (writeWorkload_ends ?_ fun e => rfl))
      refine ends_exceptT_bind.2 (ends_orError.2 (endsIf_write.2 ⟨?_, fun _ => rfl⟩))
      cases hrun : s.db.saveRevision w.id (normalizeContent f.content) (formatHostPorts ps) "edit"
        (s.host.clock s.ticks) with
      | error e =>
        have hmem : s.db.workloads.find? w.id = some w := Keyed.Table.find?_mem (workloadByName_ok hw).1
        unfold Db.saveRevision at hrun
        rw [hmem] at hrun
        cases hrun
      | ok a =>
        rw [State.write_ok (s := s.putFile w.name (normalizeContent f.content))
          (w := .saveRevision w.id (normalizeContent f.content) (formatHostPorts ps) "edit") hrun]
        have hstored : ({ s.putFile w.name (normalizeContent f.content) with
            db := a.2
            ticks := s.ticks + 1 } : State).latestOf name = some (normalizeContent f.content, formatHostPorts ps) := by
          subst hwn
          obtain ⟨w', hw', hid⟩ := Db.saveRevision_workloadByName hwf hw hrun
          unfold State.latestOf Db.latest
          dsimp only
          rw [hw']
          dsimp only
          rw [Db.saveRevision_history hrun, hid, if_pos rfl, List.getLast?_append_cons]
          rfl
        refine ends_exceptT_bind.2 (ends_lift.2 (endsIf_perform.2 ⟨?_, fun _ => nofun⟩))
        dsimp only
        split
        · exact ends_return.2 hstored
        · exact ends_return.2 hstored
  · dsimp only
    rw [hr]
    rfl

namespace Editor

variable {name text : String} {valid : Form → Bool} {e e' : Editor} {f : Form} {r : Response}

/-! ## What every step keeps -/

/-- The latest revision is what a save of `f` stores. -/
def Stores (name : String) (s : State) (f : Form) : Prop := ∃ v, f.canonical = .ok v ∧ s.latestOf name = some v

/-- The form that was saved last, or the one whose save was answered successfully, is what is stored. -/
def Kept (name : String) (s : State) (g : Guard) (b : Form) : Flight → Prop
  | .idle => Stores name s b
  | .sent f => g.inflightValue = some (signature f) ∧ Stores name s b
  | .answered f r =>
    g.inflightValue = some (signature f) ∧ Apart g f ∧ if successful r then Stores name s f else Stores name s b

/-- What the page holds against what the service has. -/
structure Invariant (name : String) (e : Editor) : Prop where
  wf : e.server.db.WF
  shown : e.page.guard.Shown
  saved : ∃ b, e.page.guard.savedValue = signature b ∧ Kept name e.server e.page.guard b e.page.flight

theorem Invariant.issue (hwf : e.server.db.WF) (hshown : e.page.guard.Shown) (hidle : e.page.flight = .idle) {b : Form}
    (hsaved : e.page.guard.savedValue = signature b) (hb : Stores name e.server b) :
    ({ e with page := e.page.issue valid } : Editor).Invariant name := by
  unfold Page.issue
  split
  · exact ⟨hwf, hshown, b, hsaved, rfl, hb⟩
  · refine ⟨hwf, hshown, b, hsaved, ?_⟩
    dsimp only
    rw [hidle]
    exact hb

theorem Invariant.edit (h : e.Invariant name) (hs : e.Settled (.edit f)) :
    ({ e with page := e.page.edit f } : Editor).Invariant name := by
  obtain ⟨b, hsaved, hkept⟩ := h.saved
  refine ⟨h.wf, Guard.shown_refresh, b, hsaved, ?_⟩
  unfold Settled at hs
  show Kept name e.server (e.page.guard.input f) b e.page.flight
  cases hflight : e.page.flight with
  | idle =>
    rw [hflight] at hkept
    exact hkept
  | sent f' =>
    rw [hflight] at hkept
    exact hkept
  | answered f' r =>
    rw [hflight] at hkept hs
    exact ⟨hkept.1, hs f' rfl, hkept.2.2⟩

theorem Invariant.submit (h : e.Invariant name) : ({ e with page := e.page.submit valid } : Editor).Invariant name := by
  obtain ⟨b, hsaved, hkept⟩ := h.saved
  unfold Page.submit
  split
  · rename_i hidle
    rw [hidle] at hkept
    exact .issue h.wf h.shown hidle hsaved hkept
  · exact ⟨h.wf, h.shown, b, hsaved, hkept⟩

theorem Invariant.handle (h : e.Invariant name) (hflight : e.page.flight = .sent f) (hf : f.canonical.isOk = true)
    (hapart : Apart e.page.guard f) (faults : List Bool) :
    (⟨e.server.handle (f.save name) faults,
      { e.page with flight := .answered f (e.server.answer (f.save name) faults) }⟩ : Editor).Invariant name := by
  obtain ⟨b, hsaved, hkept⟩ := h.saved
  rw [hflight] at hkept
  obtain ⟨hinflight, w, hw, hlatest⟩ := hkept
  obtain ⟨v, hv⟩ : ∃ v, f.canonical = .ok v := by
    cases hc : f.canonical with
    | error m =>
      rw [hc] at hf
      cases hf
    | ok v => exact ⟨v, rfl⟩
  refine ⟨State.handle_wf h.wf _ _, h.shown, b, hsaved, hinflight, hapart, ?_⟩
  have hans : (e.server.handle (f.save name) faults).latestOf name =
      if successful (e.server.answer (f.save name) faults) then some v else e.server.latestOf name :=
    (save_latestOf h.wf hv).runWith faults
  split
  · rename_i hok
    rw [if_pos hok] at hans
    exact ⟨v, hv, hans⟩
  · rename_i hok
    rw [if_neg hok] at hans
    exact ⟨w, hw, hans.trans hlatest⟩

theorem Invariant.deliver (h : e.Invariant name) (hflight : e.page.flight = .answered f r) :
    ({ e with page := e.page.deliver valid r } : Editor).Invariant name := by
  obtain ⟨b, hsaved, hkept⟩ := h.saved
  rw [hflight] at hkept
  obtain ⟨hinflight, -, hstores⟩ := hkept
  -- the form whose value is the saved one now
  obtain ⟨b', hsaved', hstores'⟩ : ∃ b', (e.page.guard.afterRequest (successful r)).savedValue = signature b' ∧
      Stores name e.server b' := by
    cases hok : successful r with
    | true =>
      rw [hok] at hstores
      exact ⟨f, Guard.afterRequest_ok hinflight, hstores⟩
    | false =>
      rw [hok] at hstores
      exact ⟨b, hsaved, hstores⟩
  have hshown : (e.page.guard.afterRequest (successful r)).Shown := h.shown.afterRequest
  unfold Page.deliver
  dsimp only
  split
  · exact .issue (e := ⟨e.server, ⟨e.page.guard.afterRequest (successful r), .idle, e.page.queued⟩⟩)
      h.wf hshown rfl hsaved' hstores'
  · exact ⟨h.wf, hshown, b', hsaved', hstores'⟩

theorem Invariant.other (h : e.Invariant name) {s : State} (hwf : s.db.WF)
    (hsame : s.latestOf name = e.server.latestOf name) : ({ e with server := s } : Editor).Invariant name := by
  obtain ⟨b, hsaved, hkept⟩ := h.saved
  refine ⟨hwf, h.shown, b, hsaved, ?_⟩
  have hstores : ∀ f, Stores name s f ↔ Stores name e.server f := fun f => by
    unfold Stores
    rw [hsame]
  show Kept name s e.page.guard b e.page.flight
  cases hflight : e.page.flight with
  | idle =>
    rw [hflight] at hkept
    exact (hstores b).2 hkept
  | sent f =>
    rw [hflight] at hkept
    exact ⟨hkept.1, (hstores b).2 hkept.2⟩
  | answered f r =>
    rw [hflight] at hkept
    refine ⟨hkept.1, hkept.2.1, ?_⟩
    rw [hstores, hstores]
    exact hkept.2.2

theorem Invariant.step {x : Step} (hx : e.Settled x) (h : e.Invariant name) (hs : e.step name valid x = some e') :
    e'.Invariant name := by
  cases x with
  | edit f =>
    cases hs
    exact h.edit hx
  | submit =>
    cases hs
    exact h.submit
  | handle faults =>
    unfold Editor.step at hs
    unfold Settled at hx
    dsimp only at hs hx
    split at hs
    · rename_i f hflight
      rw [hflight] at hx
      cases hs
      exact h.handle hflight (hx f rfl).1 (hx f rfl).2 faults
    · cases hs
  | deliver =>
    unfold Editor.step at hs
    dsimp only at hs
    split at hs
    · rename_i f r hflight
      cases hs
      exact h.deliver hflight
    · cases hs
  | other ev =>
    unfold Editor.step at hs
    dsimp only at hs
    split at hs
    · rename_i s hstep
      split at hs
      · rename_i hsame
        cases hs
        exact h.other (State.step_wf h.wf hstep) hsame
      · cases hs
    · cases hs

/-! ## From the page as it is loaded -/

/-- The page shows the latest revision, and its ports are as the handler stores them: what is in the editor is the
content but for the handler's newlines. -/
def Shows (name : String) (s : State) (text : String) : Prop :=
  ∃ ports protos ps, parseHostPorts ports protos = .ok ps ∧
    s.latestOf name = some (normalizeContent text, formatHostPorts ps)

theorem Invariant.load {s : State} (hwf : s.db.WF) (h : Shows name s text) (busy : Bool) :
    (Editor.load name s text busy).Invariant name := by
  obtain ⟨ports, protos, ps, hps, hlatest⟩ := h
  refine ⟨hwf, Guard.shown_refresh, _, rfl, (normalizeContent text, formatHostPorts ps), ?_, hlatest⟩
  rw [hlatest]
  have hports : Form.ports ⟨text, (decodeHostPorts (formatHostPorts ps)).map fun p =>
    (toString p.port, p.proto.name)⟩ =
      shownPorts (formatHostPorts ps) := List.map_map
  have hprotos : Form.protos ⟨text, (decodeHostPorts (formatHostPorts ps)).map fun p =>
    (toString p.port, p.proto.name)⟩ =
      shownProtos (formatHostPorts ps) := List.map_map
  have hshown := parse_shown hps
  unfold Form.canonical
  rw [Option.elim_some, hports, hprotos]
  cases hparse : parseHostPorts (shownPorts (formatHostPorts ps)) (shownProtos (formatHostPorts ps)) with
  | error m =>
    rw [hparse] at hshown
    cases hshown
  | ok qs =>
    rw [hparse, Except.map, Except.ok.injEq] at hshown
    rw [Except.map, hshown]

end Editor

end Nixbox
