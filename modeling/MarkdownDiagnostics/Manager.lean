import MarkdownDiagnostics.Computer
import MarkdownDiagnostics.LinkWatcher
import MarkdownDiagnostics.InflightRequests
import MarkdownDiagnostics.Reporter

/-!
# The diagnostic manager

`DiagnosticManager` wires the parts together.  A created or changed document is triggered:
its in-flight computation is cancelled, its URI joins `pendingDiagnostics`, and the `Delayer`
is (re)armed.  When the delayer fires, `recomputePendingDiagnostics` snapshots and clears the
pending set and starts one task per element; each task fetches the document, starts a
computation through `InflightDiagnosticRequests.trigger`, and when `getDiagnostics` answers it
hands the links to the `LinkWatcher` and the diagnostics to the reporter.  A configuration
change rebuilds everything, and closing a document forgets it.

Every `await` of the source is a point where anything else may happen: a task advances one
`await` at a time, in any order with the other tasks and with the events of the host.  The
host itself, the `Workspace`, is part of the state and may change between any two steps.
-/

namespace MarkdownDiagnostics

/-- Modelled from the spec: what the manager reads from the host when it reads it.  The markdown
documents (`getMarkdownDocument` and `getAllMarkdownDocuments`), the URIs of the open markdown
text documents (`vscode.workspace.textDocuments` that pass `isMarkdownFile`), the links
`getAllLinks` finds in a document, the options `configuration.getOptions` gives a resource, and
the services of the computer. -/
structure Workspace where
  documents : List SkinnyTextDocument
  textDocuments : List Uri
  getAllLinks : SkinnyTextDocument → List MdLink
  getOptions : Uri → DiagnosticOptions
  host : ComputerHost

/-- `workspaceContents.getMarkdownDocument(resource)`: the document of that URI string; its
`uri` may be another object than `resource`. -/
def Workspace.getMarkdownDocument (w : Workspace) (resource : Uri) : Option SkinnyTextDocument :=
  w.documents.find? (·.uri.toString = resource.toString)

theorem Workspace.getMarkdownDocument_congr (w : Workspace) {r r' : Uri}
    (h : r.toString = r'.toString) : w.getMarkdownDocument r = w.getMarkdownDocument r' := by
  simp only [Workspace.getMarkdownDocument, h]

theorem Workspace.getMarkdownDocument_uri {w : Workspace} {r : Uri} {doc : SkinnyTextDocument}
    (h : w.getMarkdownDocument r = some doc) : doc.uri.toString = r.toString := by
  simpa using List.find?_some h

theorem Workspace.getMarkdownDocument_isSome {w : Workspace} {doc : SkinnyTextDocument}
    (h : doc ∈ w.documents) : (w.getMarkdownDocument doc.uri).isSome :=
  List.find?_isSome.2 ⟨doc, h, decide_eq_true rfl⟩

/-- Where a per-document task of `recomputePendingDiagnostics` waits: on
`workspaceContents.getMarkdownDocument(resource)`; then, inside the task
`inFlightDiagnostics.trigger` runs with token source `cts` and under the options
`recomputeDiagnosticState` read, on `getAllLinks`; then on the three validators of
`getDiagnostics`.  `work` counts the `await`s left. -/
inductive Stage where
  | gettingDocument (resource : Uri)
  | gettingLinks (doc : SkinnyTextDocument) (cts : Nat) (config : DiagnosticOptions)
  | validating (doc : SkinnyTextDocument) (cts : Nat) (config : DiagnosticOptions)
      (links : List MdLink)
deriving DecidableEq

def Stage.work : Stage → Nat
  | .gettingDocument _ => 3
  | .gettingLinks .. => 2
  | .validating .. => 1

/-- A running per-document task and the delayer promise whose firing started it. -/
structure Computation where
  firing : Nat
  stage : Stage
deriving DecidableEq

def Computation.document (c : Computation) : String :=
  match c.stage with
  | .gettingDocument resource => resource.toString
  | .gettingLinks doc _ _ | .validating doc _ _ _ => doc.uri.toString

/-- A call of `reporter.set`: the document and its diagnostics, with the delayer promise whose
firing started the calling task. -/
structure SetCall where
  firing : Nat
  uri : Uri
  diagnostics : List Diagnostic
deriving DecidableEq

/-- The manager, its parts, the tasks it runs and the workspace it reads.  `scheduled` is the
delayer's completion promise while its timeout is armed, `firing` the promises whose task has
started and not settled, and `rebuilds` the calls of `rebuild` that await
`getAllMarkdownDocuments`.  Two fields the manager never reads record what it hands the
reporter: `reported`, the diagnostics last given to `reporter.set` for each document since the
last `reporter.delete` of it or `reporter.clear`, and `setCalls`, every call of `reporter.set`
in order.

Modelled from the spec: the `Delayer` of the host's async library.  `trigger` re-arms its
timeout and returns its completion promise, a new one if none is pending; when the timeout
fires it forgets the promise and runs the task, and the promise settles once the task's promise
does.  Promises are numbered by creation. -/
structure DiagnosticManager where
  pendingDiagnostics : UriSet
  inFlightDiagnostics : InflightDiagnosticRequests
  linkWatcher : LinkWatcher
  reporter : DiagnosticReporter
  reported : ResourceMap (List Diagnostic)
  setCalls : List SetCall
  scheduled : Option Nat
  promises : Nat
  firing : List Nat
  computations : List Computation
  rebuilds : Nat
  workspace : Workspace

namespace DiagnosticManager

/-- The manager right after its constructor, whose `rebuild()` awaits the documents. -/
def initial (workspace : Workspace) : DiagnosticManager where
  pendingDiagnostics := .empty
  inFlightDiagnostics := .initial
  linkWatcher := .initial
  reporter := .initial
  reported := .empty
  setCalls := []
  scheduled := none
  promises := 0
  firing := []
  computations := []
  rebuilds := 1
  workspace := workspace

def delayerTrigger (s : DiagnosticManager) : DiagnosticManager × Nat :=
  match s.scheduled with
  | some p => (s, p)
  | none => ({ s with scheduled := some s.promises, promises := s.promises + 1 }, s.promises)

def triggerDiagnostics (s : DiagnosticManager) (uri : Uri) : DiagnosticManager :=
  let s := { s with
    inFlightDiagnostics := s.inFlightDiagnostics.cancel uri
    pendingDiagnostics := s.pendingDiagnostics.add uri }
  let (s, p) := s.delayerTrigger
  { s with reporter := s.reporter.signalTriggered uri p }

def closeTextDocument (s : DiagnosticManager) (uri : Uri) : DiagnosticManager :=
  { s with
    pendingDiagnostics := s.pendingDiagnostics.delete uri
    inFlightDiagnostics := s.inFlightDiagnostics.cancel uri
    linkWatcher := s.linkWatcher.deleteDocument uri
    reporter := s.reporter.delete uri
    reported := s.reported.delete uri }

/-- `rebuild()` up to `await getAllMarkdownDocuments()`. -/
def rebuild (s : DiagnosticManager) : DiagnosticManager :=
  { s with
    reporter := s.reporter.clear
    reported := .empty
    pendingDiagnostics := .empty
    inFlightDiagnostics := s.inFlightDiagnostics.clear
    rebuilds := s.rebuilds + 1 }

/-- The rest of `rebuild()`: trigger every markdown document. -/
def rebuildContinues (s : DiagnosticManager) : DiagnosticManager :=
  s.workspace.documents.foldl (fun s doc => s.triggerDiagnostics doc.uri)
    { s with rebuilds := s.rebuilds - 1 }

/-- `onDidChangeLinkedToFile` for `resource` and the manager's handler: every document linking to
`resource` that is open as a markdown text document is triggered, through that text
document's URI. -/
def linkedResourceChanged (s : DiagnosticManager) (resource : Uri) : DiagnosticManager :=
  match s.linkWatcher.watchers.get resource with
  | none => s
  | some entry =>
    entry.documents.values.foldl (fun s document =>
      match s.workspace.textDocuments.find? (·.toString = document.toString) with
      | some uri => s.triggerDiagnostics uri
      | none => s) s

/-- The `onTocChanged` handler once `getAllReferencesToFile` has answered: the file of each
reference is triggered once per URI string. -/
def tocChanged (s : DiagnosticManager) (references : List Uri) : DiagnosticManager :=
  (references.foldl (fun (acc : DiagnosticManager × ResourceMap Unit) file =>
    if acc.2.has file then acc else (acc.1.triggerDiagnostics file, acc.2.set file ()))
    (s, .empty)).1

/-- The delayer fires its promise `p` and runs `recomputePendingDiagnostics`: the pending set is
spread, cleared, and every element gets a task. -/
def recomputePendingDiagnostics (s : DiagnosticManager) (p : Nat) : DiagnosticManager :=
  { s with
    scheduled := none
    firing := s.firing ++ [p]
    pendingDiagnostics := .empty
    computations := s.computations ++
      s.pendingDiagnostics.toList.map fun resource => ⟨p, .gettingDocument resource⟩ }

/-- Task `i`, started by the firing of promise `firing`, ends its computation with the `state`
`recomputeDiagnosticState` returned: the links go to the watcher (none unless
`validateFileLinks` is set, as JavaScript reads it), the diagnostics to the reporter, and the
`finally` of `trigger` runs. -/
def finish (s : DiagnosticManager) (i firing : Nat) (doc : SkinnyTextDocument) (cts : Nat)
    (config : DiagnosticOptions) (state : ComputedDiagnostics) : DiagnosticManager :=
  { s with
    linkWatcher := s.linkWatcher.updateLinksForDocument doc.uri
      (if config.enabled && config.validateFileLinks.isSome then state.links else [])
    reported := s.reported.set doc.uri state.diagnostics
    setCalls := s.setCalls ++ [⟨firing, doc.uri, state.diagnostics⟩]
    inFlightDiagnostics := s.inFlightDiagnostics.step (.complete cts)
    computations := s.computations.eraseIdx i }

/-- Task `i` resumes from its `await` and runs to the next one.  At the validators the token is
read several times: if it is not cancelled now it was not before, and if it is,
`readsIfCancelled` says which reads saw it.

Modelled from the spec: every host call a task awaits answers.  None rejects, and
`picomatch.isMatch` throws on no glob of `ignoreLinks`: it throws a `TypeError` on an empty
one.  A rejection would end the task through the `finally` of `trigger`, with no
`reporter.set` and no update of the watcher, and would settle the firing's promise through
`Promise.all` before its other tasks end; the model has no such step. -/
def advance (s : DiagnosticManager) (i : Nat) (readsIfCancelled : TokenReads)
    (schedule : Schedule) : Option DiagnosticManager :=
  s.computations[i]?.map fun c =>
    match c.stage with
    | .gettingDocument resource =>
      match s.workspace.getMarkdownDocument resource with
      | none => { s with computations := s.computations.eraseIdx i }
      | some doc =>
        let cts := s.inFlightDiagnostics.started.length
        let s := { s with inFlightDiagnostics := s.inFlightDiagnostics.trigger doc.uri }
        let config := s.workspace.getOptions doc.uri
        if config.enabled then
          { s with
            computations := s.computations.set i ⟨c.firing, .gettingLinks doc cts config⟩ }
        else s.finish i c.firing doc cts config ⟨[], []⟩
    | .gettingLinks doc cts config =>
      let links := s.workspace.getAllLinks doc
      if cts ∈ s.inFlightDiagnostics.cancelled then
        s.finish i c.firing doc cts config
          (getDiagnostics s.workspace.host config doc links ⟨true, false, fun _ => false⟩
            schedule)
      else
        { s with
          computations := s.computations.set i ⟨c.firing, .validating doc cts config links⟩ }
    | .validating doc cts config links =>
      let reads := if cts ∈ s.inFlightDiagnostics.cancelled
        then { readsIfCancelled with afterLinks := false } else .uncancelled
      s.finish i c.firing doc cts config
        (getDiagnostics s.workspace.host config doc links reads schedule)

/-- The delayer's promise `p` settles once every task of its firing has ended, and the
`finally` callbacks of `signalTriggered` on it run. -/
def settle (s : DiagnosticManager) (p : Nat) : DiagnosticManager :=
  { s with reporter := s.reporter.settle p, firing := s.firing.erase p }

/-- What may happen next: a document is created or changed (`onDidCreateMarkdownDocument`,
`onDidChangeMarkdownDocument`), one of the handlers runs, `configuration.onDidChange` fires, a
rebuild's documents arrive, the delayer fires, a task resumes, a firing's promise settles, or
files, configuration or editors change. -/
inductive Event where
  | triggerDiagnostics (uri : Uri)
  | linkedResourceChanged (resource : Uri)
  | tocChanged (references : List Uri)
  | configurationChanged
  | rebuildContinues
  | closeTextDocument (uri : Uri)
  | delayerFires
  | advance (i : Nat) (readsIfCancelled : TokenReads) (schedule : Schedule)
  | settle (p : Nat)
  | workspaceChanges (workspace : Workspace)

/-- One step; `none` where the event cannot happen in the state. -/
def step (s : DiagnosticManager) : Event → Option DiagnosticManager
  | .triggerDiagnostics uri => some (s.triggerDiagnostics uri)
  | .linkedResourceChanged resource => some (s.linkedResourceChanged resource)
  | .tocChanged references => some (s.tocChanged references)
  | .configurationChanged => some s.rebuild
  | .rebuildContinues => if s.rebuilds = 0 then none else some s.rebuildContinues
  | .closeTextDocument uri => some (s.closeTextDocument uri)
  | .delayerFires => s.scheduled.map s.recomputePendingDiagnostics
  | .advance i readsIfCancelled schedule => s.advance i readsIfCancelled schedule
  | .settle p =>
    if p ∈ s.firing ∧ s.computations.all (·.firing != p) then some (s.settle p) else none
  | .workspaceChanges workspace => some { s with workspace }

def run (s : DiagnosticManager) (events : List Event) : Option DiagnosticManager :=
  events.foldlM step s

/-- What every step keeps under a condition on its event, every run keeps whose events all meet
the condition. -/
theorem run_preserves (P : DiagnosticManager → Prop) (Q : Event → Prop)
    (hstep : ∀ {s s' e}, P s → Q e → s.step e = some s' → P s') :
    ∀ (events : List Event) {s s' : DiagnosticManager}, (∀ e ∈ events, Q e) → P s →
      run s events = some s' → P s'
  | [], _, _, _, h, hrun => by cases hrun; exact h
  | e :: events, s, _, hevents, h, hrun => by
    simp only [run, List.foldlM_cons] at hrun
    cases hs : s.step e with
    | none => simp [hs] at hrun
    | some s₁ =>
      rw [hs] at hrun
      exact run_preserves P Q hstep events (fun e' he' => hevents e' (List.mem_cons_of_mem _ he'))
        (hstep h (hevents e (List.mem_cons_self _ _)) hs) hrun

/-- What a step that happens does, event by event: the guarded events happen only when their
guard holds, and then as the handler says. -/
theorem step_eq_some {s s' : DiagnosticManager} : ∀ {e : Event}, s.step e = some s' →
    match e with
    | .triggerDiagnostics uri => s' = s.triggerDiagnostics uri
    | .linkedResourceChanged resource => s' = s.linkedResourceChanged resource
    | .tocChanged references => s' = s.tocChanged references
    | .configurationChanged => s' = s.rebuild
    | .rebuildContinues => s.rebuilds ≠ 0 ∧ s' = s.rebuildContinues
    | .closeTextDocument uri => s' = s.closeTextDocument uri
    | .delayerFires => ∃ p, s.scheduled = some p ∧ s' = s.recomputePendingDiagnostics p
    | .advance i readsIfCancelled schedule => s.advance i readsIfCancelled schedule = some s'
    | .settle p => (p ∈ s.firing ∧ ∀ c ∈ s.computations, c.firing ≠ p) ∧ s' = s.settle p
    | .workspaceChanges workspace => s' = { s with workspace }
  | .triggerDiagnostics _, h | .linkedResourceChanged _, h | .tocChanged _, h
  | .configurationChanged, h | .closeTextDocument _, h | .workspaceChanges _, h =>
    (Option.some.inj h).symm
  | .rebuildContinues, h => by
    simp only [step] at h
    split at h
    · cases h
    · exact ⟨‹_›, (Option.some.inj h).symm⟩
  | .delayerFires, h => by
    obtain ⟨p, hp, rfl⟩ := Option.map_eq_some'.1 h
    exact ⟨p, hp, rfl⟩
  | .advance _ _ _, h => h
  | .settle _, h => by
    simp only [step] at h
    split at h
    · next hguard =>
      refine ⟨⟨hguard.1, fun c hc => ?_⟩, (Option.some.inj h).symm⟩
      simpa using List.all_eq_true.1 hguard.2 c hc
    · cases h

/-- What a task's step does: it ends the task or moves it to a later `await` of the same
firing, and of the manager it touches only the tasks, the in-flight requests, the link watcher
and the record of what the reporter was given. -/
theorem advance_eq_some {s s' : DiagnosticManager} {i : Nat} {reads : TokenReads}
    {schedule : Schedule} (hs : s.advance i reads schedule = some s') :
    ∃ c, s.computations[i]? = some c ∧
      (s'.computations = s.computations.eraseIdx i ∨
        ∃ c', c'.firing = c.firing ∧ c'.stage.work < c.stage.work ∧
          s'.computations = s.computations.set i c') ∧
      { s' with
        computations := s.computations
        inFlightDiagnostics := s.inFlightDiagnostics
        linkWatcher := s.linkWatcher
        reported := s.reported
        setCalls := s.setCalls } = s := by
  obtain ⟨c, hc, rfl⟩ := Option.map_eq_some'.1 hs
  refine ⟨c, hc, ?_⟩
  split
  · split
    · exact ⟨.inl rfl, rfl⟩
    · dsimp only
      split
      · refine ⟨.inr ⟨_, ?_, ?_, rfl⟩, rfl⟩
        exacts [rfl, by simp [Stage.work, *]]
      · exact ⟨.inl rfl, rfl⟩
  · dsimp only
    split
    · exact ⟨.inl rfl, rfl⟩
    · refine ⟨.inr ⟨_, ?_, ?_, rfl⟩, rfl⟩
      exacts [rfl, by simp [Stage.work, *]]
  · exact ⟨.inl rfl, rfl⟩

/-! ## One document, two `Uri` objects

`pendingDiagnostics` is a `Set` of `Uri` objects.  A document triggered through two objects with
one `toString()`, here the text document's URI and the URI of a reference the
table-of-contents handler found, is pending twice; closing it through one object leaves the
other, and one firing of the delayer starts two computations for it.  `twinWorkspace` has one
empty markdown document, open in an editor. -/

def twinWorkspace : Workspace where
  documents := [⟨⟨0, "a.md"⟩, ""⟩]
  textDocuments := [⟨0, "a.md"⟩]
  getAllLinks := fun _ => []
  getOptions := fun _ => ⟨true, none, none, none, none, []⟩
  host :=
    ⟨fun _ => none, fun _ => false, fun _ _ => false, fun _ _ => false, fun _ _ => false, id⟩

theorem pendingDiagnostics_holds_one_document_twice :
    (run (initial twinWorkspace)
        [.triggerDiagnostics ⟨0, "a.md"⟩, .tocChanged [⟨1, "a.md"⟩]]).map
        (·.pendingDiagnostics.toList) = some [⟨0, "a.md"⟩, ⟨1, "a.md"⟩] ∧
    (run (initial twinWorkspace)
        [.triggerDiagnostics ⟨0, "a.md"⟩, .tocChanged [⟨1, "a.md"⟩],
          .closeTextDocument ⟨0, "a.md"⟩]).map
        (·.pendingDiagnostics.toList) = some [⟨1, "a.md"⟩] ∧
    (run (initial twinWorkspace)
        [.triggerDiagnostics ⟨0, "a.md"⟩, .tocChanged [⟨1, "a.md"⟩],
          .delayerFires, .advance 0 .uncancelled id, .advance 1 .uncancelled id]).map
        (fun s => (s.firing, s.inFlightDiagnostics.started)) =
      some ([0], [(⟨0, "a.md"⟩, 0), (⟨0, "a.md"⟩, 1)]) := by
  decide

/-! ## Quiescent states -/

def Quiescent (s : DiagnosticManager) : Prop :=
  s.pendingDiagnostics.elements = [] ∧ s.scheduled = none ∧ s.computations = [] ∧
    s.rebuilds = 0

instance (s : DiagnosticManager) : Decidable s.Quiescent :=
  inferInstanceAs (Decidable (_ ∧ _ ∧ _ ∧ _))

/-- What `recomputeDiagnosticState` gives the document of `uri` in workspace `w` when nothing
cancels it, the `Limiter` finishing its tasks in order. -/
def freshDiagnostics (w : Workspace) (uri : Uri) : List Diagnostic :=
  match w.getMarkdownDocument uri with
  | none => []
  | some doc =>
    (getDiagnostics w.host (w.getOptions doc.uri) doc (w.getAllLinks doc) .uncancelled
      id).diagnostics

def staleLink : MdLink :=
  ⟨⟨"[x][missing]", "missing", ⟨⟨0, 0⟩, ⟨0, 12⟩⟩, none⟩, .reference "missing"⟩

def staleWorkspace : Workspace where
  documents := [⟨⟨0, "a.md"⟩, "[x][missing]"⟩]
  textDocuments := [⟨0, "a.md"⟩]
  getAllLinks := fun _ => [staleLink]
  getOptions := fun _ => ⟨true, some .warning, none, none, none, []⟩
  host :=
    ⟨fun _ => none, fun _ => false, fun _ _ => false, fun _ _ => false, fun _ _ => false, id⟩

/-- In `staleWorkspace`, one open document whose only link, `staleLink`, is a reference with no
definition, and reference links are validated.  The rebuild triggers the document and its
computation `0` starts; the document is triggered
again while `0` awaits its links, which cancels it; computation `1` runs to the end and reports
the missing definition; then `0` gets its links, sees its token cancelled, and reports `[]`.  The
workspace never changes. -/
def staleRun : List Event :=
  [.rebuildContinues, .delayerFires, .advance 0 .uncancelled id,
    .triggerDiagnostics ⟨0, "a.md"⟩, .delayerFires, .advance 1 .uncancelled id,
    .advance 1 .uncancelled id, .advance 1 .uncancelled id, .settle 1,
    .advance 0 .uncancelled id, .settle 0]

theorem superseded_computation_reports_last :
    ∃ s, run (initial staleWorkspace) staleRun = some s ∧ s.Quiescent ∧
      s.reported.get ⟨0, "a.md"⟩ = some [] ∧
      freshDiagnostics s.workspace ⟨0, "a.md"⟩ =
        [invalidReferenceLink staleLink.source "missing" .warning] :=
  ⟨_, rfl, by decide, by decide, by decide⟩

/-! ## A document with a file link -/

/-- `a.md`, open in an editor, links to the file `b.md`, which exists; file links are
validated. -/
def linkedWorkspace : Workspace where
  documents := [⟨⟨0, "a.md"⟩, "[b](b.md)"⟩]
  textDocuments := [⟨0, "a.md"⟩]
  getAllLinks := fun _ =>
    [⟨⟨"[b](b.md)", "b.md", ⟨⟨0, 4⟩, ⟨0, 8⟩⟩, none⟩,
      .internal ⟨1, "b.md"⟩ ""⟩]
  getOptions := fun _ => ⟨true, none, none, some .warning, none, []⟩
  host :=
    ⟨fun _ => none, fun _ => true, fun _ _ => false, fun _ _ => false, fun _ _ => false, id⟩

/-- The constructor's rebuild triggers `a.md`, and its task runs to the end. -/
def linkedRun : List Event :=
  [.rebuildContinues, .delayerFires, .advance 0 .uncancelled id, .advance 0 .uncancelled id,
    .advance 0 .uncancelled id, .settle 0]

end DiagnosticManager

end MarkdownDiagnostics
