import MarkdownDiagnostics.ManagerInvariants

/-!
# Against a workspace that does not change

Suppose the host never changes the workspace and the `Limiter` finishes its tasks in some
order.  Then what every task holds was read from that workspace, and two things follow for every
run, however the tasks interleave and whatever the cancellation tokens read.  Every list of
diagnostics the manager has given the reporter for a document is part of what the computer gives
that document when nothing cancels it: cancellation drops diagnostics but never adds one, and
`superseded_computation_reports_last` shows it can drop all of them.  And the link watcher lists
a document under a path only if the document's links point there with file-link validation on,
so a change of a watched file triggers no other document.
-/

namespace MarkdownDiagnostics

/-- What a task has read from the workspace `w` at its stage: the document of its URI, that
document's options and the links `getAllLinks` finds in it. -/
def Computation.ReadFrom (w : Workspace) (c : Computation) : Prop :=
  match c.stage with
  | .gettingDocument _ => True
  | .gettingLinks doc _ config =>
    w.getMarkdownDocument doc.uri = some doc ∧ config = w.getOptions doc.uri
  | .validating doc _ config links =>
    w.getMarkdownDocument doc.uri = some doc ∧ config = w.getOptions doc.uri ∧
      links = w.getAllLinks doc

namespace DiagnosticManager

/-- An event of a run against a workspace that does not change, with a `Limiter` that finishes
its tasks in some order. -/
def Event.Static : Event → Prop
  | .workspaceChanges _ => False
  | .advance _ _ schedule => ∀ tasks, (schedule tasks).Perm tasks
  | _ => True

/-- The paths the manager hands the link watcher for `doc` when the workspace is `w`: those of
the document's links when its options validate file links, and none otherwise. -/
def watchedPaths (w : Workspace) (doc : SkinnyTextDocument) : List String :=
  LinkWatcher.linkedPaths
    (if ((w.getOptions doc.uri).enabled && (w.getOptions doc.uri).validateFileLinks.isSome) then
      w.getAllLinks doc else [])

theorem mem_watchedPaths {w : Workspace} {doc : SkinnyTextDocument} {p : String} :
    p ∈ watchedPaths w doc ↔
      ((w.getOptions doc.uri).enabled && (w.getOptions doc.uri).validateFileLinks.isSome) = true ∧
        p ∈ LinkWatcher.linkedPaths (w.getAllLinks doc) := by
  unfold watchedPaths
  split <;> simp [*, LinkWatcher.linkedPaths]

/-- A task that finishes on `doc` hands the watcher `watchedPaths`: what it gives when the
options validate file links are the document's links. -/
theorem linkedPaths_finish {w : Workspace} {doc : SkinnyTextDocument} {links : List MdLink}
    (hlinks : ((w.getOptions doc.uri).enabled && (w.getOptions doc.uri).validateFileLinks.isSome)
      = true → links = w.getAllLinks doc) :
    LinkWatcher.linkedPaths
        (if ((w.getOptions doc.uri).enabled && (w.getOptions doc.uri).validateFileLinks.isSome)
          then links else []) = watchedPaths w doc := by
  unfold watchedPaths
  split
  · next hcond => rw [hlinks hcond]
  · rfl

/-- The paths the link watcher keeps for each document: none, or its `watchedPaths`. -/
def LinkedFrom (w : Workspace) (linked : String → List String) : Prop :=
  ∀ d, linked d = [] ∨
    ∃ doc, w.getMarkdownDocument doc.uri = some doc ∧ doc.uri.toString = d ∧
      linked d = watchedPaths w doc

/-- For every document the manager has reported on, the paths the link watcher keeps are its
`watchedPaths`. -/
def ReportedLinked (w : Workspace) (reported : ResourceMap (List Diagnostic))
    (linked : String → List String) : Prop :=
  ∀ u ds, reported.get u = some ds → ∀ doc, w.getMarkdownDocument u = some doc →
    linked u.toString = watchedPaths w doc

/-- The manager runs against `w`: it reads `w`, every task read what it holds from `w`, every
reported list is part of the fresh diagnostics of its document, and the link watcher keeps, for
each document under its own URI string, its `watchedPaths` or none, and its `watchedPaths` once
it has been reported on. -/
structure Static (w : Workspace) (s : DiagnosticManager) : Prop where
  workspace : s.workspace = w
  tasks : ∀ c ∈ s.computations, c.ReadFrom w
  reported : ∀ u ds, s.reported.get u = some ds → ds.Subperm (freshDiagnostics w u)
  selfKeyed : s.linkWatcher.SelfKeyed
  linked : ∃ linked, s.linkWatcher.Tracks linked ∧ LinkedFrom w linked ∧
    ReportedLinked w s.reported linked

variable {w : Workspace} {linked : String → List String}

theorem LinkedFrom.update (h : LinkedFrom w linked) (d : String) {paths : List String}
    (hpaths : paths = [] ∨ ∃ doc, w.getMarkdownDocument doc.uri = some doc ∧
      doc.uri.toString = d ∧ paths = watchedPaths w doc) :
    LinkedFrom w (Function.update linked d paths) := by
  intro d'
  by_cases hd : d' = d
  · subst hd
    rwa [Function.update_same]
  · rw [Function.update_noteq hd]
    exact h d'

theorem ReportedLinked.set {reported : ResourceMap (List Diagnostic)}
    (h : ReportedLinked w reported linked) {doc : SkinnyTextDocument}
    (hdoc : w.getMarkdownDocument doc.uri = some doc) (ds : List Diagnostic) :
    ReportedLinked w (reported.set doc.uri ds)
      (Function.update linked doc.uri.toString (watchedPaths w doc)) := by
  intro u ds' hu doc' hdoc'
  rw [ResourceMap.get_set] at hu
  by_cases hud : u.toString = doc.uri.toString
  · rw [w.getMarkdownDocument_congr hud, hdoc] at hdoc'
    cases hdoc'
    rw [hud, Function.update_same]
  · rw [if_neg hud] at hu
    rw [Function.update_noteq hud]
    exact h u ds' hu doc' hdoc'

theorem ReportedLinked.delete {reported : ResourceMap (List Diagnostic)}
    (h : ReportedLinked w reported linked) (uri : Uri) :
    ReportedLinked w (reported.delete uri) (Function.update linked uri.toString []) := by
  intro u ds hu doc hdoc
  rw [ResourceMap.get_delete] at hu
  split at hu
  · cases hu
  · next hne =>
    rw [Function.update_noteq hne]
    exact h u ds hu doc hdoc

theorem freshDiagnostics_congr (w : Workspace) {u u' : Uri} (h : u.toString = u'.toString) :
    freshDiagnostics w u = freshDiagnostics w u' := by
  unfold freshDiagnostics
  rw [w.getMarkdownDocument_congr h]

/-- Whatever the token reads and in whatever order the `Limiter` finishes, a computation on a
document of `w` gives part of the document's fresh diagnostics. -/
theorem getDiagnostics_subperm_fresh {doc : SkinnyTextDocument}
    (hdoc : w.getMarkdownDocument doc.uri = some doc) (reads : TokenReads) {schedule : Schedule}
    (hschedule : ∀ tasks, (schedule tasks).Perm tasks) :
    (getDiagnostics w.host (w.getOptions doc.uri) doc (w.getAllLinks doc) reads
      schedule).diagnostics.Subperm (freshDiagnostics w doc.uri) := by
  unfold freshDiagnostics
  rw [hdoc]
  exact (getDiagnostics_sublist_uncancelled _ _ doc _ reads schedule).subperm.trans
    ((getDiagnostics_uncancelled_perm _ _ doc _ schedule hschedule).trans
      (getDiagnostics_uncancelled_perm _ _ doc _ id fun _ => .refl _).symm).subperm

/-! ## Every operation keeps the manager static -/

variable {s : DiagnosticManager}

theorem initial_static (w : Workspace) : (initial w).Static w where
  workspace := rfl
  tasks _ h := by simp [initial] at h
  reported u ds h := by simp [initial] at h
  selfKeyed := LinkWatcher.initial_selfKeyed
  linked :=
    ⟨_, LinkWatcher.initial_tracks, fun _ => .inl rfl, fun u ds h => by simp [initial] at h⟩

/-- An operation that keeps the workspace, the reported diagnostics and the link watcher, and
starts no task, keeps the manager static. -/
theorem Static.of_eq (h : s.Static w) {s' : DiagnosticManager}
    (hw : s'.workspace = s.workspace) (hc : ∀ c ∈ s'.computations, c ∈ s.computations)
    (hr : s'.reported = s.reported) (hl : s'.linkWatcher = s.linkWatcher) : s'.Static w where
  workspace := hw.trans h.workspace
  tasks c hc' := h.tasks c (hc c hc')
  reported := hr ▸ h.reported
  selfKeyed := hl ▸ h.selfKeyed
  linked := by rw [hl, hr]; exact h.linked

theorem Static.triggerDiagnostics (h : s.Static w) (uri : Uri) :
    (s.triggerDiagnostics uri).Static w := by
  rw [triggerDiagnostics_eq]
  exact h.of_eq rfl (fun _ => id) rfl rfl

theorem Static.rebuildContinues (h : s.Static w) : s.rebuildContinues.Static w :=
  foldl_preserves (Static w) _ (fun _ _ _ hx => hx.triggerDiagnostics _)
    (h.of_eq rfl (fun _ => id) rfl rfl)

theorem Static.linkedResourceChanged (h : s.Static w) (resource : Uri) :
    (s.linkedResourceChanged resource).Static w :=
  linkedResourceChanged_preserves (Static w) (fun _ _ hx => hx.triggerDiagnostics _) h resource

theorem Static.tocChanged (h : s.Static w) (references : List Uri) :
    (s.tocChanged references).Static w :=
  tocChanged_preserves (Static w) (fun _ _ hx => hx.triggerDiagnostics _) h references

theorem Static.rebuild (h : s.Static w) : s.rebuild.Static w :=
  have hnone (u : Uri) (ds : List Diagnostic) : s.rebuild.reported.get u ≠ some ds := by
    simp [DiagnosticManager.rebuild]
  { h with
    reported := fun u ds hu => absurd hu (hnone u ds)
    linked := have ⟨linked, htracks, hfrom, _⟩ := h.linked
      ⟨linked, htracks, hfrom, fun u ds hu => absurd hu (hnone u ds)⟩ }

theorem Static.closeTextDocument (h : s.Static w) (uri : Uri) :
    (s.closeTextDocument uri).Static w where
  workspace := h.workspace
  tasks := h.tasks
  reported u ds hu := by
    simp only [DiagnosticManager.closeTextDocument, ResourceMap.get_delete] at hu
    split at hu
    · cases hu
    · exact h.reported u ds hu
  selfKeyed := h.selfKeyed.updateLinksForDocument uri []
  linked :=
    have ⟨_, htracks, hfrom, hreported⟩ := h.linked
    ⟨_, htracks.updateLinksForDocument uri [], hfrom.update _ (.inl rfl),
      hreported.delete uri⟩

theorem Static.recomputePendingDiagnostics (h : s.Static w) (p : Nat) :
    (s.recomputePendingDiagnostics p).Static w :=
  { h with
    tasks := fun c hc => (List.mem_append.1 hc).elim (h.tasks c) fun hc => by
      obtain ⟨_, -, rfl⟩ := List.mem_map.1 hc
      trivial }

theorem Static.settle (h : s.Static w) (p : Nat) : (s.settle p).Static w :=
  h.of_eq rfl (fun _ => id) rfl rfl

/-! ## Tasks -/

theorem Static.set (h : s.Static w) (i : Nat) {c' : Computation} (hc' : c'.ReadFrom w) :
    ({ s with computations := s.computations.set i c' }).Static w :=
  { h with
    tasks := fun c hc => (List.mem_or_eq_of_mem_set hc).elim (h.tasks c) fun heq => heq ▸ hc' }

/-- A task ends with the `state` it computed on a document of `w`, under that document's
options: its links, when the watcher is given them, are those of the document, and its
diagnostics are part of the document's fresh ones. -/
theorem Static.finish (h : s.Static w) (i : Nat) {firing : Nat} {doc : SkinnyTextDocument}
    (cts : Nat) {config : DiagnosticOptions} (hdoc : w.getMarkdownDocument doc.uri = some doc)
    (hconfig : config = w.getOptions doc.uri) (state : ComputedDiagnostics)
    (hlinks : (config.enabled && config.validateFileLinks.isSome) = true →
      state.links = w.getAllLinks doc)
    (hdiagnostics : state.diagnostics.Subperm (freshDiagnostics w doc.uri)) :
    (s.finish i firing doc cts config state).Static w where
  workspace := h.workspace
  tasks c hc := h.tasks c (List.mem_of_mem_eraseIdx hc)
  reported u ds hu := by
    simp only [DiagnosticManager.finish, ResourceMap.get_set] at hu
    split at hu
    · next hu' =>
      cases hu
      rw [freshDiagnostics_congr w hu']
      exact hdiagnostics
    · exact h.reported u ds hu
  selfKeyed := h.selfKeyed.updateLinksForDocument _ _
  linked :=
    have ⟨_, htracks, hfrom, hreported⟩ := h.linked
    ⟨_, htracks.updateLinksForDocument _ _, by
      subst hconfig
      rw [linkedPaths_finish hlinks]
      exact ⟨hfrom.update _ (.inr ⟨doc, hdoc, rfl, rfl⟩), hreported.set hdoc _⟩⟩

theorem Static.advance (h : s.Static w) {i : Nat} {reads : TokenReads} {schedule : Schedule}
    (hschedule : ∀ tasks, (schedule tasks).Perm tasks) {s' : DiagnosticManager}
    (hs : s.advance i reads schedule = some s') : s'.Static w := by
  obtain ⟨c, hc, rfl⟩ := Option.map_eq_some'.1 hs
  have hread := h.tasks c (List.getElem?_mem hc)
  have hw := h.workspace
  subst hw
  split
  · split
    · exact h.of_eq rfl (fun _ => List.mem_of_mem_eraseIdx) rfl rfl
    · next resource _ doc hfound =>
      have hdoc : s.workspace.getMarkdownDocument doc.uri = some doc := by
        rw [s.workspace.getMarkdownDocument_congr (Workspace.getMarkdownDocument_uri hfound)]
        exact hfound
      have hstarted : ({ s with
          inFlightDiagnostics := s.inFlightDiagnostics.trigger doc.uri }).Static s.workspace :=
        h.of_eq rfl (fun _ => id) rfl rfl
      dsimp only
      split
      · exact hstarted.set i ⟨hdoc, rfl⟩
      · next hdisabled =>
        exact hstarted.finish i _ hdoc rfl _ (fun hcond => absurd (Bool.and_eq_true _ _ ▸ hcond).1
          (by simpa using hdisabled)) (List.nil_subperm)
  · next doc cts config hstage =>
    obtain ⟨hdoc, hconfig⟩ : s.workspace.getMarkdownDocument doc.uri = some doc ∧
        config = s.workspace.getOptions doc.uri := by
      simpa [Computation.ReadFrom, hstage] using hread
    dsimp only
    split
    · subst hconfig
      exact h.finish i cts hdoc rfl _ (fun _ => getDiagnostics_links ..)
        (getDiagnostics_subperm_fresh hdoc _ hschedule)
    · exact h.set i ⟨hdoc, hconfig, rfl⟩
  · next doc cts config links hstage =>
    obtain ⟨hdoc, hconfig, hlinks⟩ : s.workspace.getMarkdownDocument doc.uri = some doc ∧
        config = s.workspace.getOptions doc.uri ∧ links = s.workspace.getAllLinks doc := by
      simpa [Computation.ReadFrom, hstage] using hread
    subst hconfig hlinks
    exact h.finish i cts hdoc rfl _ (fun _ => getDiagnostics_links ..)
      (getDiagnostics_subperm_fresh hdoc _ hschedule)

/-! ## Every run -/

theorem Static.step (h : s.Static w) {s' : DiagnosticManager} :
    ∀ {e : Event}, e.Static → s.step e = some s' → s'.Static w
  | .triggerDiagnostics uri, _, hs => (step_eq_some hs : s' = _) ▸ h.triggerDiagnostics uri
  | .linkedResourceChanged resource, _, hs =>
    (step_eq_some hs : s' = _) ▸ h.linkedResourceChanged resource
  | .tocChanged references, _, hs => (step_eq_some hs : s' = _) ▸ h.tocChanged references
  | .configurationChanged, _, hs => (step_eq_some hs : s' = _) ▸ h.rebuild
  | .rebuildContinues, _, hs => (step_eq_some hs : _ ∧ s' = _).2 ▸ h.rebuildContinues
  | .closeTextDocument uri, _, hs => (step_eq_some hs : s' = _) ▸ h.closeTextDocument uri
  | .delayerFires, _, hs =>
    have ⟨p, _, hs'⟩ : ∃ p, s.scheduled = some p ∧ s' = s.recomputePendingDiagnostics p :=
      step_eq_some hs
    hs' ▸ h.recomputePendingDiagnostics p
  | .advance _ _ _, he, hs => h.advance he hs
  | .settle _, _, hs => (step_eq_some hs : _ ∧ s' = _).2 ▸ h.settle _
  | .workspaceChanges _, he, _ => he.elim

theorem static_run (events : List Event) (hevents : ∀ e ∈ events, e.Static)
    {s s' : DiagnosticManager} (h : s.Static w) (hrun : run s events = some s') : s'.Static w :=
  run_preserves (Static w) Event.Static (fun h he hs => h.step he hs) events hevents h hrun

/-! ## What is reported -/

/-- Against a workspace that does not change, every list of diagnostics the manager has given
the reporter for a document is, up to order, part of what the computer gives the document when
nothing cancels it. -/
theorem reported_subperm_fresh (workspace : Workspace) (events : List Event)
    (s : DiagnosticManager) (hevents : ∀ e ∈ events, e.Static)
    (hrun : run (initial workspace) events = some s) :
    ∀ uri ds, s.reported.get uri = some ds → ds.Subperm (freshDiagnostics workspace uri) :=
  (static_run events hevents (initial_static workspace) hrun).reported

/-- The run of `superseded_computation_reports_last` keeps its workspace, and its schedules are
the order in which the tasks were queued. -/
theorem staleRun_static : ∀ e ∈ staleRun, e.Static := by
  intro e he
  simp only [staleRun, List.mem_cons, List.not_mem_nil, or_false] at he
  rcases he with rfl | rfl | rfl | rfl | rfl | rfl | rfl | rfl | rfl | rfl | rfl <;>
    first | trivial | exact fun _ => .refl _

/-- `linkedRun` keeps its workspace too, and runs one task at a time. -/
theorem linkedRun_static : ∀ e ∈ linkedRun, e.Static := by
  intro e he
  simp only [linkedRun, List.mem_cons, List.not_mem_nil, or_false] at he
  rcases he with rfl | rfl | rfl | rfl | rfl | rfl <;> first | trivial | exact fun _ => .refl _

theorem reported_subperm_fresh_stale :
    (∀ e ∈ staleRun, e.Static) ∧ ∃ s, run (initial staleWorkspace) staleRun = some s ∧
      ∀ uri ds, s.reported.get uri = some ds →
        ds.Subperm (freshDiagnostics staleWorkspace uri) :=
  ⟨staleRun_static, _, rfl,
    reported_subperm_fresh staleWorkspace staleRun _ staleRun_static rfl⟩

/-! ## What the link watcher lists -/

/-- `onDidChangeLinkedToFile` adds to the pending set only the open text documents that carry the
URI string of a document the watcher lists under the changed path. -/
theorem mem_linkedResourceChanged {resource u : Uri}
    (hu : u ∈ (s.linkedResourceChanged resource).pendingDiagnostics.elements) :
    u ∈ s.pendingDiagnostics.elements ∨
      ∃ entry, s.linkWatcher.watchers.get resource = some entry ∧
        ∃ v ∈ entry.documents.values,
          s.workspace.textDocuments.find? (·.toString = v.toString) = some u := by
  unfold DiagnosticManager.linkedResourceChanged at hu
  split at hu
  · exact .inl hu
  · next entry hentry =>
    refine ((foldl_preserves (fun x : DiagnosticManager => x.workspace = s.workspace ∧
        ∀ u ∈ x.pendingDiagnostics.elements, u ∈ s.pendingDiagnostics.elements ∨
          ∃ v ∈ entry.documents.values,
            s.workspace.textDocuments.find? (·.toString = v.toString) = some u)
      entry.documents.values (fun x v hv hx => ?_) ⟨rfl, fun u hu => .inl hu⟩).2 u hu).imp id
      fun ⟨v, hv, hfind⟩ => ⟨entry, hentry, v, hv, hfind⟩
    obtain ⟨hxw, hx⟩ := hx
    split
    · next uri hfind =>
      rw [triggerDiagnostics_eq]
      refine ⟨hxw, fun u hu => ?_⟩
      rcases UriSet.mem_add.1 hu with rfl | hu
      · exact .inr ⟨v, hv, hxw ▸ hfind⟩
      · exact hx u hu
    · exact ⟨hxw, hx⟩

/-- Against a workspace that does not change, a change of a file triggers, beyond what is
already pending, only open text documents whose document in the workspace has file-link
validation on and a link to that file. -/
theorem linkedResourceChanged_triggers_only_linking_documents (workspace : Workspace)
    (events : List Event) (s : DiagnosticManager) (hevents : ∀ e ∈ events, e.Static)
    (hrun : run (initial workspace) events = some s) (resource : Uri) :
    ∀ u ∈ (s.linkedResourceChanged resource).pendingDiagnostics.elements,
      u ∈ s.pendingDiagnostics.elements ∨
        (u ∈ workspace.textDocuments ∧ ∃ doc, workspace.getMarkdownDocument u = some doc ∧
          ((workspace.getOptions doc.uri).enabled &&
            (workspace.getOptions doc.uri).validateFileLinks.isSome) = true ∧
          resource.toString ∈ LinkWatcher.linkedPaths (workspace.getAllLinks doc)) := by
  have h := static_run events hevents (initial_static workspace) hrun
  obtain ⟨linked, htracks, hfrom, -⟩ := h.linked
  intro u hu
  rcases mem_linkedResourceChanged hu with hu | ⟨entry, hentry, v, hv, hfind⟩
  · exact .inl hu
  have hentry' := ResourceMap.get_eq_some_iff.1 hentry
  obtain ⟨⟨k, v'⟩, hk, rfl⟩ := List.mem_map.1 hv
  have hvk : v'.toString = k := h.selfKeyed _ _ hentry' k v' hk
  have hlinked : resource.toString ∈ linked k :=
    (htracks.documents_iff _ _ hentry' k).1 (ResourceMap.mem_keys.2 ⟨v', hk⟩)
  rcases hfrom k with hnil | ⟨doc, hdoc, hdk, hpaths⟩
  · simp [hnil] at hlinked
  have hu_string : u.toString = doc.uri.toString := by
    simpa [hvk, hdk] using List.find?_some hfind
  refine .inr ⟨h.workspace ▸ List.mem_of_find?_eq_some hfind, doc, ?_,
    mem_watchedPaths.1 (hpaths ▸ hlinked)⟩
  rw [workspace.getMarkdownDocument_congr hu_string]
  exact hdoc

/-- After `linkedRun` nothing is pending, and a change of `b.md` makes `a.md` pending. -/
theorem linkedResourceChanged_triggers_only_linking_documents_linked :
    (∀ e ∈ linkedRun, e.Static) ∧ ∃ s, run (initial linkedWorkspace) linkedRun = some s ∧
      s.pendingDiagnostics.elements = [] ∧
      (s.linkedResourceChanged ⟨1, "b.md"⟩).pendingDiagnostics.elements = [⟨0, "a.md"⟩] ∧
      ∀ u ∈ (s.linkedResourceChanged ⟨1, "b.md"⟩).pendingDiagnostics.elements,
        u ∈ s.pendingDiagnostics.elements ∨
          (u ∈ linkedWorkspace.textDocuments ∧
            ∃ doc, linkedWorkspace.getMarkdownDocument u = some doc ∧
              ((linkedWorkspace.getOptions doc.uri).enabled &&
                (linkedWorkspace.getOptions doc.uri).validateFileLinks.isSome) = true ∧
              (⟨1, "b.md"⟩ : Uri).toString ∈
                LinkWatcher.linkedPaths (linkedWorkspace.getAllLinks doc)) :=
  ⟨linkedRun_static, _, rfl, by decide, by decide,
    linkedResourceChanged_triggers_only_linking_documents linkedWorkspace linkedRun _
      linkedRun_static rfl ⟨1, "b.md"⟩⟩

/-- Against a workspace that does not change, a change of a file triggers every document the
manager has reported on whose links point to the file with file-link validation on, when it is
open as a markdown text document: the text document's URI is then pending. -/
theorem linkedResourceChanged_triggers_every_linking_document (workspace : Workspace)
    (events : List Event) (s : DiagnosticManager) (hevents : ∀ e ∈ events, e.Static)
    (hrun : run (initial workspace) events = some s) (resource : Uri) :
    ∀ u ds, s.reported.get u = some ds → ∀ doc, workspace.getMarkdownDocument u = some doc →
      ((workspace.getOptions doc.uri).enabled &&
          (workspace.getOptions doc.uri).validateFileLinks.isSome) = true →
      resource.toString ∈ LinkWatcher.linkedPaths (workspace.getAllLinks doc) →
      ∀ t ∈ workspace.textDocuments, t.toString = u.toString →
        ∃ t' ∈ (s.linkedResourceChanged resource).pendingDiagnostics.elements,
          t'.toString = u.toString := by
  have h := static_run events hevents (initial_static workspace) hrun
  obtain ⟨linked, htracks, -, hreported⟩ := h.linked
  intro u ds hu doc hdoc hvalidate hpath t ht htu
  -- The watcher lists `u` under the file, keyed by its string and keeping a `Uri` `v` of it.
  obtain ⟨entry, hentry, hkey⟩ := (htracks.listed_iff resource.toString u.toString).2
    (by rw [hreported u ds hu doc hdoc, mem_watchedPaths]; exact ⟨hvalidate, hpath⟩)
  obtain ⟨v, hv⟩ := ResourceMap.mem_keys.1 hkey
  have hvu : v.toString = u.toString := h.selfKeyed _ _ hentry _ _ hv
  -- The handler finds an open text document `t'` of that string.
  obtain ⟨t', hfind⟩ := Option.isSome_iff_exists.1 (List.find?_isSome.2
    ⟨t, h.workspace ▸ ht, by simp [htu, hvu]⟩ :
      (s.workspace.textDocuments.find? (·.toString = v.toString)).isSome)
  have ht' : t'.toString = u.toString := by simpa [hvu] using List.find?_some hfind
  refine ⟨t', ?_, ht'⟩
  unfold DiagnosticManager.linkedResourceChanged
  rw [ResourceMap.get_eq_some_iff.2 hentry]
  refine foldl_establishes (fun x : DiagnosticManager => x.workspace = s.workspace)
    (fun x => t' ∈ x.pendingDiagnostics.elements) (List.mem_map_of_mem Prod.snd hv)
    (fun x b _ hx => ?_) (fun x b _ _ hx => ?_) (fun x hx => ?_) rfl
  · split
    exacts [by rw [triggerDiagnostics_eq]; exact hx, hx]
  · split
    exacts [by rw [triggerDiagnostics_eq]; exact UriSet.mem_add.2 (.inr hx), hx]
  · dsimp only
    rw [hx, hfind]
    dsimp only
    rw [triggerDiagnostics_eq]
    exact UriSet.mem_add.2 (.inl rfl)

theorem linkedResourceChanged_triggers_every_linking_document_linked :
    (∀ e ∈ linkedRun, e.Static) ∧ ∃ s, run (initial linkedWorkspace) linkedRun = some s ∧
      (s.reported.get ⟨0, "a.md"⟩).isSome ∧
      ∃ t' ∈ (s.linkedResourceChanged ⟨1, "b.md"⟩).pendingDiagnostics.elements,
        t'.toString = "a.md" :=
  ⟨linkedRun_static, _, rfl, rfl,
    linkedResourceChanged_triggers_every_linking_document linkedWorkspace linkedRun _
      linkedRun_static rfl ⟨1, "b.md"⟩ ⟨0, "a.md"⟩ _ rfl _ rfl rfl (by decide) _
      (List.mem_singleton_self _) rfl⟩

end DiagnosticManager

end MarkdownDiagnostics
