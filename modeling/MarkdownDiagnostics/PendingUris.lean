import MarkdownDiagnostics.ManagerInvariants

/-!
# One document, one `Uri` object

`pendingDiagnostics` is the one structure of the manager that compares `Uri` objects by identity;
everything else keys by URI string.  The two agree when the host hands out one object per
document: if every URI the manager receives, from its events and from the workspace, is the
object `obj` assigns to its string, then the pending set holds at most one element per document
and closing a document leaves none of its elements, so a firing starts at most one task per
document.  The run with two objects for `a.md` in `Manager.lean` shows that without it both
fail.  The table-of-contents handler, which keys the files it has triggered by string, triggers
one object of each referenced file.
-/

namespace MarkdownDiagnostics

/-- The `Uri` objects of the workspace: those of its markdown documents and of its open text
documents. -/
def Workspace.uris (w : Workspace) : List Uri := w.documents.map (·.uri) ++ w.textDocuments

namespace DiagnosticManager

/-- The `Uri` objects an event hands the manager. -/
def Event.uris : Event → List Uri
  | .triggerDiagnostics uri => [uri]
  | .tocChanged references => references
  | .closeTextDocument uri => [uri]
  | .workspaceChanges workspace => workspace.uris
  | _ => []

/-- `u` is the object `obj` assigns to its string. -/
def Canonical (obj : String → Nat) (u : Uri) : Prop := u.objectId = obj u.toString

variable {obj : String → Nat}

theorem Canonical.eq {u v : Uri} (hu : Canonical obj u) (hv : Canonical obj v)
    (h : u.toString = v.toString) : u = v := by
  cases u
  cases v
  simp_all [Canonical]

/-- The pending elements and the URIs of the workspace are the objects `obj` assigns. -/
structure OneObject (obj : String → Nat) (s : DiagnosticManager) : Prop where
  pending : ∀ u ∈ s.pendingDiagnostics.elements, Canonical obj u
  workspace : ∀ u ∈ s.workspace.uris, Canonical obj u

variable {s : DiagnosticManager}

theorem OneObject.triggerDiagnostics (h : s.OneObject obj) {uri : Uri} (huri : Canonical obj uri) :
    (s.triggerDiagnostics uri).OneObject obj := by
  rw [triggerDiagnostics_eq]
  refine ⟨fun u hu => ?_, h.workspace⟩
  rcases UriSet.mem_add.1 hu with rfl | hu
  exacts [huri, h.pending u hu]

theorem OneObject.rebuildContinues (h : s.OneObject obj) : s.rebuildContinues.OneObject obj :=
  foldl_preserves (OneObject obj) _
    (fun _ _ hdoc hx => hx.triggerDiagnostics
      (h.workspace _ (List.mem_append_left _ (List.mem_map_of_mem _ hdoc))))
    ⟨h.pending, h.workspace⟩

theorem OneObject.linkedResourceChanged (h : s.OneObject obj) (resource : Uri) :
    (s.linkedResourceChanged resource).OneObject obj := by
  unfold DiagnosticManager.linkedResourceChanged
  split
  · exact h
  · refine foldl_preserves (OneObject obj) _ (fun x _ _ hx => ?_) h
    split
    · next uri hfind =>
      exact hx.triggerDiagnostics
        (hx.workspace _ (List.mem_append_right _ (List.mem_of_find?_eq_some hfind)))
    · exact hx

theorem OneObject.tocChanged (h : s.OneObject obj) {references : List Uri}
    (hreferences : ∀ u ∈ references, Canonical obj u) :
    (s.tocChanged references).OneObject obj :=
  foldl_preserves (fun acc : DiagnosticManager × ResourceMap Unit => acc.1.OneObject obj) _
    (fun acc file hfile hacc => by
      dsimp only
      split
      exacts [hacc, hacc.triggerDiagnostics (hreferences file hfile)]) h

/-- A task leaves the pending set and the workspace alone. -/
theorem advance_frame {i : Nat} {reads : TokenReads} {schedule : Schedule} {s' : DiagnosticManager}
    (hs : s.advance i reads schedule = some s') :
    s'.pendingDiagnostics = s.pendingDiagnostics ∧ s'.workspace = s.workspace :=
  have ⟨_, _, _, hframe⟩ := advance_eq_some hs
  ⟨congrArg (·.pendingDiagnostics) hframe, congrArg (·.workspace) hframe⟩

theorem OneObject.step (h : s.OneObject obj) {s' : DiagnosticManager} :
    ∀ {e : Event}, (∀ u ∈ e.uris, Canonical obj u) → s.step e = some s' → s'.OneObject obj
  | .triggerDiagnostics uri, he, hs =>
    (step_eq_some hs : s' = _) ▸ h.triggerDiagnostics (he uri (List.mem_singleton_self _))
  | .linkedResourceChanged resource, _, hs =>
    (step_eq_some hs : s' = _) ▸ h.linkedResourceChanged resource
  | .tocChanged _, he, hs => (step_eq_some hs : s' = _) ▸ h.tocChanged he
  | .configurationChanged, _, hs => (step_eq_some hs : s' = _) ▸
    ⟨fun u hu => by simp [DiagnosticManager.rebuild, UriSet.empty] at hu, h.workspace⟩
  | .rebuildContinues, _, hs => (step_eq_some hs : _ ∧ s' = _).2 ▸ h.rebuildContinues
  | .closeTextDocument _, _, hs => (step_eq_some hs : s' = _) ▸
    ⟨fun u hu => h.pending u (UriSet.mem_delete.1 hu).2, h.workspace⟩
  | .delayerFires, _, hs =>
    have ⟨_, _, hs'⟩ : ∃ p, s.scheduled = some p ∧ s' = s.recomputePendingDiagnostics p :=
      step_eq_some hs
    hs' ▸ ⟨fun u hu => by
      simp [DiagnosticManager.recomputePendingDiagnostics, UriSet.empty] at hu, h.workspace⟩
  | .advance _ _ _, _, hs =>
    have ⟨hpending, hworkspace⟩ := advance_frame hs
    ⟨hpending ▸ h.pending, hworkspace ▸ h.workspace⟩
  | .settle _, _, hs => (step_eq_some hs : _ ∧ s' = _).2 ▸ ⟨h.pending, h.workspace⟩
  | .workspaceChanges _, he, hs => (step_eq_some hs : s' = _) ▸ ⟨h.pending, he⟩

theorem oneObject_run (events : List Event) {s s' : DiagnosticManager} (h : s.OneObject obj)
    (hevents : ∀ e ∈ events, ∀ u ∈ e.uris, Canonical obj u)
    (hrun : run s events = some s') :
    s'.OneObject obj :=
  run_preserves (OneObject obj) (fun e => ∀ u ∈ e.uris, Canonical obj u)
    (fun h he hs => h.step he hs) events hevents h hrun

/-- When every URI the manager receives is the one object of its document, the pending set holds
at most one element per document, and after `onDidCloseTextDocument` it holds none of the
closed document, so a firing of the delayer starts at most one task per document. -/
theorem pendingDiagnostics_one_per_document (obj : String → Nat) (workspace : Workspace)
    (events : List Event) (s : DiagnosticManager)
    (hworkspace : ∀ u ∈ workspace.uris, Canonical obj u)
    (hevents : ∀ e ∈ events, ∀ u ∈ e.uris, Canonical obj u)
    (hrun : run (initial workspace) events = some s) :
    (s.pendingDiagnostics.toList.map (·.toString)).Nodup ∧
      ∀ uri, Canonical obj uri →
        ∀ u ∈ (s.closeTextDocument uri).pendingDiagnostics.toList,
          u.toString ≠ uri.toString := by
  have h := oneObject_run events
    ⟨fun u hu => by simp [initial, UriSet.empty] at hu, hworkspace⟩ hevents hrun
  refine ⟨(List.nodup_map_iff_inj_on s.pendingDiagnostics.nodup).2 fun u hu v hv huv =>
    (h.pending u hu).eq (h.pending v hv) huv, fun uri huri u hu hstring => ?_⟩
  obtain ⟨hne, hmem⟩ := UriSet.mem_delete.1 hu
  exact hne ((h.pending u hmem).eq huri hstring)

theorem pendingDiagnostics_one_per_document_twin :
    (∀ u ∈ twinWorkspace.uris, Canonical (fun _ => 0) u) ∧
      (∀ e ∈ [Event.triggerDiagnostics ⟨0, "a.md"⟩], ∀ u ∈ e.uris,
        Canonical (fun _ => 0) u) ∧
      run (initial twinWorkspace) [.triggerDiagnostics ⟨0, "a.md"⟩] =
        some ((initial twinWorkspace).triggerDiagnostics ⟨0, "a.md"⟩) ∧
      ((((initial twinWorkspace).triggerDiagnostics ⟨0, "a.md"⟩).pendingDiagnostics.toList.map
          (·.toString)).Nodup ∧
        ∀ uri, Canonical (fun _ => 0) uri →
          ∀ u ∈ (((initial twinWorkspace).triggerDiagnostics ⟨0, "a.md"⟩).closeTextDocument
            uri).pendingDiagnostics.toList, u.toString ≠ uri.toString) := by
  have hworkspace : ∀ u ∈ twinWorkspace.uris, Canonical (fun _ => 0) u := by
    simp [Workspace.uris, twinWorkspace, Canonical]
  have hevents : ∀ e ∈ [Event.triggerDiagnostics ⟨0, "a.md"⟩], ∀ u ∈ e.uris,
      Canonical (fun _ => 0) u := by
    simp [Event.uris, Canonical]
  exact ⟨hworkspace, hevents, rfl,
    pendingDiagnostics_one_per_document _ _ _ _ hworkspace hevents rfl⟩

/-! ## Every pending document waits on the armed promise

`triggerDiagnostics` hands the reporter the delayer's armed promise for the document it adds to
the pending set, so `waitAllPending` waits on that promise.  The promise is fresh: the delayer
has not started firing it, so it settles only after the firing that computes the document.  With
one object per document, no step drops the reporter's entry while the document is pending. -/

/-- Promises are numbered by creation, and the reporter holds the armed promise for every
pending document. -/
structure PendingArmed (s : DiagnosticManager) extends s.Firings : Prop where
  pending : ∀ u ∈ s.pendingDiagnostics.elements,
    ∃ p, s.scheduled = some p ∧ s.reporter.pending.get u = some p

theorem initial_pendingArmed (workspace : Workspace) : (initial workspace).PendingArmed where
  toFirings := initial_firings workspace
  pending _ h := by simp [initial, UriSet.empty] at h

theorem PendingArmed.triggerDiagnostics (h : s.PendingArmed) (uri : Uri) :
    (s.triggerDiagnostics uri).PendingArmed := by
  refine ⟨h.toFirings.triggerDiagnostics uri, fun u hu => ?_⟩
  rw [triggerDiagnostics_eq] at hu ⊢
  refine ⟨_, rfl, ?_⟩
  simp only [DiagnosticReporter.signalTriggered, ResourceMap.get_set]
  split
  · rfl
  · next hne =>
    rcases UriSet.mem_add.1 hu with rfl | hu
    · exact absurd rfl hne
    · obtain ⟨p, hp, hget⟩ := h.pending u hu
      simpa [hp] using hget

theorem PendingArmed.rebuildContinues (h : s.PendingArmed) : s.rebuildContinues.PendingArmed :=
  foldl_preserves PendingArmed _ (fun _ _ _ hx => hx.triggerDiagnostics _)
    ⟨⟨h.firing_lt, h.scheduled_fresh, h.tasks_firing⟩, h.pending⟩

/-- Closing a document through its one object drops the reporter's entry only for the document
it also drops from the pending set. -/
theorem PendingArmed.closeTextDocument (h : s.PendingArmed) (hone : s.OneObject obj) {uri : Uri}
    (huri : Canonical obj uri) : (s.closeTextDocument uri).PendingArmed where
  toFirings := ⟨h.firing_lt, h.scheduled_fresh, h.tasks_firing⟩
  pending u hu := by
    obtain ⟨hne, hu⟩ := UriSet.mem_delete.1 hu
    obtain ⟨p, hp, hget⟩ := h.pending u hu
    refine ⟨p, hp, ?_⟩
    simp only [DiagnosticManager.closeTextDocument, DiagnosticReporter.delete,
      ResourceMap.get_delete]
    rw [if_neg fun hstring => hne ((hone.pending u hu).eq huri hstring)]
    exact hget

theorem PendingArmed.step (h : s.PendingArmed) (hsound : s.Sound) (hone : s.OneObject obj)
    {s' : DiagnosticManager} :
    ∀ {e : Event}, (∀ u ∈ e.uris, Canonical obj u) → s.step e = some s' → s'.PendingArmed
  | .triggerDiagnostics uri, _, hs => (step_eq_some hs : s' = _) ▸ h.triggerDiagnostics uri
  | .linkedResourceChanged resource, _, hs => (step_eq_some hs : s' = _) ▸
    linkedResourceChanged_preserves PendingArmed (fun _ _ hx => hx.triggerDiagnostics _) h resource
  | .tocChanged references, _, hs => (step_eq_some hs : s' = _) ▸
    tocChanged_preserves PendingArmed (fun _ _ hx => hx.triggerDiagnostics _) h references
  | .configurationChanged, _, hs => (step_eq_some hs : s' = _) ▸
    ⟨⟨h.firing_lt, h.scheduled_fresh, h.tasks_firing⟩,
      fun u hu => by simp [DiagnosticManager.rebuild, UriSet.empty] at hu⟩
  | .rebuildContinues, _, hs => (step_eq_some hs : _ ∧ s' = _).2 ▸ h.rebuildContinues
  | .closeTextDocument _, he, hs => (step_eq_some hs : s' = _) ▸
    h.closeTextDocument hone (he _ (List.mem_singleton_self _))
  | .delayerFires, _, hs => by
    obtain ⟨p, hp, rfl⟩ : ∃ p, s.scheduled = some p ∧ s' = s.recomputePendingDiagnostics p :=
      step_eq_some hs
    exact ⟨h.toFirings.recomputePendingDiagnostics hp,
      fun u hu => by simp [recomputePendingDiagnostics, UriSet.empty] at hu⟩
  | .advance _ _ _, _, hs => by
    refine ⟨h.toFirings.advance hs, ?_⟩
    rw [← (advance_eq_some hs).choose_spec.2.2] at h
    exact h.pending
  | .settle q, _, hs => by
    obtain ⟨⟨hq, hnone⟩, rfl⟩ := step_eq_some hs
    refine ⟨h.toFirings.settle hnone, fun u hu => ?_⟩
    obtain ⟨p, hp, hget⟩ := h.pending u hu
    have hpq : p ≠ q := fun hpq => (h.scheduled_fresh p hp).2 (hpq ▸ hq)
    refine ⟨p, hp, ?_⟩
    simp only [DiagnosticManager.settle, hsound.registered.get_settle, hget]
    simp [hpq]
  | .workspaceChanges _, _, hs => (step_eq_some hs : s' = _) ▸
    ⟨⟨h.firing_lt, h.scheduled_fresh, h.tasks_firing⟩, h.pending⟩

/-- When every URI the manager receives is the one object of its document, the reporter holds,
for every pending document, the delayer's armed promise, which has not started firing: a caller
of `waitAllPending` waits until the firing that computes the document ends. -/
theorem pending_document_awaits_armed_promise (obj : String → Nat) (workspace : Workspace)
    (events : List Event) (s : DiagnosticManager)
    (hworkspace : ∀ u ∈ workspace.uris, Canonical obj u)
    (hevents : ∀ e ∈ events, ∀ u ∈ e.uris, Canonical obj u)
    (hrun : run (initial workspace) events = some s) :
    ∀ u ∈ s.pendingDiagnostics.elements,
      ∃ p, s.scheduled = some p ∧ p ∉ s.firing ∧ s.reporter.pending.get u = some p := by
  have h := run_preserves (fun x => x.Sound ∧ x.OneObject obj ∧ x.PendingArmed)
    (fun e => ∀ u ∈ e.uris, Canonical obj u)
    (fun h he hs => ⟨h.1.step hs, h.2.1.step he hs, h.2.2.step h.1 h.2.1 he hs⟩) events hevents
    ⟨initial_sound workspace, ⟨fun u hu => by simp [initial, UriSet.empty] at hu, hworkspace⟩,
      initial_pendingArmed workspace⟩ hrun
  intro u hu
  obtain ⟨p, hp, hget⟩ := h.2.2.pending u hu
  exact ⟨p, hp, (h.2.2.scheduled_fresh p hp).2, hget⟩

theorem pending_document_awaits_armed_promise_twin :
    (∀ u ∈ twinWorkspace.uris, Canonical (fun _ => 0) u) ∧
      (∀ e ∈ [Event.triggerDiagnostics ⟨0, "a.md"⟩], ∀ u ∈ e.uris,
        Canonical (fun _ => 0) u) ∧
      run (initial twinWorkspace) [.triggerDiagnostics ⟨0, "a.md"⟩] =
        some ((initial twinWorkspace).triggerDiagnostics ⟨0, "a.md"⟩) ∧
      ∀ u ∈ ((initial twinWorkspace).triggerDiagnostics ⟨0, "a.md"⟩).pendingDiagnostics.elements,
        ∃ p, ((initial twinWorkspace).triggerDiagnostics ⟨0, "a.md"⟩).scheduled = some p ∧
          p ∉ ((initial twinWorkspace).triggerDiagnostics ⟨0, "a.md"⟩).firing ∧
          ((initial twinWorkspace).triggerDiagnostics ⟨0, "a.md"⟩).reporter.pending.get u =
            some p := by
  have hworkspace : ∀ u ∈ twinWorkspace.uris, Canonical (fun _ => 0) u := by
    simp [Workspace.uris, twinWorkspace, Canonical]
  have hevents : ∀ e ∈ [Event.triggerDiagnostics ⟨0, "a.md"⟩], ∀ u ∈ e.uris,
      Canonical (fun _ => 0) u := by
    simp [Event.uris, Canonical]
  exact ⟨hworkspace, hevents, rfl,
    pending_document_awaits_armed_promise _ _ _ _ hworkspace hevents rfl⟩

/-! ## The table-of-contents handler triggers each file once

`onTocChanged` keeps the files it has triggered in a `ResourceMap`, which keys by URI string, so
it triggers the first reference of each string and skips the rest. -/

/-- The references none of whose earlier references has their URI string, in order. -/
def firstOfEachString : List Uri → List Uri
  | [] => []
  | u :: l => u :: (firstOfEachString l).filter (·.toString ≠ u.toString)

example :
    firstOfEachString [⟨0, "a.md"⟩, ⟨1, "a.md"⟩, ⟨2, "b.md"⟩] =
      [⟨0, "a.md"⟩, ⟨2, "b.md"⟩] := by
  decide

theorem firstOfEachString_sublist : ∀ l : List Uri, (firstOfEachString l).Sublist l
  | [] => .slnil
  | u :: l => ((List.filter_sublist _).trans (firstOfEachString_sublist l)).cons₂ u

theorem nodup_firstOfEachString : ∀ l : List Uri, ((firstOfEachString l).map (·.toString)).Nodup
  | [] => List.nodup_nil
  | u :: l => by
    rw [firstOfEachString, List.map_cons]
    refine List.nodup_cons.2 ⟨by simp, ?_⟩
    exact (nodup_firstOfEachString l).sublist ((List.filter_sublist _).map _)

theorem exists_mem_firstOfEachString :
    ∀ {l : List Uri} {r : Uri}, r ∈ l → ∃ u ∈ firstOfEachString l, u.toString = r.toString
  | u :: l, r, h => by
    rcases List.mem_cons.1 h with rfl | h
    · exact ⟨r, List.mem_cons_self _ _, rfl⟩
    obtain ⟨v, hv, hvr⟩ := exists_mem_firstOfEachString h
    by_cases hvu : v.toString = u.toString
    · exact ⟨u, List.mem_cons_self _ _, hvu.symm.trans hvr⟩
    · exact ⟨v, List.mem_cons_of_mem _ (List.mem_filter.2 ⟨hv, by simpa using hvu⟩), hvr⟩

/-- From any state and any map `triggered`, the handler's loop triggers the files of
`firstOfEachString` the map does not have. -/
theorem tocChanged_foldl (references : List Uri) (x : DiagnosticManager)
    (triggered : ResourceMap Unit) :
    (references.foldl (fun (acc : DiagnosticManager × ResourceMap Unit) file =>
        if acc.2.has file then acc else (acc.1.triggerDiagnostics file, acc.2.set file ()))
      (x, triggered)).1 =
      ((firstOfEachString references).filter (!triggered.has ·)).foldl
        (fun s file => s.triggerDiagnostics file) x := by
  induction references generalizing x triggered with
  | nil => rfl
  | cons u l ih =>
    simp only [List.foldl_cons, firstOfEachString, List.filter_cons, List.filter_filter]
    by_cases hu : triggered.has u
    · simp only [hu, if_true, Bool.not_true, Bool.false_eq_true, if_false]
      rw [ih]
      congr 1
      refine List.filter_congr fun v _ => ?_
      by_cases hv : v.toString = u.toString
      · simp [hv, triggered.has_congr hv, hu]
      · simp [hv]
    · simp only [hu, if_false, Bool.not_false, if_true, List.foldl_cons]
      rw [ih]
      congr 1
      refine List.filter_congr fun v _ => ?_
      by_cases hv : v.toString = u.toString <;> simp [ResourceMap.has_set, hv]

/-- The `onTocChanged` handler triggers, in order, references of pairwise distinct URI strings,
one for the string of every reference. -/
theorem tocChanged_triggers_each_file_once (s : DiagnosticManager) (references : List Uri) :
    s.tocChanged references =
        (firstOfEachString references).foldl (fun s file => s.triggerDiagnostics file) s ∧
      (firstOfEachString references).Sublist references ∧
      ((firstOfEachString references).map (·.toString)).Nodup ∧
      ∀ r ∈ references, ∃ file ∈ firstOfEachString references,
        file.toString = r.toString := by
  refine ⟨?_, firstOfEachString_sublist references, nodup_firstOfEachString references,
    fun r => exists_mem_firstOfEachString⟩
  rw [tocChanged, tocChanged_foldl]
  simp [ResourceMap.has]

end DiagnosticManager

end MarkdownDiagnostics
