import MarkdownDiagnostics.ManagerInvariants

/-!
# The manager finishes its own work

Once the host sends no more events, what is left are the manager's own steps: the rest of a
rebuild, the delayer firing, a task resuming from an `await`, a promise settling.  They end,
in whatever order they run: each lowers the manager's remaining work, counted
lexicographically as the rebuilds awaiting their documents, the armed delayer, the `await`s the
tasks have left and the promises still firing.  And in a reachable state where none of them
can run, the manager is quiescent: nothing is pending, no task runs, every promise has settled,
and `waitAllPending` awaits nothing.
-/

namespace MarkdownDiagnostics

namespace DiagnosticManager

/-- The manager's own steps, as opposed to the events of the host. -/
def Event.isInternal : Event → Bool
  | .rebuildContinues | .delayerFires | .advance .. | .settle _ => true
  | _ => false

/-! ## The work left -/

/-- The `await`s the tasks have left, all together. -/
def totalWork : List Computation → Nat
  | [] => 0
  | c :: cs => c.stage.work + totalWork cs

/-- The manager's remaining work, most significant first. -/
def work (s : DiagnosticManager) : Nat × Nat × Nat × Nat :=
  (s.rebuilds, if s.scheduled.isSome then 1 else 0, totalWork s.computations, s.firing.length)

/-- The lexicographic order on `work`. -/
def WorkLt : Nat × Nat × Nat × Nat → Nat × Nat × Nat × Nat → Prop :=
  Prod.Lex (· < ·) (Prod.Lex (· < ·) (Prod.Lex (· < ·) (· < ·)))

theorem workLt_wf : WellFounded WorkLt :=
  wellFounded_lt.prod_lex (wellFounded_lt.prod_lex (wellFounded_lt.prod_lex wellFounded_lt))

theorem totalWork_eraseIdx : ∀ {l : List Computation} {i : Nat} {c : Computation},
    l[i]? = some c → c.stage.work + totalWork (l.eraseIdx i) = totalWork l
  | [], _, _, h => by cases h
  | a :: _, 0, c, h => by
    obtain rfl : a = c := by simpa using h
    rfl
  | a :: l, i + 1, c, h => by
    rw [List.eraseIdx_cons_succ, totalWork, totalWork,
      ← @totalWork_eraseIdx l i c (by simpa using h)]
    omega

theorem rebuildContinues_rebuilds (s : DiagnosticManager) :
    s.rebuildContinues.rebuilds = s.rebuilds - 1 :=
  foldl_preserves (fun x : DiagnosticManager => x.rebuilds = s.rebuilds - 1) _
    (fun x _ _ hx => by rw [triggerDiagnostics_eq]; exact hx) rfl

/-- A task's step lowers the `await`s the tasks have left and keeps the rest of the work. -/
theorem advance_work_lt {s s' : DiagnosticManager} {i : Nat} {reads : TokenReads}
    {schedule : Schedule} (hs : s.advance i reads schedule = some s') :
    WorkLt s'.work s.work := by
  obtain ⟨c, hc, hcomputations, hframe⟩ := advance_eq_some hs
  have hwork : totalWork s'.computations < totalWork s.computations := by
    rw [← totalWork_eraseIdx hc]
    rcases hcomputations with h | ⟨c', -, hlt, h⟩
    · rw [h]
      have : 0 < c.stage.work := by cases c.stage <;> simp [Stage.work]
      omega
    · have hset : c'.stage.work + _ = _ :=
        totalWork_eraseIdx (List.getElem?_set_self (List.getElem?_eq_some_iff.1 hc).1)
      rw [h, ← hset, eraseIdx_set_self]
      omega
  rw [← hframe]
  exact .right _ (.right _ (.left _ _ hwork))

/-- Each of the manager's own steps lowers its remaining work. -/
theorem step_work_lt {s s' : DiagnosticManager} :
    ∀ {e : Event}, e.isInternal → s.step e = some s' → WorkLt s'.work s.work
  | .rebuildContinues, _, hs => by
    obtain ⟨hrebuilds, rfl⟩ : s.rebuilds ≠ 0 ∧ s' = _ := step_eq_some hs
    exact .left _ _ (by rw [rebuildContinues_rebuilds]; omega)
  | .delayerFires, _, hs => by
    obtain ⟨p, hp, rfl⟩ : ∃ p, s.scheduled = some p ∧ s' = _ := step_eq_some hs
    exact .right _ (.left _ _ (by simp [recomputePendingDiagnostics, hp]))
  | .advance _ _ _, _, hs => advance_work_lt hs
  | .settle p, _, hs => by
    obtain ⟨⟨hp, -⟩, rfl⟩ := step_eq_some hs
    exact .right _ (.right _ (.right _ (List.length_erase_of_mem hp ▸
      Nat.sub_lt (List.length_pos_of_mem hp) Nat.one_pos)))

/-- The manager's own steps end: there is no infinite run of them, whatever the tasks read. -/
theorem internal_steps_terminate :
    WellFounded fun s' s : DiagnosticManager =>
      ∃ e : Event, e.isInternal ∧ s.step e = some s' :=
  Subrelation.wf (fun ⟨_, he, hs⟩ => step_work_lt he hs) (InvImage.wf work workLt_wf)

/-! ## Where no step of its own is left -/

/-- No step of the manager's own can run exactly when no rebuild awaits its documents, the
delayer is not armed, no task runs and no promise is firing. -/
theorem internal_steps_none_iff {s : DiagnosticManager} :
    (∀ e : Event, e.isInternal → s.step e = none) ↔
      s.rebuilds = 0 ∧ s.scheduled = none ∧ s.computations = [] ∧ s.firing = [] := by
  constructor
  · intro hstuck
    have hrebuilds : s.rebuilds = 0 := by simpa [step] using hstuck .rebuildContinues rfl
    have hscheduled : s.scheduled = none := by simpa [step] using hstuck .delayerFires rfl
    have hcomputations : s.computations = [] := by
      cases hc : s.computations with
      | nil => rfl
      | cons c l => simpa [step, advance, hc] using hstuck (.advance 0 .uncancelled id) rfl
    refine ⟨hrebuilds, hscheduled, hcomputations, ?_⟩
    cases hf : s.firing with
    | nil => rfl
    | cons p l => simpa [step, hf, hcomputations] using hstuck (.settle p) rfl
  · rintro ⟨hrebuilds, hscheduled, hcomputations, hfiring⟩ e he
    cases e <;> simp_all [Event.isInternal, step, advance]

/-- In a reachable state where none of the manager's own steps can run, the manager is
quiescent and every promise of the delayer has settled, so `waitAllPending` awaits nothing. -/
theorem quiescent_when_no_internal_step (workspace : Workspace) (events : List Event)
    (s : DiagnosticManager) (hrun : run (initial workspace) events = some s)
    (hstuck : ∀ e : Event, e.isInternal → s.step e = none) :
    s.Quiescent ∧ s.firing = [] ∧ s.reporter.waitAllPending = [] := by
  have h := sound_run events (initial_sound workspace) hrun
  obtain ⟨hrebuilds, hscheduled, hcomputations, hfiring⟩ := internal_steps_none_iff.1 hstuck
  refine ⟨⟨h.armed hscheduled, hscheduled, hcomputations, hrebuilds⟩, hfiring,
    List.eq_nil_iff_forall_not_mem.2 fun p hp => ?_⟩
  simpa [hscheduled, hfiring] using h.mem_waitAllPending hp

/-- The rebuild triggers the one document; the delayer fires, the document's task runs to the
end and the promise settles. -/
def twinDrainRun : List Event :=
  [.rebuildContinues, .delayerFires, .advance 0 .uncancelled id, .advance 0 .uncancelled id,
    .advance 0 .uncancelled id, .settle 0]

theorem quiescent_when_no_internal_step_twin :
    ∃ s, run (initial twinWorkspace) twinDrainRun = some s ∧
      (∀ e : Event, e.isInternal → s.step e = none) ∧
      s.Quiescent ∧ s.firing = [] ∧ s.reporter.waitAllPending = [] := by
  refine ⟨_, rfl, ?stuck,
    quiescent_when_no_internal_step twinWorkspace twinDrainRun _ rfl ?stuck⟩
  exact internal_steps_none_iff.2 (by decide)

/-! ## No trigger is lost

While the host is quiet, a document triggered through `triggerDiagnostics` stays awaited by the
firings still to come: it is pending, a task of one of them works on it, or one has called
`reporter.set` for it.  No step of the manager's own drops all three, unless the workspace has
no document of that URI; and where no such step is left, nothing is pending and no task runs.
So before the manager falls idle, a task that started after the trigger has reported on every
triggered document of the workspace. -/

/-- A task's step drops the task without a report only where the workspace has no document of
its URI; otherwise it calls `reporter.set` for the task's document, tagged with the task's
firing, or moves the task on, on the same document and for the same firing. -/
theorem advance_document {s s' : DiagnosticManager} {i : Nat} {reads : TokenReads}
    {schedule : Schedule} (hs : s.advance i reads schedule = some s') :
    ∃ c, s.computations[i]? = some c ∧
      ((∃ r, c.stage = .gettingDocument r ∧ s.workspace.getMarkdownDocument r = none ∧
          s'.computations = s.computations.eraseIdx i ∧ s'.setCalls = s.setCalls) ∨
        (∃ (doc : SkinnyTextDocument) (ds : List Diagnostic), doc.uri.toString = c.document ∧
          s'.computations = s.computations.eraseIdx i ∧
          s'.setCalls = s.setCalls ++ [⟨c.firing, doc.uri, ds⟩]) ∨
        (∃ c', c'.document = c.document ∧ c'.firing = c.firing ∧
          s'.computations = s.computations.set i c' ∧ s'.setCalls = s.setCalls)) := by
  obtain ⟨c, hc, rfl⟩ := Option.map_eq_some'.1 hs
  refine ⟨c, hc, ?_⟩
  split
  · next resource hstage =>
    split
    · next hnone => exact .inl ⟨resource, hstage, hnone, rfl, rfl⟩
    · next doc hdoc =>
      have hdocument : doc.uri.toString = c.document := by
        simp [Computation.document, hstage, Workspace.getMarkdownDocument_uri hdoc]
      dsimp only
      split
      · exact .inr (.inr ⟨⟨c.firing, .gettingLinks doc _ _⟩, hdocument, rfl, rfl, rfl⟩)
      · exact .inr (.inl ⟨doc, _, hdocument, rfl, rfl⟩)
  · next doc cts config hstage =>
    have hdocument : doc.uri.toString = c.document := by simp [Computation.document, hstage]
    dsimp only
    split
    · exact .inr (.inl ⟨doc, _, hdocument, rfl, rfl⟩)
    · exact .inr (.inr ⟨⟨c.firing, .validating doc cts config _⟩, hdocument, rfl, rfl, rfl⟩)
  · next doc cts config links hstage =>
    exact .inr (.inl ⟨doc, _, by simp [Computation.document, hstage], rfl, rfl⟩)

/-- The calls `reporter.set` receives only grow. -/
theorem advance_setCalls {s s' : DiagnosticManager} {i : Nat} {reads : TokenReads}
    {schedule : Schedule} (hs : s.advance i reads schedule = some s') :
    s.setCalls <+: s'.setCalls := by
  obtain ⟨_, _, ⟨_, _, _, _, h⟩ | ⟨_, _, _, _, h⟩ | ⟨_, _, _, _, h⟩⟩ := advance_document hs
  exacts [⟨[], by rw [h, List.append_nil]⟩, ⟨_, h.symm⟩, ⟨[], by rw [h, List.append_nil]⟩]

section Lists

variable {α : Type} {l : List α} {i : Nat} {a b : α}

private theorem mem_eraseIdx_of_ne (hb : l[i]? = some b) (ha : a ∈ l) (hne : a ≠ b) :
    a ∈ l.eraseIdx i := by
  obtain ⟨j, hj⟩ := List.mem_iff_getElem?.1 ha
  exact List.mem_eraseIdx_iff_getElem?.2
    ⟨j, fun hji => hne (Option.some.inj ((hji ▸ hj).symm.trans hb)), hj⟩

private theorem mem_set_of_ne (hb : l[i]? = some b) (ha : a ∈ l) (hne : a ≠ b) (c : α) :
    a ∈ l.set i c := by
  obtain ⟨j, hj⟩ := List.mem_iff_getElem?.1 ha
  have hij : i ≠ j := fun hij => hne (Option.some.inj ((hij ▸ hj).symm.trans hb))
  exact List.mem_iff_getElem?.2 ⟨j, by rw [List.getElem?_set_ne hij]; exact hj⟩

end Lists

variable {F : List Nat} {log : List SetCall} {uri : Uri} {s s' : DiagnosticManager}

/-- Since the calls `log` were made and the firings `F` started: the calls only grow from `log`,
and every promise the delayer fires from now on is outside `F`, the armed one and every one
still to be created. -/
structure Since (F : List Nat) (log : List SetCall) (s : DiagnosticManager) : Prop where
  log_grows : log <+: s.setCalls
  scheduled_outside : ∀ p, s.scheduled = some p → p ∉ F
  created_lt : ∀ p ∈ F, p < s.promises

theorem Firings.since (h : s.Firings) : s.Since s.firing s.setCalls :=
  ⟨⟨[], List.append_nil _⟩, fun p hp => (h.scheduled_fresh p hp).2, h.firing_lt⟩

theorem Since.triggerDiagnostics (h : s.Since F log) (u : Uri) :
    (s.triggerDiagnostics u).Since F log := by
  rw [triggerDiagnostics_eq]
  refine ⟨h.log_grows, fun p hp => ?_, fun p hp => ?_⟩
  · cases hs : s.scheduled with
    | some q =>
      obtain rfl : q = p := by simpa [hs] using hp
      exact h.scheduled_outside q hs
    | none =>
      obtain rfl : s.promises = p := by simpa [hs] using hp
      exact fun hF => Nat.lt_irrefl _ (h.created_lt _ hF)
  · have := h.created_lt p hp
    dsimp only
    split <;> omega

theorem Since.step (h : s.Since F log) :
    ∀ {e : Event}, e.isInternal → s.step e = some s' → s'.Since F log
  | .rebuildContinues, _, hs => (step_eq_some hs : _ ∧ s' = _).2 ▸
    foldl_preserves (Since F log) _ (fun _ _ _ hx => hx.triggerDiagnostics _) ⟨h.1, h.2, h.3⟩
  | .delayerFires, _, hs => by
    obtain ⟨p, -, rfl⟩ : ∃ p, s.scheduled = some p ∧ s' = _ := step_eq_some hs
    exact ⟨h.log_grows, nofun, h.created_lt⟩
  | .advance _ _ _, _, hs => by
    have hgrown := h.log_grows.trans (advance_setCalls hs)
    rw [← (advance_eq_some hs).choose_spec.2.2] at h
    exact ⟨hgrown, h.scheduled_outside, h.created_lt⟩
  | .settle _, _, hs => (step_eq_some hs : _ ∧ s' = _).2 ▸ ⟨h.1, h.2, h.3⟩

/-- Among the calls `reporter.set` received after `log`, one is for the document of `uri`, from a
task of a firing outside `F`. -/
def ReportedSince (F : List Nat) (log : List SetCall) (uri : Uri) (calls : List SetCall) : Prop :=
  ∃ new, calls = log ++ new ∧ ∃ call ∈ new, call.uri.toString = uri.toString ∧ call.firing ∉ F

theorem ReportedSince.mono {calls calls' : List SetCall} (h : ReportedSince F log uri calls)
    (hcalls : calls <+: calls') : ReportedSince F log uri calls' := by
  obtain ⟨new, rfl, call, hcall, hcallu⟩ := h
  obtain ⟨more, rfl⟩ := hcalls
  exact ⟨new ++ more, List.append_assoc _ _ _, call, List.mem_append_left _ hcall, hcallu⟩

theorem reportedSince_append {calls : List SetCall} (hlog : log <+: calls) {call : SetCall}
    (hu : call.uri.toString = uri.toString) (hF : call.firing ∉ F) :
    ReportedSince F log uri (calls ++ [call]) := by
  obtain ⟨t, rfl⟩ := hlog
  exact ⟨t ++ [call], List.append_assoc _ _ _, call, List.mem_append_right _
    (List.mem_singleton_self _), hu, hF⟩

/-- The document of `uri` is still to be reported by a firing outside `F`: it is pending, a task
of such a firing works on it, or one has reported on it since `log`. -/
def Awaited (F : List Nat) (log : List SetCall) (uri : Uri) (s : DiagnosticManager) : Prop :=
  (∃ u ∈ s.pendingDiagnostics.elements, u.toString = uri.toString) ∨
    (∃ c ∈ s.computations, c.document = uri.toString ∧ c.firing ∉ F) ∨
    ReportedSince F log uri s.setCalls

theorem awaited_triggerDiagnostics (s : DiagnosticManager) (uri : Uri) :
    (s.triggerDiagnostics uri).Awaited F log uri := by
  rw [triggerDiagnostics_eq]
  exact .inl ⟨uri, UriSet.mem_add.2 (.inl rfl), rfl⟩

theorem Awaited.triggerDiagnostics (h : s.Awaited F log uri) (u : Uri) :
    (s.triggerDiagnostics u).Awaited F log uri := by
  rw [triggerDiagnostics_eq]
  exact h.imp (fun ⟨v, hv, hvs⟩ => ⟨v, UriSet.mem_add.2 (.inr hv), hvs⟩) id

/-- The delayer's firing hands each pending document to a task of its own promise. -/
theorem Awaited.recomputePendingDiagnostics (h : s.Awaited F log uri) {p : Nat} (hp : p ∉ F) :
    (s.recomputePendingDiagnostics p).Awaited F log uri := by
  rcases h with ⟨v, hv, hvs⟩ | ⟨c, hc, hcs⟩ | h
  · exact .inr (.inl ⟨⟨p, .gettingDocument v⟩,
      List.mem_append_right _ (List.mem_map_of_mem _ hv), hvs, hp⟩)
  · exact .inr (.inl ⟨c, List.mem_append_left _ hc, hcs⟩)
  · exact .inr (.inr h)

theorem Awaited.advance (h : s.Awaited F log uri) (hlog : log <+: s.setCalls)
    (hdoc : (s.workspace.getMarkdownDocument uri).isSome)
    {i : Nat} {reads : TokenReads} {schedule : Schedule}
    (hs : s.advance i reads schedule = some s') : s'.Awaited F log uri := by
  have hframe := (advance_eq_some hs).choose_spec.2.2
  obtain ⟨c, hc, hcases⟩ := advance_document hs
  -- The task that moved, when it works on `uri` for a firing outside `F`, leaves `uri` awaited.
  have hmoved (hcu : c.document = uri.toString) (hcF : c.firing ∉ F) : s'.Awaited F log uri := by
    rcases hcases with ⟨r, hstage, hnone, -⟩ | ⟨doc, ds, hdocu, -, hcalls⟩ |
      ⟨c', hc', hfiring, hcomputations, -⟩
    · have hr : r.toString = uri.toString := by simpa [Computation.document, hstage] using hcu
      rw [Workspace.getMarkdownDocument_congr _ hr] at hnone
      simp [hnone] at hdoc
    · exact .inr (.inr (hcalls ▸ reportedSince_append hlog (hdocu.trans hcu) hcF))
    · exact .inr (.inl ⟨c', hcomputations ▸
        List.mem_iff_getElem?.2 ⟨i, List.getElem?_set_self (List.getElem?_eq_some_iff.1 hc).1⟩,
        hc'.trans hcu, hfiring ▸ hcF⟩)
  rcases h with ⟨v, hv, hvs⟩ | ⟨c₀, hc₀, hc₀s, hc₀F⟩ | h
  · exact .inl ⟨v, congrArg (·.pendingDiagnostics.elements) hframe ▸ hv, hvs⟩
  · by_cases heq : c₀ = c
    · exact hmoved (heq ▸ hc₀s) (heq ▸ hc₀F)
    · refine .inr (.inl ⟨c₀, ?_, hc₀s, hc₀F⟩)
      obtain ⟨c₁, hc₁, hcomputations, -⟩ := advance_eq_some hs
      obtain rfl : c₁ = c := Option.some.inj (hc₁.symm.trans hc)
      rcases hcomputations with hcomputations | ⟨c', -, -, hcomputations⟩
      exacts [hcomputations ▸ mem_eraseIdx_of_ne hc hc₀ heq,
        hcomputations ▸ mem_set_of_ne hc hc₀ heq c']
  · exact .inr (.inr (h.mono (advance_setCalls hs)))

theorem rebuildContinues_workspace (s : DiagnosticManager) :
    s.rebuildContinues.workspace = s.workspace :=
  foldl_preserves (fun x : DiagnosticManager => x.workspace = s.workspace) _
    (fun x _ _ hx => by rw [triggerDiagnostics_eq]; exact hx) rfl

/-- No step of the manager's own changes the workspace or leaves a document of it unawaited. -/
theorem Awaited.step (h : s.Awaited F log uri) (hsince : s.Since F log)
    (hdoc : (s.workspace.getMarkdownDocument uri).isSome) :
    ∀ {e : Event}, e.isInternal → s.step e = some s' →
      s'.Awaited F log uri ∧ s'.workspace = s.workspace
  | .rebuildContinues, _, hs => by
    obtain ⟨-, rfl⟩ : s.rebuilds ≠ 0 ∧ s' = _ := step_eq_some hs
    exact ⟨foldl_preserves (Awaited F log uri) _ (fun _ _ _ hx => hx.triggerDiagnostics _) h,
      rebuildContinues_workspace s⟩
  | .delayerFires, _, hs => by
    obtain ⟨p, hp, rfl⟩ : ∃ p, s.scheduled = some p ∧ s' = _ := step_eq_some hs
    exact ⟨h.recomputePendingDiagnostics (hsince.scheduled_outside p hp), rfl⟩
  | .advance _ _ _, _, hs =>
    ⟨h.advance hsince.log_grows hdoc hs,
      congrArg (·.workspace) (advance_eq_some hs).choose_spec.2.2⟩
  | .settle _, _, hs => by
    obtain ⟨-, rfl⟩ : _ ∧ s' = _ := step_eq_some hs
    exact ⟨h, rfl⟩

/-- Once none of the manager's own steps is left, nothing is pending and no task runs, so a
document still awaited has been reported on. -/
theorem Awaited.reportedSince_of_quiescent (h : s.Awaited F log uri) (hsound : s.Sound)
    (hstuck : ∀ e : Event, e.isInternal → s.step e = none) :
    ReportedSince F log uri s.setCalls := by
  obtain ⟨-, hscheduled, hcomputations, -⟩ := internal_steps_none_iff.1 hstuck
  rcases h with ⟨v, hv, -⟩ | ⟨c, hc, -⟩ | h
  · simp [hsound.armed hscheduled] at hv
  · simp [hcomputations] at hc
  · exact h

/-- When a document of the workspace is triggered and the host then stays quiet, then by the time
none of the manager's own steps is left, `reporter.set` has been called for it after the trigger
by a task of a firing that had not started at the trigger; every task running at the trigger
belongs to a firing that had. -/
theorem triggered_document_is_reported (workspace : Workspace) (events : List Event)
    (s : DiagnosticManager) (hrun : run (initial workspace) events = some s) (uri : Uri)
    (hdoc : (s.workspace.getMarkdownDocument uri).isSome) (internal : List Event)
    (hinternal : ∀ e ∈ internal, e.isInternal) (s' : DiagnosticManager)
    (hs' : run (s.triggerDiagnostics uri) internal = some s')
    (hstuck : ∀ e : Event, e.isInternal → s'.step e = none) :
    (∀ c ∈ s.computations, c.firing ∈ s.firing) ∧
      ∃ calls, s'.setCalls = s.setCalls ++ calls ∧
        ∃ call ∈ calls, call.uri.toString = uri.toString ∧ call.firing ∉ s.firing := by
  have hfirings := firings_run events (initial_firings workspace) hrun
  have hsound := sound_run internal
    ((sound_run events (initial_sound workspace) hrun).triggerDiagnostics uri) hs'
  have hawaited := run_preserves
    (fun x => x.Awaited s.firing s.setCalls uri ∧ x.Since s.firing s.setCalls ∧
      (x.workspace.getMarkdownDocument uri).isSome)
    (fun e => e.isInternal)
    (fun h he hs => have h' := h.1.step h.2.1 h.2.2 he hs; ⟨h'.1, h.2.1.step he hs, h'.2 ▸ h.2.2⟩)
    internal hinternal
    ⟨awaited_triggerDiagnostics s uri, hfirings.since.triggerDiagnostics uri,
      by rw [triggerDiagnostics_eq]; exact hdoc⟩ hs'
  exact ⟨hfirings.tasks_firing, hawaited.1.reportedSince_of_quiescent hsound hstuck⟩

/-- Three events into `staleRun`, task `0` of firing `0` awaits its links; `a.md` is triggered
again and the rest of `staleRun` drains.  Of the two calls for `a.md`, the one from firing `1`
is the report the trigger asked for; task `0`, started before the trigger and cancelled by it,
reports last. -/
theorem triggered_document_is_reported_stale :
    ∃ s, run (initial staleWorkspace) (staleRun.take 3) = some s ∧
      (s.workspace.getMarkdownDocument ⟨0, "a.md"⟩).isSome ∧
      (∀ e ∈ staleRun.drop 4, e.isInternal) ∧
      ∃ s', run (s.triggerDiagnostics ⟨0, "a.md"⟩) (staleRun.drop 4) = some s' ∧
        (∀ e : Event, e.isInternal → s'.step e = none) ∧
        s'.setCalls.map (·.firing) = [1, 0] ∧
        (∀ c ∈ s.computations, c.firing ∈ s.firing) ∧
        ∃ calls, s'.setCalls = s.setCalls ++ calls ∧
          ∃ call ∈ calls, call.uri.toString = "a.md" ∧ call.firing ∉ s.firing := by
  refine ⟨_, rfl, rfl, by decide, _, rfl, ?stuck, by decide,
    triggered_document_is_reported staleWorkspace (staleRun.take 3) _ rfl ⟨0, "a.md"⟩ rfl
      (staleRun.drop 4) (by decide) _ rfl ?stuck⟩
  exact internal_steps_none_iff.2 (by decide)

/-! ## A rebuild reports every document

`rebuild()` clears what was reported and, once `getAllMarkdownDocuments` answers, triggers every
document; the constructor starts one.  While a rebuild awaits its documents, or once it has
triggered them, each document of the workspace is still to be reported. -/

/-- The rest of a rebuild leaves every document of the workspace awaited. -/
theorem awaited_rebuildContinues {doc : SkinnyTextDocument} (hdoc : doc ∈ s.workspace.documents) :
    s.rebuildContinues.Awaited F log doc.uri := by
  suffices h : ∀ (l : List SkinnyTextDocument) (x : DiagnosticManager),
      doc ∈ l ∨ x.Awaited F log doc.uri →
        (l.foldl (fun s d => s.triggerDiagnostics d.uri) x).Awaited F log doc.uri from
    h _ _ (.inl hdoc)
  intro l
  induction l with
  | nil => rintro x (h | h); exacts [absurd h (List.not_mem_nil _), h]
  | cons d l ih =>
    refine fun x h => ih _ ?_
    rcases h with h | h
    · rcases List.mem_cons.1 h with rfl | h
      exacts [.inr (awaited_triggerDiagnostics x _), .inl h]
    · exact .inr (h.triggerDiagnostics _)

/-- No step of the manager's own changes the workspace, and none leaves a document of it neither
awaited nor waiting for a rebuild to trigger it. -/
theorem rebuilding_or_awaited_step {doc : SkinnyTextDocument} (hdoc : doc ∈ s.workspace.documents)
    (h : s.rebuilds ≠ 0 ∨ s.Awaited F log doc.uri) (hsince : s.Since F log) {e : Event}
    (he : e.isInternal) (hs : s.step e = some s') :
    (s'.rebuilds ≠ 0 ∨ s'.Awaited F log doc.uri) ∧ s'.workspace = s.workspace := by
  rcases h with h | h
  swap
  · have h' := h.step hsince (Workspace.getMarkdownDocument_isSome hdoc) he hs
    exact ⟨.inr h'.1, h'.2⟩
  cases e with
  | rebuildContinues =>
    obtain ⟨-, rfl⟩ : s.rebuilds ≠ 0 ∧ s' = _ := step_eq_some hs
    exact ⟨.inr (awaited_rebuildContinues hdoc), rebuildContinues_workspace s⟩
  | delayerFires =>
    obtain ⟨p, -, rfl⟩ : ∃ p, s.scheduled = some p ∧ s' = _ := step_eq_some hs
    exact ⟨.inl h, rfl⟩
  | advance =>
    have hframe := (advance_eq_some hs).choose_spec.2.2
    exact ⟨.inl (congrArg (·.rebuilds) hframe ▸ h), congrArg (·.workspace) hframe⟩
  | settle =>
    obtain ⟨-, rfl⟩ : _ ∧ s' = _ := step_eq_some hs
    exact ⟨.inl h, rfl⟩
  | _ => cases he

/-- While a rebuild is under way, the constructor's or one a configuration change started, and
the host then stays quiet, every markdown document of the workspace has been reported on by the
time none of the manager's own steps is left: `reporter.set` was called for it by a task of a
firing that had not started at that point, while every task then running belongs to a firing
that had. -/
theorem rebuild_reports_every_document (workspace : Workspace) (events : List Event)
    (s : DiagnosticManager) (hrun : run (initial workspace) events = some s)
    (hrebuilds : s.rebuilds ≠ 0) (internal : List Event)
    (hinternal : ∀ e ∈ internal, e.isInternal) (s' : DiagnosticManager)
    (hs' : run s internal = some s') (hstuck : ∀ e : Event, e.isInternal → s'.step e = none) :
    (∀ c ∈ s.computations, c.firing ∈ s.firing) ∧
      ∀ doc ∈ s.workspace.documents, ∃ calls, s'.setCalls = s.setCalls ++ calls ∧
        ∃ call ∈ calls, call.uri.toString = doc.uri.toString ∧ call.firing ∉ s.firing := by
  have hfirings := firings_run events (initial_firings workspace) hrun
  have hsound := sound_run internal (sound_run events (initial_sound workspace) hrun) hs'
  refine ⟨hfirings.tasks_firing, fun doc hdoc => ?_⟩
  have hreported := run_preserves
    (fun x => (x.rebuilds ≠ 0 ∨ x.Awaited s.firing s.setCalls doc.uri) ∧
      x.Since s.firing s.setCalls ∧ x.workspace = s.workspace)
    (fun e => e.isInternal)
    (fun h he hs =>
      have h' := rebuilding_or_awaited_step (h.2.2 ▸ hdoc) h.1 h.2.1 he hs
      ⟨h'.1, h.2.1.step he hs, h'.2.trans h.2.2⟩)
    internal hinternal ⟨.inl hrebuilds, hfirings.since, rfl⟩ hs'
  rcases hreported.1 with h | h
  · exact absurd (internal_steps_none_iff.1 hstuck).1 h
  · exact h.reportedSince_of_quiescent hsound hstuck

/-- Three events into `staleRun`, task `0` of firing `0` awaits its links when the configuration
changes, and the rebuild disposes of its token without cancelling it.  The rebuild triggers
`a.md`; task `1` of firing `1` runs to the end, then task `0`. -/
def rebuildDrainRun : List Event :=
  [.rebuildContinues, .delayerFires, .advance 1 .uncancelled id, .advance 1 .uncancelled id,
    .advance 1 .uncancelled id, .settle 1, .advance 0 .uncancelled id, .advance 0 .uncancelled id,
    .settle 0]

/-- Of the two calls for `a.md`, the one from firing `1` is the rebuild's; task `0`, started
before the rebuild, reports last. -/
theorem rebuild_reports_every_document_stale :
    ∃ s, run (initial staleWorkspace) (staleRun.take 3 ++ [.configurationChanged]) = some s ∧
      s.rebuilds ≠ 0 ∧ (∀ e ∈ rebuildDrainRun, e.isInternal) ∧
      ∃ s', run s rebuildDrainRun = some s' ∧
        (∀ e : Event, e.isInternal → s'.step e = none) ∧
        s'.setCalls.map (·.firing) = [1, 0] ∧
        (∀ c ∈ s.computations, c.firing ∈ s.firing) ∧
        ∀ doc ∈ s.workspace.documents, ∃ calls, s'.setCalls = s.setCalls ++ calls ∧
          ∃ call ∈ calls, call.uri.toString = doc.uri.toString ∧ call.firing ∉ s.firing := by
  refine ⟨_, rfl, by decide, by decide, _, rfl, ?stuck, by decide,
    rebuild_reports_every_document staleWorkspace
      (staleRun.take 3 ++ [Event.configurationChanged]) _ rfl (by decide) rebuildDrainRun
      (by decide) _ rfl ?stuck⟩
  exact internal_steps_none_iff.2 (by decide)

end DiagnosticManager

end MarkdownDiagnostics
