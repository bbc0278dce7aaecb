import MarkdownDiagnostics.Manager

/-!
# What every run of the manager keeps

The manager drives its parts only through their own operations, so what each part keeps on its
own it keeps inside the manager: the in-flight requests stay `Consistent`, the link watcher
tracks some assignment of links to documents, and every entry of the reporter's `pending` map
has its `finally` callback registered.  Beyond the parts, the manager's tasks and the in-flight
requests agree: the computations `InflightDiagnosticRequests` runs are exactly those of the
tasks past `getMarkdownDocument`, and a promise `waitAllPending` awaits is one the delayer has
armed or whose firing still runs.

From these, for every reachable state: at most one task per document holds a live token, no
file watcher leaks, and `waitAllPending` awaits only unsettled promises.
-/

namespace MarkdownDiagnostics

/-- The token source a task holds once `inFlightDiagnostics.trigger` has started its
computation, with the URI it was started for. -/
def Computation.token? (c : Computation) : Option (Uri × Nat) :=
  match c.stage with
  | .gettingDocument _ => none
  | .gettingLinks doc cts _ => some (doc.uri, cts)
  | .validating doc cts _ _ => some (doc.uri, cts)

section Lists

variable {α β : Type} (f : α → Option β)

private theorem filterMap_eraseIdx_perm : ∀ {l : List α} {i : Nat} {c : α}, l[i]? = some c →
    (l.filterMap f).Perm ((f c).toList ++ (l.eraseIdx i).filterMap f)
  | [], _, _, h => by cases h
  | a :: l, 0, c, h => by
    simp only [List.getElem?_cons_zero, Option.some.injEq] at h
    subst h
    cases hf : f a <;> simp [List.filterMap_cons, hf]
  | a :: l, i + 1, c, h => by
    have ih := filterMap_eraseIdx_perm (l := l) (i := i) (by simpa using h)
    cases hf : f a with
    | none => simpa [List.filterMap_cons, hf] using ih
    | some b =>
      simp only [List.filterMap_cons, hf, List.eraseIdx_cons_succ]
      exact (ih.cons b).trans List.perm_middle.symm

theorem eraseIdx_set_self : ∀ (l : List α) (i : Nat) (x : α),
    (l.set i x).eraseIdx i = l.eraseIdx i
  | [], _, _ => rfl
  | _ :: _, 0, _ => rfl
  | a :: l, i + 1, x => by simp [eraseIdx_set_self l i x]

private theorem filterMap_set_perm {l : List α} {i : Nat} {c : α} (c' : α) (h : l[i]? = some c) :
    ((l.set i c').filterMap f).Perm ((f c').toList ++ (l.eraseIdx i).filterMap f) := by
  have hi : i < l.length := (List.getElem?_eq_some_iff.1 h).1
  rw [← eraseIdx_set_self l i c']
  exact filterMap_eraseIdx_perm f (List.getElem?_set_self hi)

/-- `InflightDiagnosticRequests.complete` erases with the `BEq` of pairs, `List.Perm.erase` with
the one of `DecidableEq`; they erase alike. -/
private theorem erase_eq_erase_decEq (l : List (Uri × Nat)) (a : Uri × Nat) :
    l.erase a = @List.erase _ instBEqOfDecidableEq l a := by
  induction l with
  | nil => rfl
  | cons b l ih =>
    simp only [List.erase_cons, beq_iff_eq, ih, instBEqOfDecidableEq, decide_eq_true_eq]

private theorem Perm.erase_running {l₁ l₂ : List (Uri × Nat)} (h : l₁.Perm l₂)
    (a : Uri × Nat) :
    (l₁.erase a).Perm (l₂.erase a) := by
  rw [erase_eq_erase_decEq, erase_eq_erase_decEq]
  exact h.erase a

end Lists

namespace DiagnosticManager

/-! ## The invariant -/

/-- The parts keep their own invariants, the computations in flight are those of the tasks,
every promise in the reporter's `pending` map is armed or firing, and a document is pending
only while the delayer is armed. -/
structure Sound (s : DiagnosticManager) : Prop where
  consistent : s.inFlightDiagnostics.Consistent
  tokens_perm : (s.computations.filterMap Computation.token?).Perm s.inFlightDiagnostics.running
  tracks : ∃ linked, s.linkWatcher.Tracks linked
  registered : s.reporter.Registered
  pending_unsettled : ∀ u p, s.reporter.pending.get u = some p →
    s.scheduled = some p ∨ p ∈ s.firing
  armed : s.scheduled = none → s.pendingDiagnostics.elements = []

variable {s : DiagnosticManager}

theorem initial_sound (workspace : Workspace) : (initial workspace).Sound where
  consistent := InflightDiagnosticRequests.initial_consistent
  tokens_perm := .nil
  tracks := ⟨_, LinkWatcher.initial_tracks⟩
  registered u p hu := by
    simp [initial, DiagnosticReporter.initial, ResourceMap.get, ResourceMap.empty] at hu
  pending_unsettled u p hu := by
    simp [initial, DiagnosticReporter.initial, ResourceMap.get, ResourceMap.empty] at hu
  armed _ := rfl

/-! ## Events of the host -/

theorem triggerDiagnostics_eq (s : DiagnosticManager) (uri : Uri) :
    s.triggerDiagnostics uri =
      { s with
        inFlightDiagnostics := s.inFlightDiagnostics.cancel uri
        pendingDiagnostics := s.pendingDiagnostics.add uri
        scheduled := some (s.scheduled.getD s.promises)
        promises := if s.scheduled.isSome then s.promises else s.promises + 1
        reporter := s.reporter.signalTriggered uri (s.scheduled.getD s.promises) } := by
  unfold triggerDiagnostics delayerTrigger
  cases s.scheduled <;> rfl

theorem Sound.triggerDiagnostics (h : s.Sound) (uri : Uri) : (s.triggerDiagnostics uri).Sound := by
  rw [triggerDiagnostics_eq]
  refine ⟨h.consistent.cancel uri, by simpa using h.tokens_perm, h.tracks,
    h.registered.step (.signalTriggered uri _), fun u p hu => ?_, nofun⟩
  simp only [DiagnosticReporter.signalTriggered, ResourceMap.get_set] at hu
  split at hu
  · cases hu
    exact .inl rfl
  · rcases h.pending_unsettled u p hu with hp | hp
    · simp [hp]
    · exact .inr hp

/-- What each turn of a loop keeps, the loop keeps. -/
theorem foldl_preserves {σ α : Type} (P : σ → Prop) {g : σ → α → σ} :
    ∀ (l : List α), (∀ x, ∀ a ∈ l, P x → P (g x a)) →
      ∀ {x : σ}, P x → P (l.foldl g x)
  | [], _, _, h => h
  | a :: l, hg, _, h =>
    foldl_preserves P l (fun x b hb => hg x b (List.mem_cons_of_mem a hb))
      (hg _ a (List.mem_cons_self a l) h)

/-- What the turn on `a` establishes and every turn keeps, the loop ends with, given an
invariant `I` every turn keeps. -/
theorem foldl_establishes {σ α : Type} (I P : σ → Prop) {g : σ → α → σ} {l : List α}
    {a : α} (ha : a ∈ l) (hI : ∀ x, ∀ b ∈ l, I x → I (g x b))
    (hP : ∀ x, ∀ b ∈ l, I x → P x → P (g x b)) (hset : ∀ x, I x → P (g x a)) {x : σ}
    (hx : I x) : P (l.foldl g x) := by
  obtain ⟨l₁, l₂, rfl⟩ := List.append_of_mem ha
  have hI₁ : I (l₁.foldl g x) :=
    foldl_preserves I l₁ (fun y b hb => hI y b (List.mem_append_left _ hb)) hx
  rw [List.foldl_append, List.foldl_cons]
  refine (foldl_preserves (fun y => I y ∧ P y) l₂ (fun y b hb hy => ?_)
    ⟨hI _ a (by simp) hI₁, hset _ hI₁⟩).2
  have hb' : b ∈ l₁ ++ a :: l₂ := by simp [hb]
  exact ⟨hI y b hb' hy.1, hP y b hb' hy.1 hy.2⟩

/-- What every trigger keeps, the handler of a changed linked file keeps. -/
theorem linkedResourceChanged_preserves (P : DiagnosticManager → Prop)
    (hP : ∀ x u, P x → P (x.triggerDiagnostics u)) (h : P s) (resource : Uri) :
    P (s.linkedResourceChanged resource) := by
  unfold DiagnosticManager.linkedResourceChanged
  split
  · exact h
  · refine foldl_preserves P _ (fun x _ _ hx => ?_) h
    split
    exacts [hP x _ hx, hx]

/-- And so does the handler of a changed table of contents. -/
theorem tocChanged_preserves (P : DiagnosticManager → Prop)
    (hP : ∀ x u, P x → P (x.triggerDiagnostics u)) (h : P s) (references : List Uri) :
    P (s.tocChanged references) :=
  foldl_preserves (fun acc : DiagnosticManager × ResourceMap Unit => P acc.1) _
    (fun acc _ _ hacc => by dsimp only; split; exacts [hacc, hP _ _ hacc]) h

theorem Sound.rebuildContinues (h : s.Sound) : s.rebuildContinues.Sound :=
  foldl_preserves Sound _ (fun _ _ _ h => h.triggerDiagnostics _)
    ⟨h.consistent, h.tokens_perm, h.tracks, h.registered, h.pending_unsettled, h.armed⟩

theorem Sound.linkedResourceChanged (h : s.Sound) (resource : Uri) :
    (s.linkedResourceChanged resource).Sound :=
  linkedResourceChanged_preserves Sound (fun _ _ hx => hx.triggerDiagnostics _) h resource

theorem Sound.tocChanged (h : s.Sound) (references : List Uri) : (s.tocChanged references).Sound :=
  tocChanged_preserves Sound (fun _ _ hx => hx.triggerDiagnostics _) h references

theorem Sound.rebuild (h : s.Sound) : s.rebuild.Sound where
  consistent := h.consistent.clear
  tokens_perm := h.tokens_perm
  tracks := h.tracks
  registered := h.registered.step .clear
  pending_unsettled u p hu := by
    simp [DiagnosticManager.rebuild, DiagnosticReporter.clear, ResourceMap.get,
      ResourceMap.empty] at hu
  armed _ := rfl

theorem Sound.closeTextDocument (h : s.Sound) (uri : Uri) : (s.closeTextDocument uri).Sound where
  consistent := h.consistent.cancel uri
  tokens_perm := by simpa [DiagnosticManager.closeTextDocument] using h.tokens_perm
  tracks := have ⟨_, ht⟩ := h.tracks; ⟨_, ht.updateLinksForDocument uri []⟩
  registered := h.registered.step (.delete uri)
  pending_unsettled u p hu := by
    simp only [DiagnosticManager.closeTextDocument, DiagnosticReporter.delete,
      ResourceMap.get_delete] at hu
    split at hu
    · cases hu
    · exact h.pending_unsettled u p hu
  armed hnone := by simp [DiagnosticManager.closeTextDocument, UriSet.delete, h.armed hnone]

theorem Sound.recomputePendingDiagnostics (h : s.Sound) {p : Nat} (hp : s.scheduled = some p) :
    (s.recomputePendingDiagnostics p).Sound where
  consistent := h.consistent
  tokens_perm := by
    have hnew : (s.pendingDiagnostics.toList.map fun resource =>
        (⟨p, .gettingDocument resource⟩ : Computation)).filterMap Computation.token? = [] :=
      List.filterMap_eq_nil_iff.2 (by simp [Computation.token?])
    rw [DiagnosticManager.recomputePendingDiagnostics]
    dsimp only
    rw [List.filterMap_append, hnew, List.append_nil]
    exact h.tokens_perm
  tracks := h.tracks
  registered := h.registered
  pending_unsettled u q hu := by
    rcases h.pending_unsettled u q hu with hq | hq
    · rw [hp, Option.some.injEq] at hq
      simp [DiagnosticManager.recomputePendingDiagnostics, hq]
    · simp [DiagnosticManager.recomputePendingDiagnostics, hq]
  armed _ := rfl

theorem Sound.settle (h : s.Sound) (p : Nat) : (s.settle p).Sound where
  consistent := h.consistent
  tokens_perm := h.tokens_perm
  tracks := h.tracks
  registered := h.registered.step (.settle p)
  pending_unsettled u q hu := by
    simp only [DiagnosticManager.settle, h.registered.get_settle] at hu
    split at hu
    · cases hu
    · next hne =>
      rcases h.pending_unsettled u q hu with hq | hq
      · exact .inl hq
      · exact .inr ((List.mem_erase_of_ne fun hqp : q = p => hne (hqp ▸ hu)).2 hq)
  armed := h.armed

/-! ## Tasks -/

variable {i : Nat} {c : Computation}

/-- A task that ends before starting a computation leaves the computations in flight alone. -/
theorem Sound.eraseIdx (h : s.Sound) (hc : s.computations[i]? = some c) (ht : c.token? = none) :
    ({ s with computations := s.computations.eraseIdx i }).Sound :=
  { h with
    tokens_perm := by
      simpa [ht] using (filterMap_eraseIdx_perm Computation.token? hc).symm.trans h.tokens_perm }

/-- A task moves to its next `await` still holding its token source. -/
theorem Sound.set (h : s.Sound) (hc : s.computations[i]? = some c) {c' : Computation}
    (ht : c'.token? = c.token?) : ({ s with computations := s.computations.set i c' }).Sound :=
  { h with
    tokens_perm := by
      refine (filterMap_set_perm Computation.token? c' hc).trans ?_
      rw [ht]
      exact (filterMap_eraseIdx_perm Computation.token? hc).symm.trans h.tokens_perm }

/-- A task that got its document starts a computation with a new token source. -/
theorem Sound.start (h : s.Sound) (hc : s.computations[i]? = some c) (ht : c.token? = none)
    (firing : Nat) (doc : SkinnyTextDocument) (config : DiagnosticOptions) :
    ({ s with
      inFlightDiagnostics := s.inFlightDiagnostics.trigger doc.uri
      computations := s.computations.set i
        ⟨firing, .gettingLinks doc s.inFlightDiagnostics.started.length config⟩ }).Sound :=
  { h with
    consistent := h.consistent.trigger doc.uri
    tokens_perm := by
      refine (filterMap_set_perm Computation.token? _ hc).trans ?_
      have hrest := (filterMap_eraseIdx_perm Computation.token? hc).symm.trans h.tokens_perm
      rw [ht, Option.toList_none, List.nil_append] at hrest
      simpa [Computation.token?, InflightDiagnosticRequests.trigger,
        InflightDiagnosticRequests.start] using
        (hrest.cons _).trans (List.perm_append_singleton _ _).symm }

/-- A task ends its computation: the `finally` of `trigger` settles its token source. -/
theorem Sound.finish (h : s.Sound) (hc : s.computations[i]? = some c) {doc : SkinnyTextDocument}
    {cts : Nat} (ht : c.token? = some (doc.uri, cts)) (firing : Nat) (config : DiagnosticOptions)
    (state : ComputedDiagnostics) : (s.finish i firing doc cts config state).Sound := by
  have hperm := filterMap_eraseIdx_perm Computation.token? hc
  rw [ht, Option.toList_some, List.singleton_append] at hperm
  have hrun := h.tokens_perm.subset (hperm.symm.subset (List.mem_cons_self _ _))
  obtain ⟨linked, htracks⟩ := h.tracks
  refine ⟨h.consistent.step (.complete cts), ?_, ⟨_, htracks.updateLinksForDocument _ _⟩,
    h.registered, h.pending_unsettled, h.armed⟩
  rw [DiagnosticManager.finish, h.consistent.step_complete hrun]
  have herase := Perm.erase_running (hperm.symm.trans h.tokens_perm) (doc.uri, cts)
  rw [List.erase_cons_head] at herase
  exact herase

private theorem finish_set (s : DiagnosticManager) (i firing : Nat) (c : Computation)
    (doc : SkinnyTextDocument) (cts : Nat) (config : DiagnosticOptions)
    (state : ComputedDiagnostics) :
    ({ s with computations := s.computations.set i c }).finish i firing doc cts config state =
      s.finish i firing doc cts config state := by
  simp [DiagnosticManager.finish, eraseIdx_set_self]

theorem Sound.advance (h : s.Sound) {reads : TokenReads} {schedule : Schedule}
    {s' : DiagnosticManager} (hs : s.advance i reads schedule = some s') : s'.Sound := by
  obtain ⟨c, hc, rfl⟩ := Option.map_eq_some'.1 hs
  split
  · next resource hstage =>
    have htoken : c.token? = none := by simp [Computation.token?, hstage]
    split
    · exact h.eraseIdx hc htoken
    · next doc _ =>
      have hstart := h.start hc htoken c.firing doc (s.workspace.getOptions doc.uri)
      dsimp only
      split
      · exact hstart
      · rw [← finish_set]
        exact hstart.finish (List.getElem?_set_self (List.getElem?_eq_some_iff.1 hc).1) rfl _ _ _
  · next doc cts config hstage =>
    have htoken : c.token? = some (doc.uri, cts) := by simp [Computation.token?, hstage]
    dsimp only
    split
    · exact h.finish hc htoken _ _ _
    · exact h.set hc (by simp [Computation.token?, hstage])
  · next doc cts config links hstage =>
    exact h.finish hc (by simp [Computation.token?, hstage]) _ _ _

/-! ## Every run -/

theorem Sound.step (h : s.Sound) {s' : DiagnosticManager} :
    ∀ {e : Event}, s.step e = some s' → s'.Sound
  | .triggerDiagnostics uri, hs => (step_eq_some hs : s' = _) ▸ h.triggerDiagnostics uri
  | .linkedResourceChanged resource, hs =>
    (step_eq_some hs : s' = _) ▸ h.linkedResourceChanged resource
  | .tocChanged references, hs => (step_eq_some hs : s' = _) ▸ h.tocChanged references
  | .configurationChanged, hs => (step_eq_some hs : s' = _) ▸ h.rebuild
  | .rebuildContinues, hs => (step_eq_some hs : _ ∧ s' = _).2 ▸ h.rebuildContinues
  | .closeTextDocument uri, hs => (step_eq_some hs : s' = _) ▸ h.closeTextDocument uri
  | .delayerFires, hs =>
    have ⟨_, hp, hs'⟩ : ∃ p, s.scheduled = some p ∧ s' = s.recomputePendingDiagnostics p :=
      step_eq_some hs
    hs' ▸ h.recomputePendingDiagnostics hp
  | .advance _ _ _, hs => h.advance hs
  | .settle _, hs => (step_eq_some hs : _ ∧ s' = _).2 ▸ h.settle _
  | .workspaceChanges _, hs => (step_eq_some hs : s' = _) ▸
    ⟨h.consistent, h.tokens_perm, h.tracks, h.registered, h.pending_unsettled, h.armed⟩

theorem sound_run (events : List Event) {s s' : DiagnosticManager} (h : s.Sound)
    (hrun : run s events = some s') : s'.Sound :=
  run_preserves Sound (fun _ => True) (fun h _ hs => h.step hs) events (fun _ _ => trivial) h hrun

/-! ## Promises are numbered by creation -/

/-- Every firing promise and the armed one were created before, the armed one has not started
firing, and every task belongs to a firing whose promise has not settled: `Promise.all` awaits
each task of its firing. -/
structure Firings (s : DiagnosticManager) : Prop where
  firing_lt : ∀ p ∈ s.firing, p < s.promises
  scheduled_fresh : ∀ p, s.scheduled = some p → p < s.promises ∧ p ∉ s.firing
  tasks_firing : ∀ c ∈ s.computations, c.firing ∈ s.firing

theorem initial_firings (workspace : Workspace) : (initial workspace).Firings where
  firing_lt _ h := by simp [initial] at h
  scheduled_fresh _ h := by simp [initial] at h
  tasks_firing _ h := by simp [initial] at h

theorem Firings.triggerDiagnostics (h : s.Firings) (uri : Uri) :
    (s.triggerDiagnostics uri).Firings := by
  rw [triggerDiagnostics_eq]
  refine ⟨fun p hp => ?_, fun p hp => ?_, h.tasks_firing⟩
  · have := h.firing_lt p hp
    dsimp only
    split <;> omega
  · cases hs : s.scheduled with
    | some q =>
      obtain rfl : q = p := by simpa [hs] using hp
      simpa [hs] using h.scheduled_fresh q hs
    | none =>
      obtain rfl : s.promises = p := by simpa [hs] using hp
      exact ⟨by simp [hs], fun hmem => (Nat.lt_irrefl _) (h.firing_lt _ hmem)⟩

/-- The delayer's firing makes its promise a firing one and gives it the pending tasks. -/
theorem Firings.recomputePendingDiagnostics (h : s.Firings) {p : Nat}
    (hp : s.scheduled = some p) : (s.recomputePendingDiagnostics p).Firings where
  firing_lt q hq := by
    rcases List.mem_append.1 hq with hq | hq
    · exact h.firing_lt q hq
    · exact List.mem_singleton.1 hq ▸ (h.scheduled_fresh p hp).1
  scheduled_fresh _ hq := by simp [DiagnosticManager.recomputePendingDiagnostics] at hq
  tasks_firing c hc := by
    rcases List.mem_append.1 hc with hc | hc
    · exact List.mem_append_left _ (h.tasks_firing c hc)
    · obtain ⟨_, -, rfl⟩ := List.mem_map.1 hc
      exact List.mem_append_right _ (List.mem_singleton_self p)

/-- A task's step keeps the firing it belongs to. -/
theorem Firings.advance (h : s.Firings) {i : Nat} {reads : TokenReads} {schedule : Schedule}
    {s' : DiagnosticManager} (hs : s.advance i reads schedule = some s') : s'.Firings := by
  obtain ⟨c, hc, hcomputations, hframe⟩ := advance_eq_some hs
  have htasks : ∀ c' ∈ s'.computations, c'.firing ∈ s.firing := by
    rcases hcomputations with hcomputations | ⟨c', hfiring, -, hcomputations⟩
    · exact fun d hd => h.tasks_firing d (List.mem_of_mem_eraseIdx (hcomputations ▸ hd))
    · intro d hd
      rcases List.mem_or_eq_of_mem_set (hcomputations ▸ hd) with hd | rfl
      · exact h.tasks_firing d hd
      · exact hfiring ▸ h.tasks_firing c (List.mem_iff_getElem?.2 ⟨i, hc⟩)
  have hfiring : s'.firing = s.firing := congrArg (·.firing) hframe
  rw [← hframe] at h
  exact ⟨h.firing_lt, h.scheduled_fresh, hfiring ▸ htasks⟩

/-- A promise settles once no task of its firing is left. -/
theorem Firings.settle (h : s.Firings) {p : Nat} (hp : ∀ c ∈ s.computations, c.firing ≠ p) :
    (s.settle p).Firings where
  firing_lt q hq := h.firing_lt q (List.mem_of_mem_erase hq)
  scheduled_fresh q hq :=
    have ⟨hlt, hfiring⟩ := h.scheduled_fresh q hq
    ⟨hlt, fun hmem => hfiring (List.mem_of_mem_erase hmem)⟩
  tasks_firing c hc := (List.mem_erase_of_ne (hp c hc)).2 (h.tasks_firing c hc)

theorem Firings.step (h : s.Firings) {s' : DiagnosticManager} :
    ∀ {e : Event}, s.step e = some s' → s'.Firings
  | .triggerDiagnostics uri, hs => (step_eq_some hs : s' = _) ▸ h.triggerDiagnostics uri
  | .linkedResourceChanged resource, hs => (step_eq_some hs : s' = _) ▸
    linkedResourceChanged_preserves Firings (fun _ _ hx => hx.triggerDiagnostics _) h resource
  | .tocChanged references, hs => (step_eq_some hs : s' = _) ▸
    tocChanged_preserves Firings (fun _ _ hx => hx.triggerDiagnostics _) h references
  | .configurationChanged, hs => (step_eq_some hs : s' = _) ▸ ⟨h.1, h.2, h.3⟩
  | .rebuildContinues, hs => (step_eq_some hs : _ ∧ s' = _).2 ▸
    foldl_preserves Firings _ (fun _ _ _ hx => hx.triggerDiagnostics _) ⟨h.1, h.2, h.3⟩
  | .closeTextDocument _, hs => (step_eq_some hs : s' = _) ▸ ⟨h.1, h.2, h.3⟩
  | .delayerFires, hs =>
    have ⟨_, hp, hs'⟩ : ∃ p, s.scheduled = some p ∧ s' = s.recomputePendingDiagnostics p :=
      step_eq_some hs
    hs' ▸ h.recomputePendingDiagnostics hp
  | .advance _ _ _, hs => h.advance hs
  | .settle _, hs =>
    have ⟨⟨_, hp⟩, hs'⟩ := step_eq_some hs
    hs' ▸ h.settle hp
  | .workspaceChanges _, hs => (step_eq_some hs : s' = _) ▸ ⟨h.1, h.2, h.3⟩

theorem firings_run (events : List Event) {s s' : DiagnosticManager} (h : s.Firings)
    (hrun : run s events = some s') : s'.Firings :=
  run_preserves Firings (fun _ => True) (fun h _ hs => h.step hs) events (fun _ _ => trivial) h
    hrun

/-! ## Every reachable state -/

/-- The computations `InflightDiagnosticRequests` runs are those of the tasks that hold a token,
and of the tasks that have started a computation for one document, at most one holds a token
that is neither cancelled nor disposed; every other one was superseded by a later trigger, a
close or a rebuild. -/
theorem at_most_one_live_task (workspace : Workspace) (events : List Event) (s : DiagnosticManager)
    (hrun : run (initial workspace) events = some s) (key : String) :
    (s.computations.filterMap Computation.token?).Perm s.inFlightDiagnostics.running ∧
      ((s.computations.filterMap Computation.token?).filter fun c =>
        c.1.toString = key ∧ s.inFlightDiagnostics.isLive c).length ≤ 1 := by
  have h := sound_run events (initial_sound workspace) hrun
  refine ⟨h.tokens_perm, ?_⟩
  rw [(h.tokens_perm.filter _).length_eq]
  exact h.consistent.live_count_le_one key

/-- Six events into `staleRun`, two tasks hold a token for `a.md`: the cancelled `0` and the
live `1`. -/
theorem at_most_one_live_task_stale :
    ∃ s, run (initial staleWorkspace) (staleRun.take 6) = some s ∧
      (s.computations.filterMap Computation.token?).length = 2 ∧
      (s.computations.filterMap Computation.token?).Perm s.inFlightDiagnostics.running ∧
      ((s.computations.filterMap Computation.token?).filter fun c =>
        c.1.toString = "a.md" ∧ s.inFlightDiagnostics.isLive c).length ≤ 1 :=
  ⟨_, rfl, by decide, at_most_one_live_task staleWorkspace (staleRun.take 6) _ rfl "a.md"⟩

theorem Sound.mem_waitAllPending (h : s.Sound) {p : Nat} (hp : p ∈ s.reporter.waitAllPending) :
    s.scheduled = some p ∨ p ∈ s.firing := by
  obtain ⟨⟨k, q⟩, hk, rfl⟩ := List.mem_map.1 hp
  exact h.pending_unsettled ⟨0, k⟩ q (ResourceMap.get_eq_some_iff.2 hk)

/-- `waitAllPending` awaits only promises the delayer has armed or whose firing still runs. -/
theorem waitAllPending_awaits_unsettled_promises (workspace : Workspace) (events : List Event)
    (s : DiagnosticManager) (hrun : run (initial workspace) events = some s) :
    ∀ p ∈ s.reporter.waitAllPending, s.scheduled = some p ∨ p ∈ s.firing :=
  fun _ hp => (sound_run events (initial_sound workspace) hrun).mem_waitAllPending hp

/-- Once the delayer has fired, `waitAllPending` awaits the firing promise `0`. -/
theorem waitAllPending_awaits_unsettled_promises_firing :
    ∃ s, run (initial twinWorkspace) [.triggerDiagnostics ⟨0, "a.md"⟩, .delayerFires] = some s ∧
      s.reporter.waitAllPending = [0] ∧
      ∀ p ∈ s.reporter.waitAllPending, s.scheduled = some p ∨ p ∈ s.firing :=
  ⟨_, rfl, by decide, waitAllPending_awaits_unsettled_promises twinWorkspace
    [.triggerDiagnostics ⟨0, "a.md"⟩, .delayerFires] _ rfl⟩

/-- Every file watcher the link watcher has started is either the live watcher of exactly one
entry or disposed of exactly once: closes, rebuilds and superseded computations leak none. -/
theorem linkWatcher_leaks_no_watcher (workspace : Workspace) (events : List Event)
    (s : DiagnosticManager) (hrun : run (initial workspace) events = some s) :
    ∀ n < s.linkWatcher.started,
      ((s.linkWatcher.watchers.values.map (·.watcher)).count n = 1 ∧
          s.linkWatcher.disposed.count n = 0) ∨
        ((s.linkWatcher.watchers.values.map (·.watcher)).count n = 0 ∧
          s.linkWatcher.disposed.count n = 1) := by
  obtain ⟨_, htracks⟩ := (sound_run events (initial_sound workspace) hrun).tracks
  exact fun _ hn => htracks.live_or_disposed hn

/-- After `linkedRun` the link watcher has started one watcher, for `b.md`. -/
theorem linkWatcher_leaks_no_watcher_linked :
    ∃ s, run (initial linkedWorkspace) linkedRun = some s ∧ s.linkWatcher.started = 1 ∧
      ∀ n < s.linkWatcher.started,
        ((s.linkWatcher.watchers.values.map (·.watcher)).count n = 1 ∧
            s.linkWatcher.disposed.count n = 0) ∨
          ((s.linkWatcher.watchers.values.map (·.watcher)).count n = 0 ∧
            s.linkWatcher.disposed.count n = 1) :=
  ⟨_, rfl, by decide, linkWatcher_leaks_no_watcher linkedWorkspace linkedRun _ rfl⟩

end DiagnosticManager

end MarkdownDiagnostics
