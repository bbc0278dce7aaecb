import MarkdownDiagnostics.Link

/-!
# The diagnostic reporter

`DiagnosticReporter.pending` maps each document to the promise of its latest triggered
recomputation, for `waitAllPending`.  `signalTriggered` records the promise and registers a
`finally` callback that deletes the entry only while it still holds that promise; `delete` and
`clear` forget entries.  Promises are named by number, and one promise may be signalled many
times: the manager signals the delayer's one completion promise for every trigger before it
fires.  When a promise settles, every callback registered on it runs.

`DiagnosticCollectionReporter` adds the diagnostic collection the user sees.
-/

namespace MarkdownDiagnostics

structure DiagnosticReporter where
  pending : ResourceMap Nat
  /-- The `finally` callbacks registered and not yet run, with the URI and promise each closes
  over, in registration order. -/
  callbacks : List (Uri × Nat)

namespace DiagnosticReporter

def initial : DiagnosticReporter := ⟨.empty, []⟩

def clear (r : DiagnosticReporter) : DiagnosticReporter := { r with pending := .empty }

def delete (r : DiagnosticReporter) (uri : Uri) : DiagnosticReporter :=
  { r with pending := r.pending.delete uri }

def signalTriggered (r : DiagnosticReporter) (uri : Uri) (recompute : Nat) : DiagnosticReporter :=
  ⟨r.pending.set uri recompute, r.callbacks ++ [(uri, recompute)]⟩

/-- One `finally` callback: delete the entry of its URI if it still holds its promise. -/
def runFinally (pending : ResourceMap Nat) (callback : Uri × Nat) : ResourceMap Nat :=
  if pending.get callback.1 = some callback.2 then pending.delete callback.1 else pending

/-- The promise `recompute` settles, normally or by rejection: the callbacks registered on it
run in registration order. -/
def settle (r : DiagnosticReporter) (recompute : Nat) : DiagnosticReporter :=
  ⟨(r.callbacks.filter (·.2 = recompute)).foldl runFinally r.pending,
    r.callbacks.filter (·.2 ≠ recompute)⟩

/-- The promises `waitAllPending` awaits. -/
def waitAllPending (r : DiagnosticReporter) : List Nat := r.pending.values

inductive Event where
  | signalTriggered (uri : Uri) (recompute : Nat)
  | settle (recompute : Nat)
  | delete (uri : Uri)
  | clear
deriving DecidableEq

def step (r : DiagnosticReporter) : Event → DiagnosticReporter
  | .signalTriggered uri recompute => r.signalTriggered uri recompute
  | .settle recompute => r.settle recompute
  | .delete uri => r.delete uri
  | .clear => r.clear

def run (events : List Event) : DiagnosticReporter := events.foldl step initial

/-! ## What `pending` should hold -/

/-- An event after which earlier signals no longer count for the URI string `key`: a newer
signal for it, a `delete` of it, or a `clear`. -/
def Event.resets (key : String) : Event → Bool
  | .signalTriggered uri _ => uri.toString = key
  | .delete uri => uri.toString = key
  | .clear => true
  | .settle _ => false

/-- The promise of the latest `signalTriggered(key, ·)` since the last `delete(key)` or
`clear()`, while the callback it registered has not run, that is, while its promise has not
settled since. -/
def expectedPending (events : List Event) (key : String) : Option Nat :=
  match events.reverse.dropWhile (!·.resets key) with
  | .signalTriggered _ p :: _ =>
    if Event.settle p ∈ events.reverse.takeWhile (!·.resets key) then none else some p
  | _ => none

section Expected

variable (events : List Event) (key : String)

theorem expectedPending_signalTriggered (uri : Uri) (p : Nat) :
    expectedPending (events ++ [.signalTriggered uri p]) key =
      if uri.toString = key then some p else expectedPending events key := by
  by_cases h : uri.toString = key
  · simp [expectedPending, Event.resets, h]
  · simp only [expectedPending, List.reverse_append, List.reverse_singleton, List.singleton_append,
      List.dropWhile_cons, List.takeWhile_cons, Event.resets, h, decide_False, Bool.not_false,
      if_true, if_false, List.mem_cons, reduceCtorEq, false_or]

theorem expectedPending_settle (q : Nat) :
    expectedPending (events ++ [.settle q]) key =
      if expectedPending events key = some q then none else expectedPending events key := by
  simp only [expectedPending, List.reverse_append, List.reverse_singleton, List.singleton_append,
    List.dropWhile_cons, List.takeWhile_cons, Event.resets, Bool.not_false, if_true, List.mem_cons,
    Event.settle.injEq]
  split
  · next _ _ p _ _ =>
    by_cases hp : p = q
    · subst hp
      split_ifs <;> simp_all
    · simp [hp, Ne.symm hp]
  · rfl

theorem expectedPending_delete (uri : Uri) :
    expectedPending (events ++ [.delete uri]) key =
      if uri.toString = key then none else expectedPending events key := by
  by_cases h : uri.toString = key
  · simp [expectedPending, Event.resets, h]
  · simp only [expectedPending, List.reverse_append, List.reverse_singleton, List.singleton_append,
      List.dropWhile_cons, List.takeWhile_cons, Event.resets, h, decide_False, Bool.not_false,
      if_true, if_false, List.mem_cons, reduceCtorEq, false_or]

theorem expectedPending_clear : expectedPending (events ++ [.clear]) key = none := by
  simp [expectedPending, Event.resets]

end Expected

/-! ## The callbacks keep `pending` as expected -/

/-- Every entry of `pending` still has a callback to run, registered on its promise for its
URI string. -/
def Registered (r : DiagnosticReporter) : Prop :=
  ∀ u p, r.pending.get u = some p → ∃ v, v.toString = u.toString ∧ (v, p) ∈ r.callbacks

/-- Running callbacks registered on the promise `q` deletes exactly the entries that hold `q`
and have a callback among them. -/
theorem get_foldl_runFinally (q : Nat) (u : Uri) :
    ∀ (callbacks : List (Uri × Nat)) (pending : ResourceMap Nat),
      (∀ cb ∈ callbacks, cb.2 = q) →
      (callbacks.foldl runFinally pending).get u =
        if pending.get u = some q ∧ ∃ cb ∈ callbacks, cb.1.toString = u.toString then none
        else pending.get u
  | [], pending, _ => by simp
  | cb :: callbacks, pending, hq => by
    rw [List.foldl_cons,
      get_foldl_runFinally q u callbacks _ fun c hc => hq c (List.mem_cons_of_mem _ hc)]
    have hcb : cb.2 = q := hq cb (List.mem_cons_self _ _)
    unfold runFinally
    by_cases hu : cb.1.toString = u.toString
    · have hget : pending.get u = pending.get cb.1 := pending.get_congr hu.symm
      by_cases hfire : pending.get cb.1 = some cb.2
      · rw [if_pos hfire, ResourceMap.get_delete, if_pos hu.symm, hget, hfire, hcb]
        simp [hu]
      · have : pending.get u ≠ some q := by rwa [hget, ← hcb]
        rw [if_neg hfire]
        simp [this]
    · have hex : (∃ c ∈ cb :: callbacks, c.1.toString = u.toString) ↔
          ∃ c ∈ callbacks, c.1.toString = u.toString := by
        simp [List.exists_mem_cons, hu]
      by_cases hfire : pending.get cb.1 = some cb.2
      · rw [if_pos hfire, ResourceMap.get_delete, if_neg (Ne.symm hu)]
        simp only [hex]
      · rw [if_neg hfire]
        simp only [hex]

theorem Registered.get_settle {r : DiagnosticReporter} (h : r.Registered) (q : Nat) (u : Uri) :
    (r.settle q).pending.get u = if r.pending.get u = some q then none else r.pending.get u := by
  show (List.foldl runFinally r.pending _).get u = _
  rw [get_foldl_runFinally q u _ _ fun cb hcb => by simpa using (List.mem_filter.1 hcb).2]
  by_cases hget : r.pending.get u = some q
  · obtain ⟨v, hv, hmem⟩ := h u q hget
    simp only [hget, true_and, if_true, ite_eq_left_iff, not_exists, not_and]
    exact fun hno => absurd hv (hno (v, q) (List.mem_filter.2 ⟨hmem, by simp⟩))
  · simp [hget]

theorem Registered.step {r : DiagnosticReporter} (h : r.Registered) : ∀ e, (r.step e).Registered
  | .signalTriggered uri p => fun u p' hu => by
    simp only [DiagnosticReporter.step, signalTriggered, ResourceMap.get_set] at hu ⊢
    by_cases huri : u.toString = uri.toString
    · simp only [huri, if_true, Option.some.injEq] at hu
      exact ⟨uri, huri.symm, by simp [hu]⟩
    · simp only [huri, if_false] at hu
      obtain ⟨v, hv, hmem⟩ := h u p' hu
      exact ⟨v, hv, List.mem_append_left _ hmem⟩
  | .settle q => fun u p hu => by
    rw [DiagnosticReporter.step, h.get_settle] at hu
    split at hu
    · cases hu
    · next hq =>
      obtain ⟨v, hv, hmem⟩ := h u p hu
      refine ⟨v, hv, List.mem_filter.2 ⟨hmem, ?_⟩⟩
      simpa using fun hpq : p = q => hq (hpq ▸ hu)
  | .delete uri => fun u p hu => by
    simp only [DiagnosticReporter.step, delete, ResourceMap.get_delete] at hu
    split at hu
    · cases hu
    · exact h u p hu
  | .clear => fun u p hu => by
    simp [DiagnosticReporter.step, clear, ResourceMap.get, ResourceMap.empty] at hu

theorem run_append (events : List Event) (e : Event) :
    run (events ++ [e]) = (run events).step e := by
  simp [run]

theorem registered_run (events : List Event) : (run events).Registered := by
  induction events using List.reverseRecOn with
  | nil => intro u p hu; simp [run, initial, ResourceMap.get, ResourceMap.empty] at hu
  | append_singleton events e ih => rw [run_append]; exact ih.step e

theorem get_pending_run (events : List Event) (u : Uri) :
    (run events).pending.get u = expectedPending events u.toString := by
  induction events using List.reverseRecOn with
  | nil => simp [run, initial, expectedPending, ResourceMap.get, ResourceMap.empty]
  | append_singleton events e ih =>
    rw [run_append]
    cases e with
    | signalTriggered v p =>
      rw [expectedPending_signalTriggered]
      by_cases h : v.toString = u.toString
      · simp [step, signalTriggered, ResourceMap.get_set, h]
      · simp [step, signalTriggered, ResourceMap.get_set, h, Ne.symm h, ih]
    | settle q => rw [expectedPending_settle, ← ih]; exact (registered_run events).get_settle q u
    | delete v =>
      rw [expectedPending_delete]
      by_cases h : v.toString = u.toString
      · simp [step, delete, ResourceMap.get_delete, h]
      · simp [step, delete, ResourceMap.get_delete, h, Ne.symm h, ih]
    | clear => simp [step, clear, expectedPending_clear, ResourceMap.get, ResourceMap.empty]

/-- After any interleaving of signals, settlements, deletes and clears, `pending` holds for each
document exactly the promise of its latest signal since the last `delete` or `clear`, while
that promise has not settled since; so `waitAllPending` awaits exactly those promises. -/
theorem pending_is_latest_unsettled_signal (events : List Event) :
    (∀ uri, (run events).pending.get uri = expectedPending events uri.toString) ∧
    (∀ p, p ∈ (run events).waitAllPending ↔
      ∃ uri : Uri, expectedPending events uri.toString = some p) := by
  refine ⟨get_pending_run events, fun p => ?_⟩
  simp only [waitAllPending, ResourceMap.values, List.mem_map, ← get_pending_run]
  constructor
  · rintro ⟨⟨k, q⟩, hk, rfl⟩
    exact ⟨⟨0, k⟩, ResourceMap.get_eq_some_iff.2 hk⟩
  · rintro ⟨uri, h⟩
    exact ⟨(uri.toString, p), ResourceMap.get_eq_some_iff.1 h, rfl⟩

end DiagnosticReporter

/-- `DiagnosticCollectionReporter`: the reporter and the `markdown` diagnostic collection the
user sees. -/
structure DiagnosticCollectionReporter extends DiagnosticReporter where
  collection : ResourceMap (List Diagnostic)

namespace DiagnosticCollectionReporter

def initial : DiagnosticCollectionReporter := ⟨.initial, .empty⟩

def clear (r : DiagnosticCollectionReporter) : DiagnosticCollectionReporter :=
  ⟨r.toDiagnosticReporter.clear, .empty⟩

/-- `set` publishes the diagnostics of a document open in a text tab and publishes none for
any other; `tabs` are the URIs of the text tabs, which `getAllTabResources` collects. -/
def set (r : DiagnosticCollectionReporter) (tabs : List Uri) (uri : Uri)
    (diagnostics : List Diagnostic) : DiagnosticCollectionReporter :=
  { r with
    collection := r.collection.set uri
      (if tabs.any (·.toString = uri.toString) then diagnostics else []) }

def delete (r : DiagnosticCollectionReporter) (uri : Uri) : DiagnosticCollectionReporter :=
  ⟨r.toDiagnosticReporter.delete uri, r.collection.delete uri⟩

end DiagnosticCollectionReporter

end MarkdownDiagnostics
