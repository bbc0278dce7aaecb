import MarkdownDiagnostics.ResourceMap
import Mathlib.Data.List.Nodup

/-!
# In-flight diagnostic requests

`InflightDiagnosticRequests` remembers, for each resource, the `CancellationTokenSource` of the
computation it started last.  `trigger` cancels the previous source of the resource before
starting a new computation, and the `finally` of a computation removes its own entry only.
`clear` (called by `rebuild` and `dispose`) disposes of every source and forgets them, without
cancelling any.

The model records what the host sees: every computation started, in order, with the resource it
was started for and its token source (numbered by creation), and the token sources cancelled and
disposed.  A computation settles, normally or by rejection, through the same `finally`.
-/

namespace MarkdownDiagnostics

structure InflightDiagnosticRequests where
  inFlightRequests : ResourceMap Nat
  started : List (Uri × Nat)
  running : List (Uri × Nat)
  cancelled : List Nat
  disposed : List Nat

namespace InflightDiagnosticRequests

def initial : InflightDiagnosticRequests := ⟨.empty, [], [], [], []⟩

def cancel (r : InflightDiagnosticRequests) (resource : Uri) : InflightDiagnosticRequests :=
  match r.inFlightRequests.get resource with
  | some cts =>
    { r with
      cancelled := r.cancelled ++ [cts],
      inFlightRequests := r.inFlightRequests.delete resource }
  | none => r

/-- The part of `trigger` after `cancel`: create a token source, record it and start the
computation with its token. -/
def start (r : InflightDiagnosticRequests) (resource : Uri) : InflightDiagnosticRequests :=
  let cts := r.started.length
  { r with
    inFlightRequests := r.inFlightRequests.set resource cts
    started := r.started ++ [(resource, cts)]
    running := r.running ++ [(resource, cts)] }

/-- The synchronous part of `trigger`, up to the first `await` of the computation. -/
def trigger (r : InflightDiagnosticRequests) (resource : Uri) : InflightDiagnosticRequests :=
  (r.cancel resource).start resource

/-- The `finally` of `trigger` once the computation holding `cts` has settled. -/
def complete (r : InflightDiagnosticRequests) (resource : Uri) (cts : Nat) :
    InflightDiagnosticRequests :=
  { r with
    inFlightRequests :=
      if r.inFlightRequests.get resource = some cts then r.inFlightRequests.delete resource
      else r.inFlightRequests
    running := r.running.erase (resource, cts)
    disposed := r.disposed ++ [cts] }

def clear (r : InflightDiagnosticRequests) : InflightDiagnosticRequests :=
  { r with disposed := r.disposed ++ r.inFlightRequests.values, inFlightRequests := .empty }

inductive Event where
  | trigger (resource : Uri)
  | cancel (resource : Uri)
  | clear
  /-- The computation holding token source `cts` settles; nothing happens if none is running. -/
  | complete (cts : Nat)

def step (r : InflightDiagnosticRequests) : Event → InflightDiagnosticRequests
  | .trigger resource => r.trigger resource
  | .cancel resource => r.cancel resource
  | .clear => r.clear
  | .complete cts =>
    match r.running.find? (·.2 = cts) with
    | some (resource, _) => r.complete resource cts
    | none => r

def run (events : List Event) : InflightDiagnosticRequests := events.foldl step initial

/-- The token source of the computation started last for the resource string `key`. -/
def lastStarted (r : InflightDiagnosticRequests) (key : String) : Option Nat :=
  (r.started.reverse.find? (·.1.toString = key)).map (·.2)

/-- A running computation holds a live token: neither cancelled nor disposed. -/
def isLive (r : InflightDiagnosticRequests) (c : Uri × Nat) : Bool :=
  c.2 ∉ r.cancelled ∧ c.2 ∉ r.disposed

/-! ## The invariant -/

/-- Token sources are numbered by creation, running computations were started and are
distinct, a map entry belongs to the running computation started last for its resource, and a
running computation whose token is not cancelled is that entry's, or was disposed of. -/
structure Consistent (r : InflightDiagnosticRequests) : Prop where
  started_ids : r.started.map (·.2) = List.range r.started.length
  running_sublist : r.running.Sublist r.started
  entry_running : ∀ key cts, (key, cts) ∈ r.inFlightRequests.entries →
    ∃ u, u.toString = key ∧ (u, cts) ∈ r.running
  entry_latest : ∀ key cts, (key, cts) ∈ r.inFlightRequests.entries →
    r.lastStarted key = some cts
  uncancelled : ∀ u cts, (u, cts) ∈ r.running → cts ∉ r.cancelled →
    r.inFlightRequests.get u = some cts ∨ cts ∈ r.disposed

variable {r : InflightDiagnosticRequests}

/-! ## One lemma per operation -/

@[simp] theorem cancel_started (u : Uri) : (r.cancel u).started = r.started := by
  unfold cancel; split <;> rfl

@[simp] theorem cancel_running (u : Uri) : (r.cancel u).running = r.running := by
  unfold cancel; split <;> rfl

@[simp] theorem cancel_disposed (u : Uri) : (r.cancel u).disposed = r.disposed := by
  unfold cancel; split <;> rfl

theorem cancel_cancelled (u : Uri) :
    (r.cancel u).cancelled = r.cancelled ++ (r.inFlightRequests.get u).toList := by
  unfold cancel; split <;> simp_all

theorem cancel_get (u v : Uri) :
    (r.cancel u).inFlightRequests.get v =
      if v.toString = u.toString then none else r.inFlightRequests.get v := by
  unfold cancel
  split
  · exact ResourceMap.get_delete _ _ _
  · next hnone =>
    by_cases h : v.toString = u.toString
    · simpa [h, ResourceMap.get] using hnone
    · simp [h]

theorem mem_cancel_entries {u : Uri} {e : String × Nat} :
    e ∈ (r.cancel u).inFlightRequests.entries ↔
      e.1 ≠ u.toString ∧ e ∈ r.inFlightRequests.entries := by
  unfold cancel
  split
  · simp [and_comm]
  · next hnone =>
    refine ⟨fun he => ⟨fun heq => ?_, he⟩, And.right⟩
    have := ResourceMap.get_eq_some_iff.2
      (heq ▸ he : (u.toString, e.2) ∈ r.inFlightRequests.entries)
    simp_all

theorem lastStarted_start (u : Uri) (key : String) :
    (r.start u).lastStarted key =
      if u.toString = key then some r.started.length else r.lastStarted key := by
  by_cases h : u.toString = key <;> simp [lastStarted, InflightDiagnosticRequests.start, h]

theorem Consistent.cancel (h : r.Consistent) (u : Uri) : (r.cancel u).Consistent where
  started_ids := by simpa using h.started_ids
  running_sublist := by simpa using h.running_sublist
  entry_running key cts he := by simpa using h.entry_running key cts (mem_cancel_entries.1 he).2
  entry_latest key cts he := by
    simpa [lastStarted] using h.entry_latest key cts (mem_cancel_entries.1 he).2
  uncancelled v cts hv hc := by
    rw [cancel_cancelled, List.mem_append, not_or] at hc
    rw [cancel_running] at hv
    rw [cancel_get, cancel_disposed]
    rcases h.uncancelled v cts hv hc.1 with hget | hdisp
    · by_cases hvu : v.toString = u.toString
      · have : r.inFlightRequests.get u = some cts := by
          rwa [ResourceMap.get, ← hvu]
        simp [this] at hc
      · exact .inl (by simp [hvu, hget])
    · exact .inr hdisp

theorem cancel_get_self (u : Uri) : (r.cancel u).inFlightRequests.get u = none := by
  simp [cancel_get]

theorem Consistent.start (h : r.Consistent) {u : Uri} (hnone : r.inFlightRequests.get u = none) :
    (r.start u).Consistent := by
  refine ⟨?_, h.running_sublist.append (List.Sublist.refl _), fun key cts he => ?_,
    fun key cts he => ?_, fun v cts hv hc => ?_⟩
  · simp [InflightDiagnosticRequests.start, List.range_succ, h.started_ids]
  · rcases ResourceMap.mem_set.1 he with heq | ⟨-, he⟩
    · simp only [Prod.mk.injEq] at heq
      exact ⟨u, heq.1.symm, by simp [InflightDiagnosticRequests.start, heq.2]⟩
    · obtain ⟨v, hv, hmem⟩ := h.entry_running key cts he
      exact ⟨v, hv, List.mem_append_left _ hmem⟩
  · rw [lastStarted_start]
    rcases ResourceMap.mem_set.1 he with heq | ⟨hne, he⟩
    · simp only [Prod.mk.injEq] at heq
      simp [heq.1, heq.2]
    · simp [Ne.symm hne, h.entry_latest key cts he]
  · simp only [InflightDiagnosticRequests.start, List.mem_append, List.mem_singleton] at hv hc ⊢
    rw [ResourceMap.get_set]
    rcases hv with hv | hv
    · rcases h.uncancelled v cts hv hc with hget | hdisp
      · by_cases hvu : v.toString = u.toString
        · rw [show r.inFlightRequests.get v = r.inFlightRequests.get u by
            simp [ResourceMap.get, hvu], hnone] at hget
          cases hget
        · exact .inl (by simp [hvu, hget])
      · exact .inr hdisp
    · simp only [Prod.mk.injEq] at hv
      simp [hv.1, hv.2]

theorem Consistent.trigger (h : r.Consistent) (u : Uri) : (r.trigger u).Consistent :=
  (h.cancel u).start (cancel_get_self u)

theorem Consistent.clear (h : r.Consistent) : r.clear.Consistent where
  started_ids := h.started_ids
  running_sublist := h.running_sublist
  entry_running key cts he := by simp [InflightDiagnosticRequests.clear] at he
  entry_latest key cts he := by simp [InflightDiagnosticRequests.clear] at he
  uncancelled v cts hv hc := by
    rcases h.uncancelled v cts hv hc with hget | hdisp
    · refine .inr (List.mem_append_right _ ?_)
      exact List.mem_map.2 ⟨_, ResourceMap.get_eq_some_iff.1 hget, rfl⟩
    · exact .inr (List.mem_append_left _ hdisp)

theorem Consistent.complete (h : r.Consistent) (u : Uri) (c : Nat) :
    (r.complete u c).Consistent := by
  have hentries : ∀ e, e ∈ (r.complete u c).inFlightRequests.entries →
      e ∈ r.inFlightRequests.entries ∧
        ¬ (e.1 = u.toString ∧ r.inFlightRequests.get u = some c) := by
    intro e he
    simp only [InflightDiagnosticRequests.complete] at he
    split at he
    · simp only [ResourceMap.delete_entries, List.mem_filter, decide_eq_true_eq] at he
      exact ⟨he.1, fun h' => he.2 h'.1⟩
    · next hne => exact ⟨he, fun h' => hne h'.2⟩
  refine ⟨h.started_ids, (List.erase_sublist _ _).trans h.running_sublist,
    fun key cts he => ?_, fun key cts he => h.entry_latest key cts (hentries _ he).1,
    fun v cts hv hc => ?_⟩
  · obtain ⟨hold, hnot⟩ := hentries _ he
    obtain ⟨v, hv, hmem⟩ := h.entry_running key cts hold
    refine ⟨v, hv, List.mem_erase_of_ne (fun heq => hnot ⟨?_, ?_⟩) |>.2 hmem⟩
    · simp only [Prod.mk.injEq] at heq; simp [← hv, heq.1]
    · simp only [Prod.mk.injEq] at heq
      rw [ResourceMap.get_eq_some_iff, ← heq.1, hv, ← heq.2]
      exact hold
  · rcases h.uncancelled v cts ((List.erase_sublist _ _).subset hv) hc with hget | hdisp
    · simp only [InflightDiagnosticRequests.complete]
      split
      · next hgetu =>
        rw [ResourceMap.get_delete]
        by_cases hvu : v.toString = u.toString
        · have : r.inFlightRequests.get v = r.inFlightRequests.get u := by
            simp [ResourceMap.get, hvu]
          rw [this, hgetu] at hget
          cases hget
          exact .inr (by simp)
        · exact .inl (by simp [hvu, hget])
      · exact .inl hget
    · exact .inr (List.mem_append_left _ hdisp)

theorem Consistent.step (h : r.Consistent) : ∀ e, (r.step e).Consistent
  | .trigger u => h.trigger u
  | .cancel u => h.cancel u
  | .clear => h.clear
  | .complete cts => by
    simp only [InflightDiagnosticRequests.step]
    split
    · exact h.complete _ _
    · exact h

/-- Token sources are numbered by creation, so running computations hold distinct ones. -/
theorem Consistent.running_ids_nodup (h : r.Consistent) : (r.running.map (·.2)).Nodup :=
  (h.running_sublist.map _).nodup (h.started_ids ▸ List.nodup_range _)

/-- The settlement of token source `cts` completes the running computation holding it. -/
theorem Consistent.step_complete (h : r.Consistent) {u : Uri} {cts : Nat}
    (hc : (u, cts) ∈ r.running) : r.step (.complete cts) = r.complete u cts := by
  have hfind : r.running.find? (·.2 = cts) = some (u, cts) := by
    cases hf : r.running.find? (·.2 = cts) with
    | none => simpa using List.find?_eq_none.1 hf _ hc
    | some c =>
      have hcts : c.2 = cts := by simpa using List.find?_some hf
      rw [List.inj_on_of_nodup_map h.running_ids_nodup (List.mem_of_find?_eq_some hf) hc hcts]
  simp [InflightDiagnosticRequests.step, hfind]

theorem initial_consistent : initial.Consistent where
  started_ids := rfl
  running_sublist := List.Sublist.slnil
  entry_running key cts he := by simp [initial] at he
  entry_latest key cts he := by simp [initial] at he
  uncancelled v cts hv := by simp [initial] at hv

theorem consistent_run (events : List Event) : (run events).Consistent := by
  induction events using List.reverseRecOn with
  | nil => exact initial_consistent
  | append_singleton events e ih =>
    rw [run, List.foldl_append, List.foldl_cons, List.foldl_nil]
    exact ih.step e

/-! ## What holds over every interleaving -/

/-- A map entry is the token source of the computation started last for its resource, and that
computation has not settled. -/
theorem inFlight_entry_is_latest_running (events : List Event) (u : Uri) (cts : Nat)
    (h : (run events).inFlightRequests.get u = some cts) :
    (run events).lastStarted u.toString = some cts ∧
      ∃ v, v.toString = u.toString ∧ (v, cts) ∈ (run events).running := by
  have hc := consistent_run events
  have he := ResourceMap.get_eq_some_iff.1 h
  exact ⟨hc.entry_latest _ _ he, hc.entry_running _ _ he⟩

theorem inFlight_entry_is_latest_running_single :
    (run [.trigger ⟨0, "a.md"⟩]).inFlightRequests.get ⟨0, "a.md"⟩ = some 0 ∧
      ((run [.trigger ⟨0, "a.md"⟩]).lastStarted "a.md" = some 0 ∧
        ∃ v, v.toString = "a.md" ∧ (v, 0) ∈ (run [.trigger ⟨0, "a.md"⟩]).running) :=
  ⟨rfl, inFlight_entry_is_latest_running _ ⟨0, "a.md"⟩ 0 rfl⟩

private theorem length_le_one_of_forall_eq {α : Type} :
    ∀ {l : List α}, l.Nodup → (∀ x ∈ l, ∀ y ∈ l, x = y) → l.length ≤ 1
  | [], _, _ => by simp
  | [_], _, _ => by simp
  | a :: b :: t, hl, h => by
    have hab := h a (by simp) b (by simp)
    simp [hab] at hl

/-- Of the running computations for one resource, at most one holds a live token. -/
theorem Consistent.live_count_le_one (h : r.Consistent) (key : String) :
    (r.running.filter fun c => c.1.toString = key ∧ r.isLive c).length ≤ 1 := by
  refine length_le_one_of_forall_eq (h.running_ids_nodup.of_map _ |>.sublist
    (List.filter_sublist _)) fun x hx y hy => ?_
  simp only [List.mem_filter, isLive, decide_eq_true_eq] at hx hy
  have hget : ∀ z ∈ r.running, z.2 ∉ r.cancelled → z.2 ∉ r.disposed →
      r.inFlightRequests.get z.1 = some z.2 := fun z hz hcz hdz =>
    (h.uncancelled z.1 z.2 hz hcz).resolve_right hdz
  have hkey : r.inFlightRequests.get x.1 = r.inFlightRequests.get y.1 := by
    simp only [ResourceMap.get, hx.2.1, hy.2.1]
  rw [hget x hx.1 hx.2.2.1 hx.2.2.2, hget y hy.1 hy.2.2.1 hy.2.2.2] at hkey
  exact List.inj_on_of_nodup_map h.running_ids_nodup hx.1 hy.1 (Option.some.inj hkey)

/-- Of the running computations for one resource, at most one holds a token that is neither
cancelled nor disposed: every other one was cancelled by a later `trigger` or `cancel`, or
disposed of, still uncancelled, by `clear`. -/
theorem at_most_one_live_computation (events : List Event) (key : String) :
    ((run events).running.filter fun c =>
      c.1.toString = key ∧ (run events).isLive c).length ≤ 1 :=
  (consistent_run events).live_count_le_one key

/-- `clear` disposes of a token source without cancelling it: after a `rebuild` between two
triggers of one document, both computations run with uncancelled tokens. -/
theorem clear_leaves_two_uncancelled_computations :
    ((run [.trigger ⟨0, "a.md"⟩, .clear, .trigger ⟨0, "a.md"⟩]).running.filter fun c =>
      c.1.toString = "a.md" ∧
        c.2 ∉
          (run [.trigger ⟨0, "a.md"⟩, .clear, .trigger ⟨0, "a.md"⟩]).cancelled).length =
      2 := by
  decide

end InflightDiagnosticRequests

end MarkdownDiagnostics
