import MarkdownDiagnostics.Link
import Mathlib.Logic.Function.Basic

/-!
# The link watcher

`LinkWatcher` keeps one file-system watcher for every path that the latest links of some
document point to, together with the documents that point there.  `updateLinksForDocument`
rebuilds the entries of one document in three loops: it forgets the document everywhere,
adds it to the entry of each of its paths (starting a watcher for a new path), and disposes
of the entries no document uses any more.

The model records what the host sees of the watchers: `startWatching` numbers them in the
order it creates them, and every `dispose()` of one is logged.  Over any sequence of calls the
map stays exactly the inverse of the latest link lists, and every watcher ever started is
either live in one entry or disposed once.
-/

namespace MarkdownDiagnostics

/-- One entry of `_watchers`: the watcher of a path, by its creation number, and the
documents whose links point to the path. -/
structure WatchEntry where
  watcher : Nat
  documents : ResourceMap Uri

/-- An entry whose `documents` map is empty, which the last loop disposes of. -/
def WatchEntry.isUnused (e : WatchEntry) : Bool := e.documents.size = 0

structure LinkWatcher where
  watchers : ResourceMap WatchEntry
  started : Nat
  disposed : List Nat

namespace LinkWatcher

def initial : LinkWatcher := ⟨.empty, 0, []⟩

/-- The `linkedToResource` set: the paths of the internal links, as a `Set` of `Uri` objects. -/
def linkedToResource (links : List MdLink) : UriSet :=
  (links.filterMap MdLink.internalPath?).foldl UriSet.add .empty

/-- The first loop: `entry.documents.delete(document)` in every entry. -/
def forgetDocument (w : LinkWatcher) (document : Uri) : LinkWatcher :=
  { w with
    watchers := w.watchers.mapValues fun e =>
      { e with documents := e.documents.delete document } }

/-- One turn of the second loop: find or create the entry of `path`, then record `document`. -/
def watchPath (document : Uri) (w : LinkWatcher) (path : Uri) : LinkWatcher :=
  match w.watchers.get path with
  | some entry =>
    { w with
      watchers := w.watchers.set path
        { entry with documents := entry.documents.set document document } }
  | none =>
    { w with
      watchers := w.watchers.set path ⟨w.started, ResourceMap.empty.set document document⟩
      started := w.started + 1 }

/-- The last loop: dispose of the watcher of every unused entry and delete the entry. -/
def cleanUp (w : LinkWatcher) : LinkWatcher :=
  { w with
    watchers := w.watchers.filterValues (!·.isUnused)
    disposed := w.disposed ++ (w.watchers.values.filter (·.isUnused)).map (·.watcher) }

def updateLinksForDocument (w : LinkWatcher) (document : Uri) (links : List MdLink) : LinkWatcher :=
  cleanUp ((linkedToResource links).toList.foldl (watchPath document) (w.forgetDocument document))

def deleteDocument (w : LinkWatcher) (resource : Uri) : LinkWatcher :=
  w.updateLinksForDocument resource []

def dispose (w : LinkWatcher) : LinkWatcher :=
  { w with watchers := .empty, disposed := w.disposed ++ w.watchers.values.map (·.watcher) }

/-- A call on the watcher. -/
inductive Call where
  | updateLinksForDocument (document : Uri) (links : List MdLink)
  | deleteDocument (document : Uri)

def Call.document : Call → Uri
  | .updateLinksForDocument document _ => document
  | .deleteDocument document => document

/-- The link list a call gives its document; `deleteDocument` gives `[]`. -/
def Call.links : Call → List MdLink
  | .updateLinksForDocument _ links => links
  | .deleteDocument _ => []

def step (w : LinkWatcher) : Call → LinkWatcher
  | .updateLinksForDocument document links => w.updateLinksForDocument document links
  | .deleteDocument document => w.deleteDocument document

def run (calls : List Call) : LinkWatcher := calls.foldl step initial

theorem step_eq (w : LinkWatcher) (c : Call) :
    w.step c = w.updateLinksForDocument c.document c.links := by
  cases c <;> rfl

/-! ## What the map should hold -/

/-- The link list last given for the document whose URI string is `d`, and `[]` if none was. -/
def latestLinks (calls : List Call) (d : String) : List MdLink :=
  ((calls.reverse.find? (·.document.toString = d)).map Call.links).getD []

/-- The URI strings of the paths of the internal links of a list. -/
def linkedPaths (links : List MdLink) : List String :=
  (links.filterMap MdLink.internalPath?).map Uri.toString

theorem latestLinks_append (calls : List Call) (c : Call) (d : String) :
    latestLinks (calls ++ [c]) d =
      if c.document.toString = d then c.links else latestLinks calls d := by
  by_cases h : c.document.toString = d <;> simp [latestLinks, h]

theorem mem_linkedToResource {links : List MdLink} {u : Uri} :
    u ∈ (linkedToResource links).toList ↔ u ∈ links.filterMap MdLink.internalPath? := by
  simp [linkedToResource, UriSet.toList, UriSet.mem_foldl_add, UriSet.empty]

/-- The watcher is exact for `linked`, which gives each document's linked path strings: a path
has an entry iff some document links to it, the entry lists exactly those documents, and the
started watchers are the live ones and the disposed ones, each once. -/
structure Tracks (w : LinkWatcher) (linked : String → List String) : Prop where
  watched_iff : ∀ p, p ∈ w.watchers.keys ↔ ∃ d, p ∈ linked d
  documents_iff : ∀ p e, (p, e) ∈ w.watchers.entries →
    ∀ d, d ∈ e.documents.keys ↔ p ∈ linked d
  accounted : (w.watchers.values.map (·.watcher) ++ w.disposed).Perm (List.range w.started)

/-- The state between the second and the last loop of an update of document `d₀`, once the
paths `ps` are recorded: `d₀` counts for exactly the paths `ps`, the others as before. -/
structure Midway (w : LinkWatcher) (linked : String → List String) (d₀ : String)
    (ps : List String) : Prop where
  documents_iff : ∀ p e, (p, e) ∈ w.watchers.entries →
    ∀ d, d ∈ e.documents.keys ↔ (p ∈ linked d ∧ d ≠ d₀) ∨ (d = d₀ ∧ p ∈ ps)
  watched : ∀ p, (∃ d, p ∈ linked d ∧ d ≠ d₀) ∨ p ∈ ps → p ∈ w.watchers.keys
  accounted : (w.watchers.values.map (·.watcher) ++ w.disposed).Perm (List.range w.started)

variable {w : LinkWatcher} {linked : String → List String}

theorem Tracks.forgetDocument (h : w.Tracks linked) (document : Uri) :
    (w.forgetDocument document).Midway linked document.toString [] where
  documents_iff p e' he' d := by
    simp only [LinkWatcher.forgetDocument, ResourceMap.mapValues_entries, List.mem_map] at he'
    obtain ⟨⟨p, e⟩, he, heq⟩ := he'
    simp only [Prod.mk.injEq] at heq
    obtain ⟨rfl, rfl⟩ := heq
    rw [ResourceMap.mem_keys_delete, h.documents_iff p e he d]
    simp [and_comm]
  watched p hp := by
    simp only [List.not_mem_nil, or_false] at hp
    obtain ⟨d, hd, -⟩ := hp
    simpa [LinkWatcher.forgetDocument, ResourceMap.keys, Function.comp_def] using
      (h.watched_iff p).2 ⟨d, hd⟩
  accounted := by
    simpa [LinkWatcher.forgetDocument, ResourceMap.values, Function.comp_def] using h.accounted

section Midway

variable {document : Uri} {ps : List String}

/-- A new watcher joins the live ones under the next creation number. -/
private theorem accounted_snoc {live disposed : List Nat} {n : Nat}
    (h : (live ++ disposed).Perm (List.range n)) :
    (live ++ [n] ++ disposed).Perm (List.range (n + 1)) := by
  rw [List.range_succ]
  refine List.Perm.trans ?_ (h.append_right [n])
  rw [List.perm_iff_count]
  intro x
  simp only [List.count_append]
  omega

/-- Setting the entry of `path` to one that lists exactly the documents linking to `path` keeps
the state midway, with `path` recorded for `d₀`. -/
private theorem Midway.set {d₀ : String} (h : w.Midway linked d₀ ps) (path : Uri)
    (e₀ : WatchEntry) (started : Nat)
    (he₀ : ∀ d, d ∈ e₀.documents.keys ↔
      (path.toString ∈ linked d ∧ d ≠ d₀) ∨
        (d = d₀ ∧ path.toString ∈ ps ++ [path.toString]))
    (haccounted : ((w.watchers.set path e₀).values.map (·.watcher) ++ w.disposed).Perm
      (List.range started)) :
    ({ w with watchers := w.watchers.set path e₀, started }).Midway linked d₀
      (ps ++ [path.toString]) where
  documents_iff p e he d := by
    rcases ResourceMap.mem_set.1 he with heq | ⟨hne, he⟩
    · simp only [Prod.mk.injEq] at heq
      obtain ⟨rfl, rfl⟩ := heq
      exact he₀ d
    · rw [h.documents_iff p e he d]
      simp [hne]
  watched p hp := by
    rw [ResourceMap.mem_keys_set]
    by_cases hp' : p = path.toString
    · exact .inl hp'
    · exact .inr (h.watched p (by simpa [hp'] using hp))
  accounted := haccounted

theorem Midway.watchPath (h : w.Midway linked document.toString ps) (path : Uri) :
    (w.watchPath document path).Midway linked document.toString (ps ++ [path.toString]) := by
  unfold LinkWatcher.watchPath
  cases hget : w.watchers.get path with
  | some entry =>
    have hentry := ResourceMap.get_eq_some_iff.1 hget
    refine h.set path _ w.started (fun d => ?_) ?_
    · rw [ResourceMap.mem_keys_set, h.documents_iff _ _ hentry d]
      by_cases hd : d = document.toString <;> simp [hd]
    · rw [ResourceMap.values_map_set _ _ _ _ (by simp_all),
        if_pos (ResourceMap.mem_keys.2 ⟨_, hentry⟩)]
      exact h.accounted
  | none =>
    have hkey := ResourceMap.get_eq_none_iff.1 hget
    refine h.set path _ (w.started + 1) (fun d => ?_) ?_
    · have hfresh : ¬ (path.toString ∈ linked d ∧ d ≠ document.toString) :=
        fun hd => hkey (h.watched _ (.inl ⟨d, hd⟩))
      rw [ResourceMap.mem_keys_set]
      simp only [ResourceMap.keys, ResourceMap.empty_entries, List.map_nil, List.not_mem_nil,
        or_false, List.mem_append, List.mem_singleton, or_true, and_true]
      exact ⟨.inr, fun hd => hd.resolve_left hfresh⟩
    · rw [ResourceMap.values_map_set _ _ _ _ (by simp_all), if_neg hkey]
      exact accounted_snoc h.accounted

theorem Midway.foldl_watchPath : ∀ (paths : List Uri) {w : LinkWatcher} {ps : List String},
    w.Midway linked document.toString ps →
      (paths.foldl (LinkWatcher.watchPath document) w).Midway linked document.toString
        (ps ++ paths.map Uri.toString)
  | [], _, _, h => by simpa using h
  | path :: paths, _, _, h => by
    simpa using Midway.foldl_watchPath paths (h.watchPath path)

theorem Midway.cleanUp {d₀ : String} (h : w.Midway linked d₀ ps) :
    w.cleanUp.Tracks (Function.update linked d₀ ps) where
  watched_iff p := by
    have hlinked : ∀ d, p ∈ Function.update linked d₀ ps d ↔
        (p ∈ linked d ∧ d ≠ d₀) ∨ (d = d₀ ∧ p ∈ ps) := by
      intro d
      by_cases hd : d = d₀ <;> simp [Function.update_apply, hd]
    simp only [hlinked, LinkWatcher.cleanUp, ResourceMap.mem_keys, ResourceMap.filterValues_entries,
      List.mem_filter, WatchEntry.isUnused, ResourceMap.size, Bool.not_eq_true',
      decide_eq_false_iff_not, List.length_eq_zero]
    constructor
    · rintro ⟨e, he, hne⟩
      obtain ⟨⟨d, x⟩, hx⟩ := List.exists_mem_of_ne_nil _ hne
      exact ⟨d, (h.documents_iff p e he d).1 (ResourceMap.mem_keys.2 ⟨x, hx⟩)⟩
    · rintro ⟨d, hd⟩
      have hp := h.watched p
        (by rcases hd with hd | hd <;> [exact .inl ⟨d, hd⟩; exact .inr hd.2])
      obtain ⟨e, he⟩ := ResourceMap.mem_keys.1 hp
      obtain ⟨x, hx⟩ := ResourceMap.mem_keys.1 ((h.documents_iff p e he d).2 hd)
      exact ⟨e, he, List.ne_nil_of_mem hx⟩
  documents_iff p e he d := by
    simp only [LinkWatcher.cleanUp, ResourceMap.filterValues_entries, List.mem_filter] at he
    rw [h.documents_iff p e he.1 d]
    by_cases hd : d = d₀ <;> simp [Function.update_apply, hd]
  accounted := by
    refine List.Perm.trans ?_ h.accounted
    have hsplit := (List.filter_append_perm (·.isUnused) w.watchers.values).map (·.watcher)
    rw [List.perm_iff_count] at hsplit ⊢
    intro x
    have := hsplit x
    simp only [LinkWatcher.cleanUp, ResourceMap.values_filterValues, List.map_append,
      List.count_append] at this ⊢
    omega

end Midway

theorem Tracks.congr {linked' : String → List String} (h : w.Tracks linked)
    (hl : ∀ d p, p ∈ linked d ↔ p ∈ linked' d) : w.Tracks linked' where
  watched_iff p := by simpa only [hl] using h.watched_iff p
  documents_iff p e he d := by rw [← hl]; exact h.documents_iff p e he d
  accounted := h.accounted

theorem Tracks.updateLinksForDocument (h : w.Tracks linked) (document : Uri) (links : List MdLink) :
    (w.updateLinksForDocument document links).Tracks
      (Function.update linked document.toString (linkedPaths links)) := by
  refine (((h.forgetDocument document).foldl_watchPath
    (linkedToResource links).toList).cleanUp).congr ?_
  intro d p
  by_cases hd : d = document.toString
  · subst hd
    simp [linkedPaths, mem_linkedToResource]
  · simp [Function.update_apply, hd]

theorem initial_tracks : initial.Tracks fun _ => [] where
  watched_iff p := by simp [initial, ResourceMap.keys, ResourceMap.empty]
  documents_iff p e he := by simp [initial, ResourceMap.empty] at he
  accounted := by simp [initial, ResourceMap.values, ResourceMap.empty]

theorem tracks_run (calls : List Call) :
    (run calls).Tracks fun d => linkedPaths (latestLinks calls d) := by
  induction calls using List.reverseRecOn with
  | nil => exact initial_tracks.congr fun d p => by simp [latestLinks, linkedPaths]
  | append_singleton calls c ih =>
    rw [run, List.foldl_append, List.foldl_cons, List.foldl_nil, ← run, step_eq]
    refine (ih.updateLinksForDocument c.document c.links).congr fun d p => ?_
    rw [latestLinks_append, Function.update_apply]
    by_cases hd : d = c.document.toString
    · simp [hd]
    · simp [hd, Ne.symm hd]

/-! ## Every document is listed under its own URI string -/

/-- Every entry lists each document under the URI string of the `Uri` it keeps for it. -/
def SelfKeyed (w : LinkWatcher) : Prop :=
  ∀ p e, (p, e) ∈ w.watchers.entries →
    ∀ k v, (k, v) ∈ e.documents.entries → v.toString = k

theorem initial_selfKeyed : initial.SelfKeyed := by
  simp [SelfKeyed, initial, ResourceMap.empty]

theorem SelfKeyed.forgetDocument (h : w.SelfKeyed) (document : Uri) :
    (w.forgetDocument document).SelfKeyed := by
  intro p e he k v hv
  simp only [LinkWatcher.forgetDocument, ResourceMap.mapValues_entries, List.mem_map] at he
  obtain ⟨⟨p, e⟩, he, heq⟩ := he
  cases heq
  exact h p e he k v (List.mem_filter.1 hv).1

/-- Recording `document` under its own URI string in the entry of `path`, found or new, keeps
the watcher self-keyed. -/
private theorem selfKeyed_watchEntry (h : w.SelfKeyed) (document path : Uri) {watcher : Nat}
    {documents : ResourceMap Uri}
    (hdocuments : ∀ k v, (k, v) ∈ documents.entries → v.toString = k) (started : Nat) :
    ({ w with
      watchers := w.watchers.set path ⟨watcher, documents.set document document⟩
      started := started } : LinkWatcher).SelfKeyed := by
  intro p e he k v hv
  rcases ResourceMap.mem_set.1 he with heq | ⟨-, he⟩
  · cases heq
    rcases ResourceMap.mem_set.1 hv with heq | ⟨-, hv⟩
    · cases heq; rfl
    · exact hdocuments k v hv
  · exact h p e he k v hv

theorem SelfKeyed.watchPath (h : w.SelfKeyed) (document path : Uri) :
    (w.watchPath document path).SelfKeyed := by
  unfold LinkWatcher.watchPath
  split
  · next entry hget =>
    exact selfKeyed_watchEntry h document path
      (h _ _ (ResourceMap.get_eq_some_iff.1 hget)) w.started
  · exact selfKeyed_watchEntry h document path (fun _ _ hv => absurd hv (List.not_mem_nil _)) _

theorem SelfKeyed.cleanUp (h : w.SelfKeyed) : w.cleanUp.SelfKeyed :=
  fun p e he => h p e (List.mem_filter.1 he).1

theorem SelfKeyed.foldl_watchPath (document : Uri) :
    ∀ (paths : List Uri) {w : LinkWatcher}, w.SelfKeyed →
      (paths.foldl (LinkWatcher.watchPath document) w).SelfKeyed
  | [], _, h => h
  | path :: paths, _, h => SelfKeyed.foldl_watchPath document paths (h.watchPath document path)

theorem SelfKeyed.updateLinksForDocument (h : w.SelfKeyed) (document : Uri)
    (links : List MdLink) : (w.updateLinksForDocument document links).SelfKeyed :=
  (SelfKeyed.foldl_watchPath document _ (h.forgetDocument document)).cleanUp

/-! ## Every watcher is live once or disposed once -/

theorem Tracks.live_or_disposed (h : w.Tracks linked) {n : Nat} (hn : n < w.started) :
    ((w.watchers.values.map (·.watcher)).count n = 1 ∧ w.disposed.count n = 0) ∨
      ((w.watchers.values.map (·.watcher)).count n = 0 ∧ w.disposed.count n = 1) := by
  have := h.accounted.count_eq n
  rw [List.count_append,
    List.count_eq_one_of_mem (List.nodup_range _) (List.mem_range.2 hn)] at this
  omega

/-- A document is listed under a watched path exactly when it links there. -/
theorem Tracks.listed_iff (h : w.Tracks linked) (p d : String) :
    (∃ e, (p, e) ∈ w.watchers.entries ∧ d ∈ e.documents.keys) ↔ p ∈ linked d := by
  constructor
  · rintro ⟨e, he, hd⟩
    exact (h.documents_iff p e he d).1 hd
  · intro hp
    obtain ⟨e, he⟩ := ResourceMap.mem_keys.1 ((h.watched_iff p).2 ⟨d, hp⟩)
    exact ⟨e, he, (h.documents_iff p e he d).2 hp⟩

theorem Tracks.lt_started (h : w.Tracks linked) :
    ∀ n ∈ w.watchers.values.map (·.watcher) ++ w.disposed, n < w.started :=
  fun _ hn => List.mem_range.1 (h.accounted.subset hn)

theorem Tracks.dispose (h : w.Tracks linked) :
    w.dispose.watchers.entries = [] ∧ w.dispose.disposed.Perm (List.range w.dispose.started) :=
  ⟨rfl, List.perm_append_comm.trans h.accounted⟩

theorem linkWatcher_watches_exactly_latest_links (calls : List Call) :
    (∀ p, p ∈ (run calls).watchers.keys ↔ ∃ d, p ∈ linkedPaths (latestLinks calls d)) ∧
    (∀ p e, (p, e) ∈ (run calls).watchers.entries →
      ∀ d, d ∈ e.documents.keys ↔ p ∈ linkedPaths (latestLinks calls d)) ∧
    (∀ n < (run calls).started,
      (((run calls).watchers.values.map (·.watcher)).count n = 1 ∧
          (run calls).disposed.count n = 0) ∨
        (((run calls).watchers.values.map (·.watcher)).count n = 0 ∧
          (run calls).disposed.count n = 1)) ∧
    (∀ n ∈ (run calls).watchers.values.map (·.watcher) ++ (run calls).disposed,
      n < (run calls).started) ∧
    (run calls).dispose.watchers.entries = [] ∧
    (run calls).dispose.disposed.Perm (List.range (run calls).dispose.started) :=
  have h := tracks_run calls
  ⟨h.watched_iff, h.documents_iff, fun _ hn => h.live_or_disposed hn, h.lt_started, h.dispose⟩

end LinkWatcher

end MarkdownDiagnostics
