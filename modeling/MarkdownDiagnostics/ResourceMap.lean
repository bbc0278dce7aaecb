import Mathlib.Data.List.Nodup

/-!
# URIs, resource maps and URI sets

Every per-document table of the diagnostics code is a `ResourceMap`, which compares
`vscode.Uri` keys by `toString()`.  Two collections are plain JavaScript `Set`s of
`vscode.Uri` instead (`pendingDiagnostics` and the `linkedToResource` set of
`updateLinksForDocument`), and a `Set` compares objects by identity.  A `Uri` therefore
carries both its identity and its string, and each collection below compares by the one its
source compares by.
-/

namespace MarkdownDiagnostics

/-- A `vscode.Uri` object: `objectId` is its identity, `toString` what `toString()` returns. -/
structure Uri where
  objectId : Nat
  toString : String
deriving DecidableEq, Repr

/-- Modelled from the spec: `ResourceMap` of `util/resourceMap`, which the excerpt does not
include.  Keys are compared by `toString()`; entries keep the insertion order of the
JavaScript `Map` behind it, and a key occurs once. -/
structure ResourceMap (α : Type) where
  entries : List (String × α)
  nodupKeys : (entries.map Prod.fst).Nodup

namespace ResourceMap

variable {α β : Type}

/-- `Map.prototype.set` on an entry list: overwrite in place, or append. -/
def setEntry (key : String) (value : α) : List (String × α) → List (String × α)
  | [] => [(key, value)]
  | e :: es => if e.1 = key then (key, value) :: es else e :: setEntry key value es

theorem mem_keys_setEntry (key x : String) (value : α) (es : List (String × α)) :
    x ∈ (setEntry key value es).map Prod.fst ↔ x = key ∨ x ∈ es.map Prod.fst := by
  induction es with
  | nil => simp [setEntry]
  | cons e es ih =>
    by_cases he : e.1 = key
    · simp [setEntry, he]
    · simp only [setEntry, he, if_false, List.map_cons, List.mem_cons, ih]
      exact or_left_comm

theorem nodup_setEntry (key : String) (value : α) {es : List (String × α)}
    (h : (es.map Prod.fst).Nodup) : ((setEntry key value es).map Prod.fst).Nodup := by
  induction es with
  | nil => simp [setEntry]
  | cons e es ih =>
    rw [List.map_cons, List.nodup_cons] at h
    by_cases he : e.1 = key
    · simpa [setEntry, he] using h
    · simp only [setEntry, he, if_false, List.map_cons, List.nodup_cons, mem_keys_setEntry]
      exact ⟨by simpa using h.1, ih h.2⟩

theorem lookup_cons_ite (k : String) (e : String × α) (es : List (String × α)) :
    (e :: es).lookup k = if k = e.1 then some e.2 else es.lookup k := by
  rw [List.lookup_cons]
  by_cases h : k = e.1
  · simp [h]
  · simp [beq_eq_false_iff_ne.2 h, h]

theorem lookup_setEntry (key k : String) (value : α) (es : List (String × α)) :
    (setEntry key value es).lookup k = if k = key then some value else es.lookup k := by
  induction es with
  | nil => simp [setEntry, lookup_cons_ite]
  | cons e es ih =>
    by_cases he : e.1 = key
    · by_cases hk : k = key <;> simp [setEntry, he, lookup_cons_ite, hk]
    · by_cases hk : k = e.1
      · simp [setEntry, he, lookup_cons_ite, hk, Ne.symm he]
      · simp [setEntry, he, lookup_cons_ite, hk, ih]

theorem lookup_eq_some_iff_mem {k : String} {v : α} :
    ∀ {es : List (String × α)}, (es.map Prod.fst).Nodup →
      (es.lookup k = some v ↔ (k, v) ∈ es)
  | [], _ => by simp
  | e :: es, h => by
    rw [List.map_cons, List.nodup_cons] at h
    by_cases hk : k = e.1
    · subst hk
      have hnot : ∀ w, (e.1, w) ∉ es := fun w hw => h.1 (List.mem_map.2 ⟨_, hw, rfl⟩)
      simp [lookup_cons_ite, hnot, Prod.ext_iff, eq_comm]
    · have hne : (k, v) ≠ e := fun h' => hk (by rw [← h'])
      simp [lookup_cons_ite, hk, hne, lookup_eq_some_iff_mem h.2]

theorem map_setEntry (g : α → β) (key : String) (value : α) (es : List (String × α))
    (hg : ∀ v, (key, v) ∈ es → g v = g value) :
    (setEntry key value es).map (g ·.2) =
      if key ∈ es.map Prod.fst then es.map (g ·.2) else es.map (g ·.2) ++ [g value] := by
  induction es with
  | nil => simp [setEntry]
  | cons e es ih =>
    by_cases he : e.1 = key
    · have hv : g e.2 = g value := hg e.2 (by rw [← he]; exact List.mem_cons_self _ _)
      simp [setEntry, he, hv]
    · have ih := ih fun v hv => hg v (List.mem_cons_of_mem _ hv)
      simp only [setEntry, he, if_false, List.map_cons, ih]
      by_cases hk : key ∈ es.map Prod.fst <;> simp [hk, Ne.symm he]

/-- The empty map, as `new ResourceMap()` builds it. -/
def empty : ResourceMap α := ⟨[], List.nodup_nil⟩

/-- The keys, as the strings the map compares. -/
def keys (m : ResourceMap α) : List String := m.entries.map Prod.fst

def get (m : ResourceMap α) (resource : Uri) : Option α := m.entries.lookup resource.toString

def has (m : ResourceMap α) (resource : Uri) : Bool := (m.get resource).isSome

def set (m : ResourceMap α) (resource : Uri) (value : α) : ResourceMap α :=
  ⟨setEntry resource.toString value m.entries, nodup_setEntry _ _ m.nodupKeys⟩

def delete (m : ResourceMap α) (resource : Uri) : ResourceMap α :=
  ⟨m.entries.filter (·.1 ≠ resource.toString),
    m.nodupKeys.sublist ((List.filter_sublist _).map _)⟩

def values (m : ResourceMap α) : List α := m.entries.map Prod.snd

def size (m : ResourceMap α) : Nat := m.entries.length

/-- Change every value in place, keeping the keys, as the loops that mutate each entry do. -/
def mapValues (f : α → β) (m : ResourceMap α) : ResourceMap β :=
  ⟨m.entries.map fun e => (e.1, f e.2), by simpa [Function.comp_def] using m.nodupKeys⟩

/-- Keep the entries whose value passes `p`, as a loop deleting the others does. -/
def filterValues (p : α → Bool) (m : ResourceMap α) : ResourceMap α :=
  ⟨m.entries.filter (p ·.2), m.nodupKeys.sublist ((List.filter_sublist _).map _)⟩

@[simp] theorem empty_entries : (empty : ResourceMap α).entries = [] := rfl

@[simp] theorem get_empty (resource : Uri) : (empty : ResourceMap α).get resource = none := rfl

@[simp] theorem delete_entries (m : ResourceMap α) (resource : Uri) :
    (m.delete resource).entries = m.entries.filter (·.1 ≠ resource.toString) := rfl

@[simp] theorem mapValues_entries (f : α → β) (m : ResourceMap α) :
    (m.mapValues f).entries = m.entries.map fun e => (e.1, f e.2) := rfl

@[simp] theorem filterValues_entries (p : α → Bool) (m : ResourceMap α) :
    (m.filterValues p).entries = m.entries.filter (p ·.2) := rfl

@[simp] theorem values_filterValues (p : α → Bool) (m : ResourceMap α) :
    (m.filterValues p).values = m.values.filter p := by
  simp [values, filterValues, List.filter_map, Function.comp_def]

theorem get_congr (m : ResourceMap α) {r r' : Uri} (h : r.toString = r'.toString) :
    m.get r = m.get r' := by
  simp [get, h]

theorem get_eq_some_iff {m : ResourceMap α} {resource : Uri} {v : α} :
    m.get resource = some v ↔ (resource.toString, v) ∈ m.entries :=
  lookup_eq_some_iff_mem m.nodupKeys

theorem get_set (m : ResourceMap α) (resource r : Uri) (value : α) :
    (m.set resource value).get r =
      if r.toString = resource.toString then some value else m.get r :=
  lookup_setEntry _ _ _ _

theorem lookup_filter_ne (key k : String) (es : List (String × α)) :
    (es.filter (·.1 ≠ key)).lookup k = if k = key then none else es.lookup k := by
  induction es with
  | nil => simp
  | cons e es ih =>
    simp only [ne_eq, decide_not] at ih
    by_cases he : e.1 = key
    · subst he
      by_cases hk : k = e.1
      · subst hk
        simpa [List.filter_cons] using ih
      · simp [List.filter_cons, lookup_cons_ite, hk, ih]
    · by_cases hk : k = e.1
      · simp [List.filter_cons, he, lookup_cons_ite, hk]
      · simp [List.filter_cons, he, lookup_cons_ite, hk, ih]

theorem has_set (m : ResourceMap α) (resource r : Uri) (value : α) :
    (m.set resource value).has r = (decide (r.toString = resource.toString) || m.has r) := by
  unfold has
  rw [get_set]
  split <;> simp [*]

theorem has_congr (m : ResourceMap α) {r r' : Uri} (h : r.toString = r'.toString) :
    m.has r = m.has r' := by
  rw [has, has, get_congr m h]

theorem get_delete (m : ResourceMap α) (resource r : Uri) :
    (m.delete resource).get r = if r.toString = resource.toString then none else m.get r :=
  lookup_filter_ne _ _ _

/-- The key of an entry determines its value. -/
theorem eq_of_mem_of_mem {m : ResourceMap α} {k : String} {v w : α}
    (hv : (k, v) ∈ m.entries) (hw : (k, w) ∈ m.entries) : v = w := by
  have h := fun x : α => lookup_eq_some_iff_mem (k := k) (v := x) m.nodupKeys
  exact Option.some.inj (((h v).2 hv).symm.trans ((h w).2 hw))

theorem mem_set {m : ResourceMap α} {resource : Uri} {value : α} {e : String × α} :
    e ∈ (m.set resource value).entries ↔
      e = (resource.toString, value) ∨ (e.1 ≠ resource.toString ∧ e ∈ m.entries) := by
  obtain ⟨k, v⟩ := e
  rw [← lookup_eq_some_iff_mem (m.set resource value).nodupKeys]
  show (setEntry resource.toString value m.entries).lookup k = some v ↔ _
  rw [lookup_setEntry]
  by_cases hk : k = resource.toString
  · simp [hk, eq_comm]
  · simp [hk, lookup_eq_some_iff_mem m.nodupKeys]

theorem mem_keys {m : ResourceMap α} {k : String} :
    k ∈ m.keys ↔ ∃ v, (k, v) ∈ m.entries := by
  simp [keys]

theorem mem_keys_set {m : ResourceMap α} {resource : Uri} {value : α} {k : String} :
    k ∈ (m.set resource value).keys ↔ k = resource.toString ∨ k ∈ m.keys :=
  mem_keys_setEntry _ _ _ _

theorem mem_keys_delete {m : ResourceMap α} {resource : Uri} {k : String} :
    k ∈ (m.delete resource).keys ↔ k ≠ resource.toString ∧ k ∈ m.keys := by
  simp [keys, and_comm]

theorem get_eq_none_iff {m : ResourceMap α} {resource : Uri} :
    m.get resource = none ↔ resource.toString ∉ m.keys := by
  simp only [get, keys, List.lookup_eq_none_iff, bne_iff_ne, List.mem_map, not_exists, not_and]
  exact forall_congr' fun e => imp_congr_right fun _ => ne_comm

/-- Setting a key overwrites its value in place or appends it: seen through `g`, the values
change only by the appended one when `g` does not tell the old value from the new. -/
theorem values_map_set (m : ResourceMap α) (resource : Uri) (value : α) (g : α → β)
    (hg : ∀ v, m.get resource = some v → g v = g value) :
    (m.set resource value).values.map g =
      if resource.toString ∈ m.keys then m.values.map g else m.values.map g ++ [g value] := by
  simp only [values, set, keys, List.map_map]
  exact map_setEntry g _ _ _ fun v hv => hg v (get_eq_some_iff.2 hv)

theorem setEntry_of_not_mem {key : String} (value : α) :
    ∀ {es : List (String × α)}, key ∉ es.map Prod.fst →
      setEntry key value es = es ++ [(key, value)]
  | [], _ => rfl
  | e :: es, h => by
    rw [List.map_cons, List.mem_cons, not_or] at h
    simp [setEntry, Ne.symm h.1, setEntry_of_not_mem value h.2]

/-- Setting a key that has no entry appends one. -/
theorem set_entries_of_get_eq_none {m : ResourceMap α} {resource : Uri} (value : α)
    (h : m.get resource = none) :
    (m.set resource value).entries = m.entries ++ [(resource.toString, value)] :=
  setEntry_of_not_mem value (get_eq_none_iff.1 h)

/-- Overwriting the value `v` of a key by `w` changes a `flatMap` over the entries only by the
part of that one entry. -/
theorem flatMap_setEntry_perm (G : String × α → List β) (key : String) (v w : α) :
    ∀ es : List (String × α), es.lookup key = some v →
      ((setEntry key w es).flatMap G ++ G (key, v)).Perm (es.flatMap G ++ G (key, w))
  | [], h => by simp at h
  | e :: es, h => by
    rw [lookup_cons_ite] at h
    by_cases he : e.1 = key
    · obtain ⟨k, x⟩ := e
      simp only at he
      subst he
      simp only [if_true, Option.some.injEq] at h
      subst h
      simp only [setEntry, if_true, List.flatMap_cons, List.append_assoc]
      rw [← List.append_assoc]
      exact List.perm_append_comm.trans (List.perm_append_comm.append_left _)
    · rw [if_neg (Ne.symm he)] at h
      simp only [setEntry, he, if_false, List.flatMap_cons, List.append_assoc]
      exact (flatMap_setEntry_perm G key v w es h).append_left _

theorem flatMap_set_perm (G : String × α → List β) {m : ResourceMap α} {resource : Uri}
    {v : α} (w : α) (h : m.get resource = some v) :
    ((m.set resource w).entries.flatMap G ++ G (resource.toString, v)).Perm
      (m.entries.flatMap G ++ G (resource.toString, w)) :=
  flatMap_setEntry_perm G _ v w m.entries h

end ResourceMap

/-- A JavaScript `Set<vscode.Uri>`: it compares `Uri` objects by identity, so two objects with
one `toString()` are two elements. -/
structure UriSet where
  elements : List Uri
  nodup : elements.Nodup

namespace UriSet

def empty : UriSet := ⟨[], List.nodup_nil⟩

/-- `Set.prototype.add`: an element already present stays where it is. -/
def add (s : UriSet) (uri : Uri) : UriSet :=
  if h : uri ∈ s.elements then s
  else
    ⟨s.elements ++ [uri], List.nodup_append.2 ⟨s.nodup, List.nodup_singleton _, by simpa⟩⟩

def delete (s : UriSet) (uri : Uri) : UriSet :=
  ⟨s.elements.filter (· ≠ uri), s.nodup.filter _⟩

/-- The elements, in insertion order, as `[...set]` spreads them. -/
def toList (s : UriSet) : List Uri := s.elements

theorem mem_add {s : UriSet} {uri u : Uri} :
    u ∈ (s.add uri).elements ↔ u = uri ∨ u ∈ s.elements := by
  unfold add
  split <;> simp_all [or_comm, or_iff_right_of_imp]

theorem mem_delete {s : UriSet} {uri u : Uri} :
    u ∈ (s.delete uri).elements ↔ u ≠ uri ∧ u ∈ s.elements := by
  simp [delete, and_comm]

theorem mem_foldl_add {s : UriSet} {l : List Uri} {u : Uri} :
    u ∈ (l.foldl add s).elements ↔ u ∈ s.elements ∨ u ∈ l := by
  induction l generalizing s with
  | nil => simp
  | cons x l ih =>
    simp only [List.foldl_cons, ih, mem_add, List.mem_cons, or_assoc]
    exact or_left_comm

end UriSet

end MarkdownDiagnostics
