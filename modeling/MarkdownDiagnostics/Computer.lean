import MarkdownDiagnostics.Link

/-!
# The diagnostic computer

`DiagnosticComputer.getDiagnostics` takes the links `getAllLinks` found in a document and runs
three validators over them: links to headers of the document itself, reference links, and links
to other files, grouped by path in a `FileLinkMap`.  The file validator queues one task per path
on a `Limiter`, and each task pushes its diagnostics into one shared array when it finishes, so
the order of the result depends on how the tasks are scheduled.

Everything the validators ask of the workspace, the markdown engine and `picomatch` is a
parameter.  So are the reads of the cancellation token and the order in which the `Limiter`'s
tasks finish.
-/

namespace MarkdownDiagnostics

/-- Modelled from the spec: the services `DiagnosticComputer` calls that the excerpt does not
include, each a function of its argument: `tryFindMdDocumentForLink` and `pathExists` of a link
path (by URI string), whether `TableOfContents.create(engine, doc).lookup(fragment)` finds a
header, whether `new LinkDefinitionSet(links).lookup(ref)` finds a definition,
`picomatch.isMatch(link, glob)`, and the `fsPath` of a URI.  Each answers: `isMatch` in
particular is total here, while `picomatch` throws a `TypeError` on an empty glob. -/
structure ComputerHost where
  tryFindMdDocumentForLink : String → Option SkinnyTextDocument
  pathExists : String → Bool
  tocLookup : SkinnyTextDocument → String → Bool
  hasDefinition : List MdLink → String → Bool
  isMatch : String → String → Bool
  fsPath : String → String

/-- What `token.isCancellationRequested` reads at each check of `getDiagnostics`: after
`getAllLinks`, in `validateFragmentLinks` once the table of contents is built, and at the start
of the task of `validateFileLinks` for each path. -/
structure TokenReads where
  afterLinks : Bool
  afterTableOfContents : Bool
  fileTask : String → Bool

def TokenReads.uncancelled : TokenReads := ⟨false, false, fun _ => false⟩

structure OutgoingLink where
  source : MdLinkSource
  fragment : String

/-- The order in which the `Limiter`'s tasks, one per entry of the `FileLinkMap`, finish. -/
abbrev Schedule := List (String × List OutgoingLink) → List (String × List OutgoingLink)

def startsWithHash (text : String) : Bool := text.data.head? = some '#'

section Validators

variable (host : ComputerHost) (options : DiagnosticOptions)

def isIgnoredLink (link : String) : Bool := options.ignoreLinks.any (host.isMatch link)

def invalidHeaderLink (source : MdLinkSource) (fragment : String) (severity : DiagnosticSeverity) :
    Diagnostic :=
  ⟨source.hrefRange, "No header found: '" ++ fragment ++ "'", severity, some source.text⟩

def invalidReferenceLink (source : MdLinkSource) (ref : String) (severity : DiagnosticSeverity) :
    Diagnostic :=
  ⟨source.hrefRange, "No link definition found: '" ++ ref ++ "'", severity, none⟩

def invalidPathLink (source : MdLinkSource) (path : String) (severity : DiagnosticSeverity) :
    Diagnostic :=
  ⟨source.hrefRange, "File does not exist at path: " ++ host.fsPath path, severity,
    some source.pathText⟩

/-- The range reaches back over the `#` before the fragment. -/
def invalidLinkToHeaderInOtherFile (source : MdLinkSource) (fragment : String)
    (severity : DiagnosticSeverity) : Diagnostic :=
  ⟨(source.fragmentRange.map fun r => { r with start := r.start.translate 0 (-1) }).getD
      source.hrefRange,
    "Header does not exist in file: " ++ fragment, severity, some source.text⟩

def headerLinkDiagnostic (doc : SkinnyTextDocument) (severity : DiagnosticSeverity)
    (link : MdLink) : Option Diagnostic :=
  match link.href with
  | .internal path fragment =>
    if startsWithHash link.source.text ∧ path.toString = doc.uri.toString ∧ fragment ≠ "" ∧
        host.tocLookup doc fragment = false ∧ isIgnoredLink host options link.source.text = false
    then some (invalidHeaderLink link.source fragment severity) else none
  | _ => none

def validateFragmentLinks (doc : SkinnyTextDocument) (links : List MdLink) (cancelled : Bool) :
    List Diagnostic :=
  match toSeverity options.validateFragmentLinks with
  | none => []
  | some severity =>
    if cancelled then [] else links.filterMap (headerLinkDiagnostic host options doc severity)

def referenceLinkDiagnostic (links : List MdLink) (severity : DiagnosticSeverity) (link : MdLink) :
    Option Diagnostic :=
  match link.href with
  | .reference ref =>
    if host.hasDefinition links ref then none
    else some (invalidReferenceLink link.source ref severity)
  | _ => none

def validateReferenceLinks (links : List MdLink) : List Diagnostic :=
  match toSeverity options.validateReferences with
  | none => []
  | some severity => links.filterMap (referenceLinkDiagnostic host links severity)

end Validators

def FileLinkMap.add (m : ResourceMap (List OutgoingLink)) (link : MdLink) :
    ResourceMap (List OutgoingLink) :=
  match link.href with
  | .internal path fragment =>
    match m.get path with
    | some outgoingLinks => m.set path (outgoingLinks ++ [⟨link.source, fragment⟩])
    | none => m.set path [⟨link.source, fragment⟩]
  | _ => m

/-- `new FileLinkMap(links)`: the internal links, by the URI string of their path, in order of
first occurrence; each keeps its source and fragment. -/
def FileLinkMap.create (links : List MdLink) : ResourceMap (List OutgoingLink) :=
  links.foldl FileLinkMap.add .empty

section Validators

variable (host : ComputerHost) (options : DiagnosticOptions)

/-- What the task for one path pushes, once it is past its cancellation check. -/
def validateFileLinksTo (pathErrorSeverity : DiagnosticSeverity)
    (fragmentErrorSeverity : Option DiagnosticSeverity) (path : String)
    (outgoingLinks : List OutgoingLink) : List Diagnostic :=
  match host.tryFindMdDocumentForLink path with
  | none =>
    if host.pathExists path then [] else
    outgoingLinks.filterMap fun link =>
      if isIgnoredLink host options link.source.pathText then none
      else some (invalidPathLink host link.source path pathErrorSeverity)
  | some hrefDoc =>
    match fragmentErrorSeverity with
    | none => []
    | some fragmentErrorSeverity =>
      (outgoingLinks.filter fun link => link.fragment ≠ "").filterMap fun link =>
        if host.tocLookup hrefDoc link.fragment = false ∧
            isIgnoredLink host options link.source.pathText = false ∧
            isIgnoredLink host options link.source.text = false
        then some (invalidLinkToHeaderInOtherFile link.source link.fragment fragmentErrorSeverity)
        else none

def validateFileLinks (links : List MdLink) (cancelled : String → Bool) (schedule : Schedule) :
    List Diagnostic :=
  match toSeverity options.validateFileLinks with
  | none => []
  | some pathErrorSeverity =>
    let fragmentErrorSeverity :=
      toSeverity (options.validateMarkdownFileLinkFragments.or options.validateFragmentLinks)
    let linkSet := FileLinkMap.create (links.filter fun link => !startsWithHash link.source.text)
    (schedule linkSet.entries).flatMap fun (path, outgoingLinks) =>
      if cancelled path then []
      else
        validateFileLinksTo host options pathErrorSeverity fragmentErrorSeverity path
          outgoingLinks

structure ComputedDiagnostics where
  links : List MdLink
  diagnostics : List Diagnostic

/-- `getDiagnostics`, from the links `getAllLinks` resolved to. -/
def getDiagnostics (doc : SkinnyTextDocument) (links : List MdLink) (reads : TokenReads)
    (schedule : Schedule) : ComputedDiagnostics :=
  if reads.afterLinks || !options.enabled then ⟨links, []⟩
  else
    ⟨links,
      validateFileLinks host options links reads.fileTask schedule ++
        validateReferenceLinks host options links ++
        validateFragmentLinks host options doc links reads.afterTableOfContents⟩

end Validators

/-! ## The diagnostics, link by link -/

section Expected

variable (host : ComputerHost) (options : DiagnosticOptions)

/-- The header diagnostic of one link: an internal link whose text starts with `#`, whose path is
the document's and whose fragment is not empty and names no header of the document gets one,
unless its text matches an ignore glob. -/
def headerLinkExpected (doc : SkinnyTextDocument) (severity : DiagnosticSeverity)
    (link : MdLink) : Option Diagnostic :=
  match link.href with
  | .internal path fragment =>
    if startsWithHash link.source.text ∧ path.toString = doc.uri.toString ∧ fragment ≠ "" ∧
        host.tocLookup doc fragment = false ∧
        ∀ glob ∈ options.ignoreLinks, host.isMatch link.source.text glob = false
    then some (invalidHeaderLink link.source fragment severity) else none
  | _ => none

/-- The reference diagnostic of one link: a reference link whose reference has no definition
among the links gets one. -/
def referenceLinkExpected (links : List MdLink) (severity : DiagnosticSeverity) (link : MdLink) :
    Option Diagnostic :=
  match link.href with
  | .reference ref =>
    if host.hasDefinition links ref = false then
      some (invalidReferenceLink link.source ref severity)
    else none
  | _ => none

/-- The file diagnostic of one link: an internal link whose text does not start with `#` gets a
path diagnostic when no markdown document is found for its path and the path does not exist, unless
its path text matches an ignore glob.  It gets a fragment diagnostic when a markdown document is
found, the fragment severity is set, and its fragment is not empty and names no header of that
document, unless its path text or its text matches an ignore glob. -/
def fileLinkExpected (pathErrorSeverity : DiagnosticSeverity)
    (fragmentErrorSeverity : Option DiagnosticSeverity) (link : MdLink) : Option Diagnostic :=
  match link.href with
  | .internal path fragment =>
    if startsWithHash link.source.text then none
    else match host.tryFindMdDocumentForLink path.toString, fragmentErrorSeverity with
      | none, _ =>
        if host.pathExists path.toString = false ∧
            ∀ glob ∈ options.ignoreLinks, host.isMatch link.source.pathText glob = false
        then some (invalidPathLink host link.source path.toString pathErrorSeverity) else none
      | some hrefDoc, some severity =>
        if fragment ≠ "" ∧ host.tocLookup hrefDoc fragment = false ∧
            (∀ glob ∈ options.ignoreLinks, host.isMatch link.source.pathText glob = false) ∧
            ∀ glob ∈ options.ignoreLinks, host.isMatch link.source.text glob = false
        then some (invalidLinkToHeaderInOtherFile link.source fragment severity) else none
      | some _, none => none
  | _ => none

/-- The diagnostics of an enabled document, link by link: the file diagnostics, the reference
diagnostics and the header diagnostics, each under the severity of its option. -/
def expectedDiagnostics (doc : SkinnyTextDocument) (links : List MdLink) : List Diagnostic :=
  (match toSeverity options.validateFileLinks with
    | none => []
    | some pathErrorSeverity =>
      links.filterMap (fileLinkExpected host options pathErrorSeverity
        (toSeverity
          (options.validateMarkdownFileLinkFragments.or options.validateFragmentLinks)))) ++
  (match toSeverity options.validateReferences with
    | none => []
    | some severity => links.filterMap (referenceLinkExpected host links severity)) ++
  (match toSeverity options.validateFragmentLinks with
    | none => []
    | some severity => links.filterMap (headerLinkExpected host options doc severity))

theorem isIgnoredLink_eq_false_iff {text : String} :
    isIgnoredLink host options text = false ↔
      ∀ glob ∈ options.ignoreLinks, host.isMatch text glob = false := by
  simp [isIgnoredLink]

theorem headerLinkDiagnostic_eq_expected (doc : SkinnyTextDocument)
    (severity : DiagnosticSeverity) :
    headerLinkDiagnostic host options doc severity =
      headerLinkExpected host options doc severity := by
  funext link
  unfold headerLinkDiagnostic headerLinkExpected
  cases link.href <;> simp only [isIgnoredLink_eq_false_iff]

theorem referenceLinkDiagnostic_eq_expected (links : List MdLink)
    (severity : DiagnosticSeverity) :
    referenceLinkDiagnostic host links severity = referenceLinkExpected host links severity := by
  funext link
  unfold referenceLinkDiagnostic referenceLinkExpected
  split
  · next ref _ => cases host.hasDefinition links ref <;> rfl
  · rfl


def outgoingLinkDiagnostic (pathErrorSeverity : DiagnosticSeverity)
    (fragmentErrorSeverity : Option DiagnosticSeverity) (path : String) (link : OutgoingLink) :
    Option Diagnostic :=
  match host.tryFindMdDocumentForLink path, fragmentErrorSeverity with
  | none, _ =>
    if host.pathExists path ∨ isIgnoredLink host options link.source.pathText then none
    else some (invalidPathLink host link.source path pathErrorSeverity)
  | some hrefDoc, some severity =>
    if link.fragment ≠ "" ∧ host.tocLookup hrefDoc link.fragment = false ∧
        isIgnoredLink host options link.source.pathText = false ∧
        isIgnoredLink host options link.source.text = false
    then some (invalidLinkToHeaderInOtherFile link.source link.fragment severity) else none
  | some _, none => none

theorem validateFileLinksTo_eq_filterMap (pathErrorSeverity : DiagnosticSeverity)
    (fragmentErrorSeverity : Option DiagnosticSeverity) (path : String)
    (outgoingLinks : List OutgoingLink) :
    validateFileLinksTo host options pathErrorSeverity fragmentErrorSeverity path outgoingLinks =
      outgoingLinks.filterMap (outgoingLinkDiagnostic host options pathErrorSeverity
        fragmentErrorSeverity path) := by
  unfold validateFileLinksTo outgoingLinkDiagnostic
  cases host.tryFindMdDocumentForLink path with
  | none => cases host.pathExists path <;> simp
  | some hrefDoc =>
    cases fragmentErrorSeverity with
    | none => simp
    | some severity =>
      dsimp only
      rw [List.filterMap_filter]
      congr 1
      funext link
      by_cases hf : link.fragment = "" <;> simp [hf]

end Expected

section FileLinkMap

variable {β : Type} (F : String → OutgoingLink → Option β)

/-- `F` on an internal link, through its path and the data a `FileLinkMap` keeps of it. -/
def FileLinkMap.onLink (link : MdLink) : Option β :=
  match link.href with
  | .internal path fragment => F path.toString ⟨link.source, fragment⟩
  | _ => none

theorem FileLinkMap.flatMap_add_perm (m : ResourceMap (List OutgoingLink)) (link : MdLink) :
    ((FileLinkMap.add m link).entries.flatMap fun e => e.2.filterMap (F e.1)).Perm
      (m.entries.flatMap (fun e => e.2.filterMap (F e.1)) ++ [link].filterMap (onLink F)) := by
  rcases hhref : link.href with ⟨path, fragment⟩ | _ | _
  · have hone : [link].filterMap (onLink F) =
        [(⟨link.source, fragment⟩ : OutgoingLink)].filterMap (F path.toString) := by
      have : onLink F link = F path.toString ⟨link.source, fragment⟩ := by
        unfold FileLinkMap.onLink; rw [hhref]
      simp only [List.filterMap_cons, List.filterMap_nil, this]
    rw [hone]
    cases hget : m.get path with
    | some outgoingLinks =>
      simp only [FileLinkMap.add, hhref, hget]
      have hset := ResourceMap.flatMap_set_perm (fun e => e.2.filterMap (F e.1))
        (outgoingLinks ++ [⟨link.source, fragment⟩]) hget
      simp only [List.filterMap_append, ← List.append_assoc] at hset
      refine (List.perm_append_right_iff (outgoingLinks.filterMap (F path.toString))).1
        (hset.trans ?_)
      simpa only [List.append_assoc] using List.perm_append_comm.append_left _
    | none => simp [FileLinkMap.add, hhref, hget, ResourceMap.set_entries_of_get_eq_none _ hget]
  all_goals simp [FileLinkMap.add, onLink, hhref]

/-- Grouping the internal links by path and running `F` over each group gives the same results,
up to order, as running `F` link by link. -/
theorem FileLinkMap.flatMap_create_perm (links : List MdLink) :
    ((FileLinkMap.create links).entries.flatMap fun e => e.2.filterMap (F e.1)).Perm
      (links.filterMap (onLink F)) := by
  suffices h : ∀ m : ResourceMap (List OutgoingLink),
      ((links.foldl FileLinkMap.add m).entries.flatMap fun e => e.2.filterMap (F e.1)).Perm
        (m.entries.flatMap (fun e => e.2.filterMap (F e.1)) ++ links.filterMap (onLink F)) by
    simpa using h .empty
  induction links with
  | nil => simp
  | cons link links ih =>
    intro m
    refine (ih _).trans ?_
    rw [show link :: links = [link] ++ links from rfl, List.filterMap_append, ← List.append_assoc]
    exact (FileLinkMap.flatMap_add_perm F m link).append_right _

/-- What a `FileLinkMap` keeps for `path`: the source and fragment of every internal link whose
path has its URI string, in order. -/
def FileLinkMap.linksTo (path : Uri) (links : List MdLink) : List OutgoingLink :=
  links.filterMap (onLink fun p link => if p = path.toString then some link else none)

theorem FileLinkMap.getD_add (m : ResourceMap (List OutgoingLink)) (link : MdLink) (path : Uri) :
    ((FileLinkMap.add m link).get path).getD [] = (m.get path).getD [] ++ linksTo path [link] := by
  simp only [linksTo, List.filterMap_cons, List.filterMap_nil, onLink, FileLinkMap.add]
  rcases link.href with ⟨p, fragment⟩ | _ | _
  · by_cases hp : p.toString = path.toString
    · have hget := m.get_congr hp
      cases hm : m.get p <;> simp [ResourceMap.get_set, hp, ← hget, hm]
    · have hp' : path.toString ≠ p.toString := Ne.symm hp
      cases hm : m.get p <;> simp [ResourceMap.get_set, hp, hp', hm]
  all_goals simp

theorem FileLinkMap.ne_nil_add {m : ResourceMap (List OutgoingLink)}
    (hm : ∀ path ol, m.get path = some ol → ol ≠ []) (link : MdLink) :
    ∀ path ol, (FileLinkMap.add m link).get path = some ol → ol ≠ [] := by
  intro path ol h
  unfold FileLinkMap.add at h
  split at h
  · split at h <;> rw [ResourceMap.get_set] at h <;> split at h
    all_goals first | (cases h; simp) | exact hm _ _ h
  all_goals exact hm _ _ h

/-- The constructor's loop, from a map with no empty entry, appends to the entry of each path the
links to it, and leaves no entry empty. -/
theorem FileLinkMap.foldl_add (links : List MdLink) (path : Uri) :
    ∀ m : ResourceMap (List OutgoingLink), (∀ p ol, m.get p = some ol → ol ≠ []) →
      ((links.foldl FileLinkMap.add m).get path).getD [] =
          (m.get path).getD [] ++ linksTo path links ∧
        ∀ p ol, (links.foldl FileLinkMap.add m).get p = some ol → ol ≠ [] := by
  induction links with
  | nil => exact fun m hm => ⟨by simp [linksTo], hm⟩
  | cons link links ih =>
    intro m hm
    obtain ⟨hgetD, hne⟩ := ih _ (FileLinkMap.ne_nil_add hm link)
    refine ⟨?_, hne⟩
    rw [List.foldl_cons, hgetD, FileLinkMap.getD_add, List.append_assoc, linksTo, linksTo,
      ← List.filterMap_append]
    rfl

/-- `new FileLinkMap(links)` has an entry for a path, by URI string, exactly when an internal
link points there, and the entry keeps the source and fragment of every such link, in order. -/
theorem fileLinkMap_groups_links_by_path (links : List MdLink) (path : Uri) :
    (FileLinkMap.create links).get path =
      if (FileLinkMap.linksTo path links).isEmpty then none
      else some (FileLinkMap.linksTo path links) := by
  obtain ⟨hgetD, hne⟩ := FileLinkMap.foldl_add links path .empty (by simp)
  simp only [ResourceMap.get_empty, Option.getD_none, List.nil_append] at hgetD
  unfold FileLinkMap.create
  rw [← hgetD]
  cases hc : (links.foldl FileLinkMap.add .empty).get path with
  | none => simp
  | some ol => simp [hne _ _ hc]

end FileLinkMap

/-! ## Every schedule gives the diagnostics link by link -/

section Schedules

variable (host : ComputerHost) (options : DiagnosticOptions)

/-- On a link whose text does not start with `#`, what the task of its path pushes for it is its
file diagnostic. -/
theorem onLink_outgoingLinkDiagnostic (pathErrorSeverity : DiagnosticSeverity)
    (fragmentErrorSeverity : Option DiagnosticSeverity) {link : MdLink}
    (h : startsWithHash link.source.text = false) :
    FileLinkMap.onLink (outgoingLinkDiagnostic host options pathErrorSeverity
        fragmentErrorSeverity) link =
      fileLinkExpected host options pathErrorSeverity fragmentErrorSeverity link := by
  unfold FileLinkMap.onLink fileLinkExpected outgoingLinkDiagnostic
  split
  · simp only [h, Bool.false_eq_true, if_false, ← isIgnoredLink_eq_false_iff]
    split
    · cases host.pathExists _ <;> cases isIgnoredLink host options _ <;> rfl
    · rfl
    · rfl
  · rfl

theorem validateFileLinks_perm (links : List MdLink) (schedule : Schedule)
    (hschedule : ∀ tasks, (schedule tasks).Perm tasks) :
    (validateFileLinks host options links (fun _ => false) schedule).Perm
      (match toSeverity options.validateFileLinks with
        | none => []
        | some pathErrorSeverity =>
          links.filterMap (fileLinkExpected host options pathErrorSeverity
            (toSeverity
              (options.validateMarkdownFileLinkFragments.or options.validateFragmentLinks)))) := by
  unfold validateFileLinks
  split
  · exact .refl _
  · next pathErrorSeverity _ =>
    set fragmentErrorSeverity :=
      toSeverity (options.validateMarkdownFileLinkFragments.or options.validateFragmentLinks)
    refine ((hschedule _).flatMap_right _).trans (List.Perm.trans (.of_eq ?_)
      ((FileLinkMap.flatMap_create_perm
        (outgoingLinkDiagnostic host options pathErrorSeverity fragmentErrorSeverity)
        (links.filter fun link => !startsWithHash link.source.text)).trans
        (.of_eq ?_)))
    · congr 1
      funext ⟨path, outgoingLinks⟩
      simp [validateFileLinksTo_eq_filterMap]
    · rw [List.filterMap_filter]
      congr 1
      funext link
      cases h : startsWithHash link.source.text
      · simp [onLink_outgoingLinkDiagnostic host options _ _ h]
      · simp only [h, Bool.not_true, Bool.false_eq_true, if_false]
        unfold fileLinkExpected
        split
        · simp [h]
        · rfl

/-- With an uncancelled token, the diagnostics are those of `expectedDiagnostics` in some
order when the document is enabled, and none otherwise. -/
theorem getDiagnostics_uncancelled_perm (doc : SkinnyTextDocument) (links : List MdLink)
    (schedule : Schedule) (hschedule : ∀ tasks, (schedule tasks).Perm tasks) :
    (getDiagnostics host options doc links .uncancelled schedule).diagnostics.Perm
      (if options.enabled then expectedDiagnostics host options doc links else []) := by
  cases henabled : options.enabled
  · simp [getDiagnostics, TokenReads.uncancelled, henabled]
  have hfragment : validateFragmentLinks host options doc links false =
      match toSeverity options.validateFragmentLinks with
      | none => []
      | some severity => links.filterMap (headerLinkExpected host options doc severity) := by
    unfold validateFragmentLinks
    split <;> simp [headerLinkDiagnostic_eq_expected]
  have hreference : validateReferenceLinks host options links =
      match toSeverity options.validateReferences with
      | none => []
      | some severity => links.filterMap (referenceLinkExpected host links severity) := by
    unfold validateReferenceLinks
    split <;> simp [referenceLinkDiagnostic_eq_expected]
  simp only [getDiagnostics, TokenReads.uncancelled, henabled, Bool.not_true, Bool.or_false,
    Bool.false_eq_true, if_false, if_true, expectedDiagnostics, hfragment, hreference]
  exact ((validateFileLinks_perm host options links schedule hschedule).append (.refl _)).append
    (.refl _)

/-- With validation enabled and an uncancelled token, `getDiagnostics` returns, up to order and
whatever the order in which the `Limiter` finishes its tasks, exactly the diagnostics listed
link by link. -/
theorem getDiagnostics_perm_expected (doc : SkinnyTextDocument) (links : List MdLink)
    (schedule : Schedule) (hschedule : ∀ tasks, (schedule tasks).Perm tasks)
    (henabled : options.enabled = true) :
    (getDiagnostics host options doc links .uncancelled schedule).diagnostics.Perm
      (expectedDiagnostics host options doc links) := by
  simpa only [henabled, if_true] using
    getDiagnostics_uncancelled_perm host options doc links schedule hschedule

/-! ## Cancellation only drops diagnostics -/

private theorem flatMap_sublist_flatMap {α β : Type} {f g : α → List β} :
    ∀ l : List α, (∀ a ∈ l, (f a).Sublist (g a)) → (l.flatMap f).Sublist (l.flatMap g)
  | [], _ => .slnil
  | a :: l, h => by
    rw [List.flatMap_cons, List.flatMap_cons]
    exact (h a (List.mem_cons_self a l)).append
      (flatMap_sublist_flatMap l fun b hb => h b (List.mem_cons_of_mem a hb))

/-- A path's task whose token is cancelled pushes nothing; the others push what they push
uncancelled. -/
theorem validateFileLinks_sublist (links : List MdLink) (cancelled : String → Bool)
    (schedule : Schedule) :
    (validateFileLinks host options links cancelled schedule).Sublist
      (validateFileLinks host options links (fun _ => false) schedule) := by
  unfold validateFileLinks
  split
  · exact .slnil
  · exact flatMap_sublist_flatMap _ fun _ _ => by split; split <;> simp

theorem validateFragmentLinks_sublist (doc : SkinnyTextDocument) (links : List MdLink)
    (cancelled : Bool) :
    (validateFragmentLinks host options doc links cancelled).Sublist
      (validateFragmentLinks host options doc links false) := by
  unfold validateFragmentLinks
  split
  · exact .slnil
  · split <;> simp

/-- Whatever the token reads, `getDiagnostics` returns part of what it returns uncancelled, in
the same order. -/
theorem getDiagnostics_sublist_uncancelled (doc : SkinnyTextDocument) (links : List MdLink)
    (reads : TokenReads) (schedule : Schedule) :
    (getDiagnostics host options doc links reads schedule).diagnostics.Sublist
      (getDiagnostics host options doc links .uncancelled schedule).diagnostics := by
  unfold getDiagnostics
  split
  · exact List.nil_sublist _
  · next hcut =>
    have henabled : options.enabled = true := by simp_all
    simp only [TokenReads.uncancelled, henabled, Bool.not_true, Bool.or_false,
      Bool.false_eq_true, if_false]
    exact ((validateFileLinks_sublist host options links _ schedule).append (.refl _)).append
      (validateFragmentLinks_sublist host options doc links _)

theorem getDiagnostics_links (doc : SkinnyTextDocument) (links : List MdLink) (reads : TokenReads)
    (schedule : Schedule) :
    (getDiagnostics host options doc links reads schedule).links = links := by
  unfold getDiagnostics
  split <;> rfl

end Schedules

/-- `a.md` links to a header it does not have, to a file that does not exist, and through a
reference with no definition; no document, file, header or definition exists, a glob matches
exactly itself, every kind of link is validated, header links as errors, and nothing is
ignored. -/
def brokenDoc : SkinnyTextDocument := ⟨⟨0, "a.md"⟩, "[h](#nowhere) [f](missing.md) [r][nodef]"⟩

def brokenLinks : List MdLink :=
  [⟨⟨"#nowhere", "", ⟨⟨0, 4⟩, ⟨0, 12⟩⟩, some ⟨⟨0, 5⟩, ⟨0, 12⟩⟩⟩, .internal ⟨0, "a.md"⟩ "nowhere"⟩,
    ⟨⟨"missing.md", "missing.md", ⟨⟨0, 18⟩, ⟨0, 28⟩⟩, none⟩, .internal ⟨1, "missing.md"⟩ ""⟩,
    ⟨⟨"nodef", "nodef", ⟨⟨0, 33⟩, ⟨0, 38⟩⟩, none⟩, .reference "nodef"⟩]

def brokenHost : ComputerHost :=
  ⟨fun _ => none, fun _ => false, fun _ _ => false, fun _ _ => false,
    fun link glob => decide (link = glob), id⟩

def brokenOptions : DiagnosticOptions :=
  ⟨true, some .warning, some .error, some .warning, none, []⟩

theorem getDiagnostics_perm_expected_broken :
    (∀ tasks : List (String × List OutgoingLink), (id tasks).Perm tasks) ∧
      brokenOptions.enabled = true ∧
      (getDiagnostics brokenHost brokenOptions brokenDoc brokenLinks .uncancelled
          id).diagnostics.Perm
        (expectedDiagnostics brokenHost brokenOptions brokenDoc brokenLinks) ∧
      (expectedDiagnostics brokenHost brokenOptions brokenDoc brokenLinks).map (·.message) =
        ["File does not exist at path: missing.md", "No link definition found: 'nodef'",
          "No header found: 'nowhere'"] :=
  ⟨fun _ => .refl _, rfl, getDiagnostics_perm_expected _ _ _ _ id (fun _ => .refl _) rfl,
    by decide⟩

end MarkdownDiagnostics
