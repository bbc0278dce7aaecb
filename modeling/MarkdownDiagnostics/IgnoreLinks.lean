import MarkdownDiagnostics.Computer

/-!
# Ignored links and the quick fix

A diagnostic about a link is suppressed when the link's text matches one of the `ignoreLinks`
globs.  `AddToIgnoreLinksQuickFixProvider` offers, for every `LinkDoesNotExistDiagnostic`, a
command that adds the diagnostic's `link` to that setting.

Each validator records in `link` a string it checked against the globs itself: the path text
for a missing file, the link text for a missing header.  So more globs only remove diagnostics,
and once the quick fix has run, its link is reported no more, provided every string matches
itself as a glob.
-/

namespace MarkdownDiagnostics

/-- A `vscode.Command`: the command a quick fix runs, with its arguments `[uri, link]`. -/
structure Command where
  command : String
  title : String
  arguments : Uri × String

/-- A `vscode.CodeAction` of kind `QuickFix`. -/
structure CodeAction where
  title : String
  command : Command

def addToIgnoreLinksCommandId : String := "_markdown.addToIgnoreLinks"

/-- `provideCodeActions`: one fix for each `LinkDoesNotExistDiagnostic` of the context. -/
def provideCodeActions (document : SkinnyTextDocument) (diagnostics : List Diagnostic) :
    List CodeAction :=
  diagnostics.filterMap fun diagnostic =>
    diagnostic.link.map fun link =>
      ⟨"Exclude '" ++ link ++ "' from link validation.",
        ⟨addToIgnoreLinksCommandId, "", (document.uri, link)⟩⟩

/-- The command's `execute`: the setting's list made a `Set`, the link added, spread back. -/
def addToIgnoreLinks (ignoreLinks : List String) (path : String) : List String :=
  let paths := ignoreLinks.foldl (fun paths x => if x ∈ paths then paths else paths ++ [x]) []
  if path ∈ paths then paths else paths ++ [path]

private theorem mem_foldl_setAdd (x : String) : ∀ (l acc : List String),
    x ∈ l.foldl (fun paths x => if x ∈ paths then paths else paths ++ [x]) acc ↔
      x ∈ acc ∨ x ∈ l
  | [], acc => by simp
  | y :: l, acc => by
    rw [List.foldl_cons, mem_foldl_setAdd x l, List.mem_cons]
    by_cases hxy : x = y
    · subst hxy; split <;> simp_all
    · split <;> simp_all

theorem mem_addToIgnoreLinks {ignoreLinks : List String} {path x : String} :
    x ∈ addToIgnoreLinks ignoreLinks path ↔ x = path ∨ x ∈ ignoreLinks := by
  simp only [addToIgnoreLinks]
  split
  · next hpath =>
    rw [mem_foldl_setAdd] at hpath ⊢
    simp only [List.not_mem_nil, false_or] at hpath ⊢
    constructor
    · exact .inr
    · rintro (rfl | h) <;> assumption
  · simp [mem_foldl_setAdd, or_comm]

theorem provideCodeActions_of_link {document : SkinnyTextDocument} {d : Diagnostic}
    {link : String} (h : d.link = some link) :
    provideCodeActions document [d] =
      [⟨"Exclude '" ++ link ++ "' from link validation.",
        ⟨addToIgnoreLinksCommandId, "", (document.uri, link)⟩⟩] := by
  simp [provideCodeActions, h]

/-! ## Each validator checks the link it records -/

section Checked

variable {host : ComputerHost} {options : DiagnosticOptions} {d : Diagnostic}

/-- The string a diagnostic records in `link`, if any, matches none of the globs of `options`. -/
def LinkChecked (host : ComputerHost) (options : DiagnosticOptions) (d : Diagnostic) : Prop :=
  ∀ link, d.link = some link → ∀ glob ∈ options.ignoreLinks, host.isMatch link glob = false

theorem headerLinkExpected_linkChecked {doc : SkinnyTextDocument} {severity : DiagnosticSeverity}
    {link : MdLink} (h : headerLinkExpected host options doc severity link = some d) :
    LinkChecked host options d := by
  unfold headerLinkExpected at h
  split at h
  · split at h
    · next hc =>
      cases h
      rintro _ ⟨⟩
      exact hc.2.2.2.2
    · cases h
  · cases h

theorem referenceLinkExpected_linkChecked {links : List MdLink} {severity : DiagnosticSeverity}
    {link : MdLink} (h : referenceLinkExpected host links severity link = some d) :
    LinkChecked host options d := by
  unfold referenceLinkExpected at h
  split at h
  · split at h
    · cases h
      rintro _ ⟨⟩
    · cases h
  · cases h

theorem fileLinkExpected_linkChecked {pathErrorSeverity : DiagnosticSeverity}
    {fragmentErrorSeverity : Option DiagnosticSeverity} {link : MdLink}
    (h : fileLinkExpected host options pathErrorSeverity fragmentErrorSeverity link = some d) :
    LinkChecked host options d := by
  unfold fileLinkExpected at h
  split at h
  · split at h
    · cases h
    · split at h
      · split at h
        · next hc =>
          cases h
          rintro _ ⟨⟩
          exact hc.2
        · cases h
      · split at h
        · next hc =>
          cases h
          rintro _ ⟨⟩
          exact hc.2.2.2
        · cases h
      · cases h
  · cases h

theorem expectedDiagnostics_linkChecked {doc : SkinnyTextDocument} {links : List MdLink}
    (h : d ∈ expectedDiagnostics host options doc links) : LinkChecked host options d := by
  unfold expectedDiagnostics at h
  simp only [List.mem_append] at h
  rcases h with (h | h) | h <;> split at h <;> simp only [List.not_mem_nil, List.mem_filterMap] at h
  · obtain ⟨link, -, hl⟩ := h; exact fileLinkExpected_linkChecked hl
  · obtain ⟨link, -, hl⟩ := h; exact referenceLinkExpected_linkChecked hl
  · obtain ⟨link, -, hl⟩ := h; exact headerLinkExpected_linkChecked hl

end Checked

/-! ## More globs, fewer diagnostics -/

section Monotone

variable {host : ComputerHost} {options options' : DiagnosticOptions}

private theorem filterMap_sublist_of_imp {α β : Type} {f g : α → Option β}
    (h : ∀ a b, g a = some b → f a = some b) :
    ∀ l : List α, (l.filterMap g).Sublist (l.filterMap f)
  | [] => .slnil
  | a :: l => by
    rw [List.filterMap_cons, List.filterMap_cons]
    cases hg : g a with
    | none =>
      cases f a with
      | none => exact filterMap_sublist_of_imp h l
      | some b => exact (filterMap_sublist_of_imp h l).cons b
    | some b =>
      rw [h a b hg]
      exact (filterMap_sublist_of_imp h l).cons₂ b

/-- `options` ignores no text that `options'` does not ignore. -/
def IgnoresLess (host : ComputerHost) (options options' : DiagnosticOptions) : Prop :=
  ∀ text, (∀ glob ∈ options'.ignoreLinks, host.isMatch text glob = false) →
    ∀ glob ∈ options.ignoreLinks, host.isMatch text glob = false

/-- Where `options` ignores less than `options'`, every diagnostic about a file link under
`options'` is one under `options`. -/
theorem fileLinkExpected_of_ignoresLess (hign : IgnoresLess host options options')
    {pathErrorSeverity : DiagnosticSeverity} {fragmentErrorSeverity : Option DiagnosticSeverity}
    {link : MdLink} {d : Diagnostic}
    (h : fileLinkExpected host options' pathErrorSeverity fragmentErrorSeverity link = some d) :
    fileLinkExpected host options pathErrorSeverity fragmentErrorSeverity link = some d := by
  unfold fileLinkExpected at h ⊢
  split at h
  · split at h
    · cases h
    · rw [if_neg ‹_›]
      split at h
      · split at h
        · next hc =>
          rw [if_pos ⟨hc.1, hign _ hc.2⟩]
          exact h
        · cases h
      · split at h
        · next hc =>
          rw [if_pos ⟨hc.1, hc.2.1, hign _ hc.2.2.1, hign _ hc.2.2.2⟩]
          exact h
        · cases h
      · cases h
  · cases h

/-- The same for a link to a header of the document. -/
theorem headerLinkExpected_of_ignoresLess (hign : IgnoresLess host options options')
    {doc : SkinnyTextDocument} {severity : DiagnosticSeverity} {link : MdLink} {d : Diagnostic}
    (h : headerLinkExpected host options' doc severity link = some d) :
    headerLinkExpected host options doc severity link = some d := by
  unfold headerLinkExpected at h ⊢
  split at h
  · split at h
    · next hc =>
      rw [if_pos ⟨hc.1, hc.2.1, hc.2.2.1, hc.2.2.2.1, hign _ hc.2.2.2.2⟩]
      exact h
    · cases h
  · cases h

theorem expectedDiagnostics_sublist {G G' : List String} (hG : ∀ g ∈ G, g ∈ G')
    (doc : SkinnyTextDocument) (links : List MdLink) :
    (expectedDiagnostics host { options with ignoreLinks := G' } doc links).Sublist
      (expectedDiagnostics host { options with ignoreLinks := G } doc links) := by
  have hign : IgnoresLess host { options with ignoreLinks := G }
      { options with ignoreLinks := G' } := fun _ h glob hglob => h glob (hG glob hglob)
  unfold expectedDiagnostics
  refine .append (.append ?_ ?_) ?_ <;> dsimp only <;> split
  all_goals first
    | exact .slnil
    | exact .refl _
    | exact filterMap_sublist_of_imp (fun _ _ => fileLinkExpected_of_ignoresLess hign) _
    | exact filterMap_sublist_of_imp (fun _ _ => headerLinkExpected_of_ignoresLess hign) _

end Monotone

/-! ## Ignoring links through the setting and through the quick fix -/

section Settings

variable {host : ComputerHost} {doc : SkinnyTextDocument} {links : List MdLink}

theorem mem_expectedDiagnostics_of_mem_getDiagnostics {options : DiagnosticOptions}
    {schedule : Schedule} (hschedule : ∀ tasks, (schedule tasks).Perm tasks) {d : Diagnostic}
    (h : d ∈ (getDiagnostics host options doc links .uncancelled schedule).diagnostics) :
    options.enabled = true ∧ d ∈ expectedDiagnostics host options doc links := by
  have h := (getDiagnostics_uncancelled_perm host options doc links schedule hschedule).mem_iff.1 h
  split at h
  · exact ⟨‹_›, h⟩
  · cases h

variable (host doc links)

/-- Under any schedules of the file tasks: more ignore globs only remove diagnostics.  And the
provider attaches to every `LinkDoesNotExistDiagnostic` a fix whose command adds the
diagnostic's link to the setting; once it has run, no diagnostic names that link again. -/
theorem ignoreLinks_monotone_and_quickFix_silences (options : DiagnosticOptions)
    (hmatch : ∀ link, host.isMatch link link = true) :
    (∀ (G G' : List String) (schedule schedule' : Schedule),
      (∀ tasks, (schedule tasks).Perm tasks) → (∀ tasks, (schedule' tasks).Perm tasks) →
      (∀ g ∈ G, g ∈ G') →
      (getDiagnostics host { options with ignoreLinks := G' } doc links .uncancelled
          schedule').diagnostics.Subperm
        (getDiagnostics host { options with ignoreLinks := G } doc links .uncancelled
          schedule).diagnostics) ∧
    (∀ schedule schedule' : Schedule,
      (∀ tasks, (schedule tasks).Perm tasks) → (∀ tasks, (schedule' tasks).Perm tasks) →
      ∀ d ∈ (getDiagnostics host options doc links .uncancelled schedule).diagnostics,
      ∀ link, d.link = some link →
        ∃ fix ∈ provideCodeActions doc [d],
          fix.command.command = addToIgnoreLinksCommandId ∧
          fix.command.arguments = (doc.uri, link) ∧
          ∀ d' ∈ (getDiagnostics host
              { options with
                ignoreLinks := addToIgnoreLinks options.ignoreLinks fix.command.arguments.2 }
              doc links .uncancelled schedule').diagnostics,
            d'.link ≠ some link) := by
  refine ⟨fun G G' schedule schedule' hschedule hschedule' hG => ?_,
    fun schedule schedule' _ hschedule' d _ link hd => ?_⟩
  · refine (getDiagnostics_uncancelled_perm host _ doc links schedule' hschedule').subperm_right.2
      ((getDiagnostics_uncancelled_perm host _ doc links schedule hschedule).subperm_left.2 ?_)
    dsimp only
    split
    · exact (expectedDiagnostics_sublist hG doc links).subperm
    · exact List.nil_subperm
  · rw [provideCodeActions_of_link hd]
    refine ⟨_, List.mem_singleton_self _, rfl, rfl, fun d' hd' hlink => ?_⟩
    have hchecked := expectedDiagnostics_linkChecked
      (mem_expectedDiagnostics_of_mem_getDiagnostics hschedule' hd').2 link hlink
      link (mem_addToIgnoreLinks.2 (.inl rfl))
    rw [hmatch] at hchecked
    cases hchecked

end Settings

/-- On `brokenDoc` the validators report a missing file and a missing header, each with the link
a quick fix adds to the setting. -/
theorem ignoreLinks_monotone_and_quickFix_silences_broken :
    (getDiagnostics brokenHost brokenOptions brokenDoc brokenLinks .uncancelled
        id).diagnostics.filterMap (·.link) = ["missing.md", "#nowhere"] ∧
    (∀ link, brokenHost.isMatch link link = true) ∧
    (∀ (G G' : List String) (schedule schedule' : Schedule),
      (∀ tasks, (schedule tasks).Perm tasks) → (∀ tasks, (schedule' tasks).Perm tasks) →
      (∀ g ∈ G, g ∈ G') →
      (getDiagnostics brokenHost { brokenOptions with ignoreLinks := G' } brokenDoc brokenLinks
          .uncancelled schedule').diagnostics.Subperm
        (getDiagnostics brokenHost { brokenOptions with ignoreLinks := G } brokenDoc brokenLinks
          .uncancelled schedule).diagnostics) ∧
    (∀ schedule schedule' : Schedule,
      (∀ tasks, (schedule tasks).Perm tasks) → (∀ tasks, (schedule' tasks).Perm tasks) →
      ∀ d ∈ (getDiagnostics brokenHost brokenOptions brokenDoc brokenLinks .uncancelled
        schedule).diagnostics,
      ∀ link, d.link = some link →
        ∃ fix ∈ provideCodeActions brokenDoc [d],
          fix.command.command = addToIgnoreLinksCommandId ∧
          fix.command.arguments = (brokenDoc.uri, link) ∧
          ∀ d' ∈ (getDiagnostics brokenHost
              { brokenOptions with
                ignoreLinks := addToIgnoreLinks brokenOptions.ignoreLinks fix.command.arguments.2 }
              brokenDoc brokenLinks .uncancelled schedule').diagnostics,
            d'.link ≠ some link) :=
  ⟨by decide, fun _ => decide_eq_true rfl,
    ignoreLinks_monotone_and_quickFix_silences _ _ _ _ fun _ => decide_eq_true rfl⟩

end MarkdownDiagnostics
