import MarkdownDiagnostics.Link

/-!
# The configuration

`VSCodeDiagnosticConfiguration` reads the options of a resource from the `markdown` section of
the settings, and fires `onDidChange` when one of the six validation settings changes.  The
section is given once to `getConfiguration('markdown', resource)`, and each `get` names a key
inside it; one of them, for `validateMarkdownFileLinkFragments`, names the section again.  So
the setting `markdown.experimental.validate.fileLinks.markdownFragmentLinks`, whose change fires
`onDidChange`, is never read, and `getOptions` reads an unwatched key under `markdown.markdown`.
-/

namespace MarkdownDiagnostics

/-- Modelled from the spec: the settings `vscode.workspace.getConfiguration` sees for a resource,
by full key, each with the type it is declared with. -/
structure Settings where
  bools : String → Option Bool
  levels : String → Option DiagnosticLevel
  stringLists : String → Option (List String)

namespace Settings

def empty : Settings := ⟨fun _ => none, fun _ => none, fun _ => none⟩

/-- The settings with the level setting `key` set to `value`, or removed. -/
def setLevel (settings : Settings) (key : String) (value : Option DiagnosticLevel) : Settings :=
  { settings with levels := fun k => if k = key then value else settings.levels k }

/-- `getConfiguration('markdown', resource).get(key)`: the setting `markdown.key`. -/
def markdown (key : String) : String := "markdown." ++ key

end Settings

/-- `VSCodeDiagnosticConfiguration.getOptions`. -/
def getOptions (settings : Settings) : DiagnosticOptions :=
  let validateFragmentLinks :=
    settings.levels (Settings.markdown "experimental.validate.fragmentLinks.enabled")
  { enabled := (settings.bools (Settings.markdown "experimental.validate.enabled")).getD false
    validateReferences :=
      settings.levels (Settings.markdown "experimental.validate.referenceLinks.enabled")
    validateFragmentLinks
    validateFileLinks :=
      settings.levels (Settings.markdown "experimental.validate.fileLinks.enabled")
    validateMarkdownFileLinkFragments :=
      (settings.levels
        (Settings.markdown "markdown.experimental.validate.fileLinks.markdownFragmentLinks")).or
        validateFragmentLinks
    ignoreLinks :=
      (settings.stringLists (Settings.markdown "experimental.validate.ignoreLinks")).getD [] }

/-- Unset, the validation is off, no kind of link is validated and no link is ignored. -/
example : getOptions .empty = ⟨false, none, none, none, none, []⟩ := rfl

/-- `getOptions` never reads the setting `markdownFragmentLinks`. -/
theorem getOptions_setLevel_markdownFragmentLinks (settings : Settings)
    (value : Option DiagnosticLevel) :
    getOptions (settings.setLevel
        "markdown.experimental.validate.fileLinks.markdownFragmentLinks" value) =
      getOptions settings := by
  simp [getOptions, Settings.setLevel, Settings.markdown]

/-- It reads the key under `markdown.markdown` in its place. -/
example : getOptions (Settings.empty.setLevel
      "markdown.markdown.experimental.validate.fileLinks.markdownFragmentLinks" (some .error)) =
    ⟨false, none, none, none, some .error, []⟩ := rfl

/-- The settings `onDidChangeConfiguration` checks with `affectsConfiguration`. -/
def watchedSettings : List String :=
  ["markdown.experimental.validate.enabled",
    "markdown.experimental.validate.referenceLinks.enabled",
    "markdown.experimental.validate.fragmentLinks.enabled",
    "markdown.experimental.validate.fileLinks.enabled",
    "markdown.experimental.validate.fileLinks.markdownFragmentLinks",
    "markdown.experimental.validate.ignoreLinks"]

/-- A change of the one setting `key` fires `onDidChange`; `affectsConfiguration` also matches
the sections above a key, and no setting here is one. -/
def firesOnDidChange (key : String) : Bool := watchedSettings.contains key

/-- The setting `getOptions` does not read fires `onDidChange`; the key it reads fires nothing. -/
example : firesOnDidChange "markdown.experimental.validate.fileLinks.markdownFragmentLinks" ∧
    !firesOnDidChange "markdown.markdown.experimental.validate.fileLinks.markdownFragmentLinks" :=
  by decide

end MarkdownDiagnostics
