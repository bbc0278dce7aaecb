import MarkdownDiagnostics.ResourceMap

/-!
# Links, options and diagnostics

The data the diagnostics code reads and builds: the links `MdLinkComputer.getAllLinks`
returns (only the fields `diagnostics.ts` reads), the `DiagnosticOptions` a configuration
gives, and the `vscode.Diagnostic`s the validators push.  A document is the
`SkinnyTextDocument` the workspace hands out.
-/

namespace MarkdownDiagnostics

/-- A `vscode.Position`. -/
structure Position where
  line : Nat
  character : Nat
deriving DecidableEq, Repr

/-- `Position.translate`.  vscode throws where a coordinate would turn negative; the one call,
`start.translate(0, -1)` on the range of a fragment, is made right after its `#`, so the
clamp of `Int.toNat` is never reached. -/
def Position.translate (p : Position) (lineDelta characterDelta : Int) : Position :=
  ⟨(p.line + lineDelta).toNat, (p.character + characterDelta).toNat⟩

/-- A `vscode.Range`. -/
structure Range where
  start : Position
  stop : Position
deriving DecidableEq, Repr

/-- The source of a link: its full text, the text of its path, and two ranges in the document. -/
structure MdLinkSource where
  text : String
  pathText : String
  hrefRange : Range
  fragmentRange : Option Range
deriving DecidableEq, Repr

/-- `LinkHref`: an internal link carries the `Uri` it points to and its fragment. -/
inductive LinkHref where
  | internal (path : Uri) (fragment : String)
  | reference (ref : String)
  | external
deriving DecidableEq, Repr

structure MdLink where
  source : MdLinkSource
  href : LinkHref
deriving DecidableEq, Repr

/-- The path of an internal link, the `(link.href as InternalHref).path` of the source. -/
def MdLink.internalPath? (link : MdLink) : Option Uri :=
  match link.href with
  | .internal path _ => some path
  | _ => none

/-- A `SkinnyTextDocument`: its URI and its text. -/
structure SkinnyTextDocument where
  uri : Uri
  text : String
deriving DecidableEq, Repr

inductive DiagnosticLevel where
  | ignore
  | warning
  | error
deriving DecidableEq, Repr

/-- The two `vscode.DiagnosticSeverity` values the validators use. -/
inductive DiagnosticSeverity where
  | error
  | warning
deriving DecidableEq, Repr

/-- An option left unset in the configuration is `none`, the source's `undefined`. -/
def toSeverity : Option DiagnosticLevel → Option DiagnosticSeverity
  | some .error => some .error
  | some .warning => some .warning
  | some .ignore => none
  | none => none

structure DiagnosticOptions where
  enabled : Bool
  validateReferences : Option DiagnosticLevel
  validateFragmentLinks : Option DiagnosticLevel
  validateFileLinks : Option DiagnosticLevel
  validateMarkdownFileLinkFragments : Option DiagnosticLevel
  ignoreLinks : List String
deriving DecidableEq, Repr

/-- A `vscode.Diagnostic`.  `link` is `some` exactly for a `LinkDoesNotExistDiagnostic`, and
holds its `link` field. -/
structure Diagnostic where
  range : Range
  message : String
  severity : DiagnosticSeverity
  link : Option String
deriving DecidableEq, Repr

end MarkdownDiagnostics
