import SqlLayout.Layout.Cleanup
import SqlLayout.Layout.LeafFilter
import SqlLayout.Layout.Output
import SqlLayout.Layout.Margin
import SqlLayout.Layout.Options
import SqlLayout.Layout.River
import SqlLayout.Splitting

/-!
# Formatting

A text is split into statements.  On each one the filters for tokens run first,
then it is grouped if some other filter needs that, then the filters for
statements run.  The texts are wrapped for a host language if asked, joined, and
their lines are stripped.
-/

namespace SqlLayout

/-- A filter for statements; some remember what they have seen. -/
inductive StatementFilter where
  | spaceOperators
  | stripComments
  | stripBlanks
  | indent (indenter : Indenter)
  | align (river : River)
  | breakLines (margin : Margin)
deriving DecidableEq, Repr

namespace StatementFilter

def run : StatementFilter -> Statement -> Statement × StatementFilter
  | spaceOperators, s => (s.spaceOperators, spaceOperators)
  | stripComments, s => (s.stripComments, stripComments)
  | stripBlanks, s => (s.stripBlanks, stripBlanks)
  | indent i, s =>
      let (s, i) := s.indent i
      (s, indent i)
  | align r, s =>
      let (s, r) := s.align r
      (s, align r)
  | breakLines m, s =>
      let (s, m) := s.breakLines m
      (s, breakLines m)

def runAll : List StatementFilter -> Statement -> Statement × List StatementFilter
  | [], s => (s, [])
  | filter :: rest, s =>
      let (s, filter) := filter.run s
      let (s, rest) := runAll rest s
      (s, filter :: rest)

def runEach : StatementFilter -> List Statement -> List Statement
  | _, [] => []
  | filter, s :: rest =>
      let (s, filter) := filter.run s
      s :: runEach filter rest

end StatementFilter

namespace LayoutOptions

def leafFilters (o : LayoutOptions) : List LeafFilter :=
  (o.keywordCase.map LeafFilter.keywordCase).toList
    ++ (o.identifierCase.map LeafFilter.identifierCase).toList
    ++ (o.truncateStrings.map fun width => LeafFilter.truncate width o.truncateMarker).toList

def statementFilters (o : LayoutOptions) : List StatementFilter :=
  (if o.spaceOperators then [StatementFilter.spaceOperators] else [])
    ++ (if o.stripComments then [StatementFilter.stripComments] else [])
    ++ (if o.stripWhitespace then [StatementFilter.stripBlanks] else [])
    ++ (if o.reindent then
          [StatementFilter.indent
            { width := o.indentWidth, fill := o.indentChar, wrapAfter := o.wrapAfter }]
        else [])
    ++ (if o.aligned then [StatementFilter.align { fill := o.indentChar }] else [])
    ++ (o.rightMargin.map fun width => StatementFilter.breakLines { width := width }).toList

end LayoutOptions

/-- What a run of the formatter carries from one statement to the next. -/
structure FormatState where
  filters : List StatementFilter
  wrapper : Option HostWrapper

structure Formatter where
  options : LayoutOptions
  config : LexerConfig

namespace Formatter

def ofOptions (options : LayoutOptions) : Except Error Formatter := do
  let options ← options.validate
  let config ← options.lexer.check
  return ⟨options, config⟩

def prepare (f : Formatter) (s : Statement) : Except Error Statement :=
  let s := s.filterLeaves f.options.leafFilters
  if f.options.needsGrouping then s.group f.options.maxDepth else .ok s

/-- The text of a statement after all filters, wrapped if asked. -/
def write (state : FormatState) (s : Statement) : Text × FormatState :=
  let (s, filters) := StatementFilter.runAll state.filters s
  match state.wrapper with
  | none => (s.text, { state with filters := filters })
  | some wrapper =>
      let (text, wrapper) := wrapper.wrap s
      (text, { filters := filters, wrapper := some wrapper })

def writeStatements (f : Formatter) : FormatState -> List Statement -> Except Error Text
  | _, [] => .ok []
  | state, s :: rest => do
      let s ← f.prepare s
      let (text, state) := write state s
      return text ++ (← writeStatements f state rest)

/-- Formats a text; it fails only if the text is nested too deeply. -/
def format (f : Formatter) (sql : Text) : Except Error Text := do
  let start : FormatState :=
    { filters := f.options.statementFilters,
      wrapper := HostWrapper.ofFormat? f.options.outputFormat }
  return serialize (← f.writeStatements start (readStatements f.config sql))

end Formatter

def format (sql : Text) (options : LayoutOptions := {}) : Except Error Text := do
  (← Formatter.ofOptions options).format sql

end SqlLayout
