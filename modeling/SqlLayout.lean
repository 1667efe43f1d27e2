import SqlLayout.Main
import SqlLayout.Proofs.Grouping.Repeat
import SqlLayout.Proofs.Parsing
import SqlLayout.Tree.Dump
import SqlLayout.Tree.Names
import SqlLayout.Proofs.Tree.Relist
import SqlLayout.Proofs.Tree.Histories
import SqlLayout.Proofs.Layout.Blanks
import SqlLayout.Proofs.Layout.Handlers
import SqlLayout.Proofs.Layout.Filters
import SqlLayout.Proofs.Grouping.Comments
import SqlLayout.Proofs.Layout.Stripping
import SqlLayout.Proofs.Lexer.Marks
import SqlLayout.Proofs.Lexer.Rereading
import SqlLayout.Proofs.Layout.Comments
import SqlLayout.Proofs.Layout.LineEnds
import SqlLayout.Proofs.Layout.Strings
import SqlLayout.Proofs.Regex.Derivatives
import SqlLayout.Proofs.Lexer.Squeezing
import SqlLayout.Proofs.Lexer.LineComments
import SqlLayout.Proofs.Lexer.Agreement
import SqlLayout.Proofs.Lexer.Following
import SqlLayout.Proofs.Splitting.Routines
import SqlLayout.Proofs.Splitting.Protection
import SqlLayout.Proofs.Splitting.CaseExpressions
import SqlLayout.Proofs.Splitting.Loops
import SqlLayout.Proofs.Splitting.Boundaries
import SqlLayout.Proofs.Grouping.NestedBlocks
import SqlLayout.Proofs.Grouping.FlatStatements
import SqlLayout.Proofs.Grouping.Limits
import SqlLayout.Proofs.Splitting.Parts
import SqlLayout.Proofs.Lexer.LetterCase
import SqlLayout.Proofs.Lexer.AddedWords
import SqlLayout.Proofs.Layout.PythonStrings
import SqlLayout.Proofs.Grouping.BracketGroups
import SqlLayout.Proofs.Grouping.AliasScan
import SqlLayout.Proofs.Grouping.WhereBounds
import SqlLayout.Proofs.Grouping.Collecting
import SqlLayout.Proofs.Grouping.Housing
import SqlLayout.Proofs.Grouping.FirstChildren
import SqlLayout.Proofs.Layout.Spaces
import SqlLayout.Proofs.Layout.Separation
import SqlLayout.Proofs.Grouping.Sweeps
import SqlLayout.Proofs.Grouping.CommaRuns
import SqlLayout.Proofs.Grouping.RunParts
import SqlLayout.Proofs.Grouping.InnerRoses
import SqlLayout.Proofs.Grouping.RunHosts
import SqlLayout.Proofs.Grouping.RunLists
import SqlLayout.Proofs.Grouping.CommaLists
import SqlLayout.Proofs.Layout.OperatorSpaces
import SqlLayout.Proofs.Layout.MarginBounds
import SqlLayout.Proofs.Layout.MarginBreaks
import SqlLayout.Proofs.Layout.MarginBodies
import SqlLayout.Proofs.Layout.KeywordBreaks
import SqlLayout.Proofs.Layout.Truncation
import SqlLayout.Proofs.Grouping.LeadingKeyword
import SqlLayout.Proofs.Layout.ItemLines
import SqlLayout.Proofs.Grouping.ComparisonSides
import SqlLayout.Proofs.Grouping.LoneNames
import SqlLayout.Proofs.Grouping.QualifiedNames
import SqlLayout.Proofs.Grouping.WithClauses
import SqlLayout.Proofs.Tree.CaseArms
import SqlLayout.Proofs.Tree.Offsets
import SqlLayout.Proofs.Grouping.CallArguments
import SqlLayout.Proofs.Layout.LinePieces
import SqlLayout.Proofs.Layout.FinalText
import SqlLayout.Proofs.Layout.KeywordCase
import SqlLayout.Proofs.Layout.Counters
import SqlLayout.Proofs.Lexer.SingleWords
import SqlLayout.Proofs.Tree.Traversals
import SqlLayout.Proofs.Layout.WrapLimits
