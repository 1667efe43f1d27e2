import SqlLayout.Program

/-!
# Command line

Formats standard input to standard output.  An error is reported on standard
error and ends the program with exit code 1.
-/

namespace SqlLayout

def settingKeys : List String :=
  ["SQLTREE_DIALECT", "SQLTREE_KEYWORDS", "SQLTREE_MAX_DEPTH", "SQLTREE_KEYWORD_CASE",
   "SQLTREE_IDENTIFIER_CASE", "SQLTREE_REINDENT", "SQLTREE_REINDENT_ALIGNED",
   "SQLTREE_RIGHT_MARGIN", "SQLTREE_STRIP_COMMENTS", "SQLTREE_INDENT_WIDTH",
   "SQLTREE_OUTPUT_FORMAT"]

def readSettings : IO (List (String × Text)) := do
  let mut found := []
  for key in settingKeys do
    if let some value ← IO.getEnv key then
      found := (key, value.toList) :: found
  return found

end SqlLayout

def main : IO UInt32 := do
  let found ← SqlLayout.readSettings
  let input ← (← IO.getStdin).readBinToEnd
  let bytes := input.toList.map UInt8.toNat
  match SqlLayout.program (fun key => found.lookup key) bytes with
  | .ok text =>
      (← IO.getStdout).putStr (String.ofList text)
      return 0
  | .error error =>
      (← IO.getStderr).putStrLn (String.ofList error.message)
      return 1
