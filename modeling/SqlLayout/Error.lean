import SqlLayout.Text.Quoted

/-!
# Errors

The causes for which a request is refused.  A fault is an edit of a tree that
names a place the tree does not have.
-/

namespace SqlLayout

inductive Fault where
  | notAGroup
  | outOfRange
deriving DecidableEq, Repr

inductive Error where
  | config (detail : Text)
  | unknownDialect (name : Text)
  | invalidKeyword (word : Text)
  | unknownEncoding (name : Text)
  | nestingTooDeep (limit : Nat)
  | fault (fault : Fault)
deriving DecidableEq, Repr

namespace Error

def message : Error -> Text
  | config detail => Text.of "Configuration error: " ++ detail
  | unknownDialect name => Text.of "Unknown SQL dialect: " ++ name
  | invalidKeyword word =>
      Text.of "Invalid keyword " ++ word.quoted ++ Text.of ": keywords must be a single word"
  | unknownEncoding name => Text.of "Unsupported encoding: " ++ name
  | nestingTooDeep limit =>
      Text.of "Token tree nested deeper than " ++ Text.ofNat limit ++ Text.of " levels"
  | fault .notAGroup => Text.of "The node is a token, not a group"
  | fault .outOfRange => Text.of "The group has no such children"

/-- Whether the error concerns the settings and not the input. -/
def isConfiguration : Error -> Bool
  | nestingTooDeep _ => false
  | fault _ => false
  | _ => true

end Error
end SqlLayout
