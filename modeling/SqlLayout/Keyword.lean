import SqlLayout.Error
import SqlLayout.Text.CaseMap
import SqlLayout.Text.Word
import SqlLayout.Token.Basic

/-!
# Dialects and their keywords
-/

namespace SqlLayout

/-!
# Dialects of SQL
-/

inductive Dialect where
  | generic
  | postgresql
  | mysql
deriving DecidableEq, Repr

namespace Dialect

def label : Dialect -> String
  | generic => "generic"
  | postgresql => "postgresql"
  | mysql => "mysql"

/-- The names a dialect goes by; the empty name stands for the generic one. -/
def names : List (String × Dialect) :=
  [("generic", generic), ("ansi", generic), ("", generic),
   ("postgresql", postgresql), ("postgres", postgresql), ("mysql", mysql)]

/-- Reads a name, whatever its ASCII case and the blanks around it. -/
def ofName (name : Text) : Except Error Dialect :=
  match names.lookup (String.ofList name.trim.asciiLower) with
  | some dialect => .ok dialect
  | none => .error (.unknownDialect name)

end Dialect

/-!
# Dictionaries of words

A dictionary lists words in upper case under their initial letter and their
category.
-/

abbrev Dictionary := List (Char × List (Category × List String))

namespace Dictionary

def find? (d : Dictionary) (word : Text) : Option Category :=
  match word with
  | [] => none
  | initial :: _ =>
      match d.lookup initial with
      | none => none
      | some groups =>
          (groups.find? fun group => group.2.elem (String.ofList word)).map Prod.fst

/-!
# The built-in dictionaries
-/

def common : Dictionary :=
  [('A', [(.ddl, ["ALTER"]),
     (.order, ["ASC"]),
     (.keyword, ["AND", "AS"])]),
   ('B', [(.keyword, ["BY"])]),
   ('C', [(.ddl, ["CREATE"]),
     (.keyword, ["CASE"])]),
   ('D', [(.dml, ["DELETE"]),
     (.ddl, ["DROP"]),
     (.order, ["DESC"]),
     (.keyword, ["DISTINCT"])]),
   ('E', [(.keyword, ["ELSE", "END"])]),
   ('F', [(.keyword, ["FOR", "FROM", "FULL"])]),
   ('G', [(.keyword, ["GROUP"])]),
   ('I', [(.dml, ["INSERT"]),
     (.keyword, ["IF", "IN", "INNER"])]),
   ('J', [(.keyword, ["JOIN"])]),
   ('L', [(.keyword, ["LEFT", "LIKE", "LOOP"])]),
   ('M', [(.dml, ["MERGE"]),
     (.keyword, ["MAX", "MIN"])]),
   ('O', [(.keyword, ["ON", "OR", "ORDER", "OUTER"])]),
   ('R', [(.dml, ["REPLACE"])]),
   ('S', [(.dml, ["SELECT"]),
     (.keyword, ["SET", "STRAIGHT_JOIN"])]),
   ('T', [(.ddl, ["TRUNCATE"]),
     (.keyword, ["THEN"])]),
   ('U', [(.dml, ["UPDATE", "UPSERT"])]),
   ('W', [(.cte, ["WITH"]),
     (.keyword, ["WHEN", "WHERE", "WHILE"])])]

/-- The general vocabulary, with the names of data types as built-in names. -/
def general : Dictionary :=
  [('A', [(.keyword, ["ABORT", "ABSOLUTE", "ACCESS", "ACTION", "ADD", "ADMIN", "AFTER",
       "AGGREGATE", "ALL", "ALWAYS", "ANALYSE", "ANALYZE", "ANY", "ARRAY", "ASENSITIVE",
       "ASSERTION", "ASSIGNMENT", "ASYMMETRIC", "AT", "ATOMIC", "AUTHORIZATION", "AUTO_INCREMENT",
       "AVG"])]),
   ('B', [(.keyword, ["BACKWARD", "BEFORE", "BEGIN", "BETWEEN", "BOTH", "BREADTH"]),
     (.builtin, ["BIGINT", "BINARY", "BIT", "BLOB", "BOOL", "BOOLEAN", "BYTEA"])]),
   ('C', [(.keyword, ["CACHE", "CALL", "CALLED", "CARDINALITY", "CASCADE", "CASCADED", "CAST",
       "CATALOG", "CHAIN", "CHARACTERISTICS", "CHECK", "CHECKPOINT", "CLASS", "CLOSE", "CLUSTER",
       "COALESCE", "COLLATE", "COLLATION", "COLUMN", "COLUMNS", "COMMENT", "COMMIT", "COMMITTED",
       "CONCURRENTLY", "CONDITION", "CONNECT", "CONNECTION", "CONSTRAINT", "CONSTRAINTS",
       "CONTINUE", "CONVERSION", "COPY", "COST", "COUNT", "CROSS", "CSV", "CUBE", "CURRENT",
       "CURRENT_DATE", "CURRENT_PATH", "CURRENT_ROLE", "CURRENT_TIME", "CURRENT_TIMESTAMP",
       "CURRENT_USER", "CURSOR", "CYCLE"]),
     (.builtin, ["CHAR", "CHARACTER"])]),
   ('D', [(.keyword, ["DATA", "DATABASE", "DAY", "DEALLOCATE", "DECLARE", "DEFAULT", "DEFAULTS",
       "DEFERRABLE", "DEFERRED", "DEFINER", "DELIMITER", "DELIMITERS", "DEPTH", "DESCRIBE",
       "DETERMINISTIC", "DIAGNOSTICS", "DICTIONARY", "DISABLE", "DISCONNECT", "DO", "DOMAIN"]),
     (.builtin, ["DATE", "DATETIME", "DEC", "DECIMAL"])]),
   ('E', [(.keyword, ["EACH", "ELSIF", "ENABLE", "ENCODING", "ENCRYPTED", "ENGINE", "ESCAPE",
       "EVERY", "EXCEPT", "EXCEPTION", "EXCLUDING", "EXCLUSIVE", "EXEC", "EXECUTE", "EXISTS",
       "EXIT", "EXPLAIN", "EXTERNAL", "EXTRACT"])]),
   ('F', [(.keyword, ["FALSE", "FETCH", "FILTER", "FINAL", "FIRST", "FOLLOWING", "FORCE",
       "FOREACH", "FOREIGN", "FORWARD", "FOUND", "FREEZE", "FUNCTION", "FUNCTIONS"]),
     (.builtin, ["FLOAT"])]),
   ('G', [(.keyword, ["GENERATED", "GET", "GLOBAL", "GO", "GOTO", "GRANT", "GRANTED",
     "GROUPING"])]),
   ('H', [(.keyword, ["HANDLER", "HAVING", "HOLD", "HOUR"])]),
   ('I', [(.keyword, ["IDENTITY", "IGNORE", "ILIKE", "IMMEDIATE", "IMMUTABLE", "IMPLICIT",
       "INCLUDING", "INCREMENT", "INDEX", "INDEXES", "INHERIT", "INHERITS", "INITIALLY", "INOUT",
       "INPUT", "INSENSITIVE", "INSTEAD", "INTERSECT", "INTO", "INVOKER", "IS", "ISNULL",
       "ISOLATION", "ITERATE"]),
     (.builtin, ["INT", "INT2", "INT4", "INT8", "INTEGER", "INTERVAL"])]),
   ('J', [(.builtin, ["JSON", "JSONB"])]),
   ('K', [(.keyword, ["KEY"])]),
   ('L', [(.keyword, ["LANGUAGE", "LARGE", "LAST", "LATERAL", "LEADING", "LEAVE", "LEVEL",
       "LIMIT", "LISTEN", "LOAD", "LOCAL", "LOCATION", "LOCK"]),
     (.builtin, ["LONG"])]),
   ('M', [(.keyword, ["MATCH", "MATCHED", "MATERIALIZED", "MAXVALUE", "MINUTE", "MINVALUE",
       "MODE", "MODIFIES", "MODIFY", "MONTH", "MOVE"]),
     (.builtin, ["MEDIUMINT"])]),
   ('N', [(.keyword, ["NAMES", "NATIONAL", "NATURAL", "NEW", "NEXT", "NO", "NOCREATEDB",
       "NOCREATEUSER", "NONE", "NOT", "NOTHING", "NOTIFY", "NOTNULL", "NOWAIT", "NULL", "NULLIF",
       "NULLS"]),
     (.builtin, ["NCHAR", "NUMBER", "NUMERIC", "NVARCHAR"])]),
   ('O', [(.keyword, ["OF", "OFF", "OFFSET", "OIDS", "OLD", "ONLY", "OPEN", "OPERATOR", "OPTION",
       "OPTIONS", "ORDINALITY", "OUT", "OUTPUT", "OVER", "OVERLAPS", "OVERLAY", "OVERRIDING",
       "OWNER"])]),
   ('P', [(.keyword, ["PARALLEL", "PARTIAL", "PARTITION", "PASSWORD", "PLACING", "POSITION",
       "PRECEDING", "PREPARE", "PRESERVE", "PRIMARY", "PRIOR", "PRIVILEGES", "PROCEDURAL",
       "PROCEDURE", "PUBLIC"])]),
   ('R', [(.keyword, ["RAISE", "RANGE", "READ", "READS", "RECHECK", "RECURSIVE", "REF",
       "REFERENCES", "REFERENCING", "REFRESH", "REINDEX", "RELATIVE", "RELEASE", "RENAME",
       "REPEATABLE", "RESET", "RESTART", "RESTRICT", "RESULT", "RETURN", "RETURNING", "RETURNS",
       "REVOKE", "RIGHT", "ROLE", "ROLLBACK", "ROLLUP", "ROUTINE", "ROW", "ROWS", "RULE"]),
     (.builtin, ["REAL"])]),
   ('S', [(.keyword, ["SAVEPOINT", "SCHEMA", "SCROLL", "SEARCH", "SECOND", "SECURITY", "SEQUENCE",
       "SERIALIZABLE", "SESSION", "SESSION_USER", "SETOF", "SETS", "SHARE", "SHOW", "SIMILAR",
       "SIMPLE", "SOME", "STABLE", "START", "STATEMENT", "STATISTICS", "STDIN", "STDOUT",
       "STORAGE", "STRICT", "SUBSTRING", "SUM", "SYMMETRIC", "SYSID", "SYSTEM", "SYSTEM_USER"]),
     (.builtin, ["SERIAL", "SERIAL8", "SIGNED", "SMALLINT"])]),
   ('T', [(.keyword, ["TABLE", "TABLES", "TABLESPACE", "TEMP", "TEMPLATE", "TEMPORARY", "TIES",
       "TO", "TRAILING", "TRANSACTION", "TREAT", "TRIGGER", "TRIM", "TRUE", "TRUSTED", "TYPE"]),
     (.builtin, ["TEXT", "TIME", "TIMESTAMP", "TINYINT"])]),
   ('U', [(.keyword, ["UNBOUNDED", "UNCOMMITTED", "UNDER", "UNION", "UNIQUE", "UNKNOWN",
       "UNLISTEN", "UNLOGGED", "UNNEST", "UNTIL", "USAGE", "USE", "USER", "USING"]),
     (.builtin, ["UNSIGNED", "UUID"])]),
   ('V', [(.keyword, ["VACUUM", "VALID", "VALIDATOR", "VALUE", "VALUES", "VARIADIC", "VERBOSE",
       "VERSION", "VIEW", "VIEWS", "VOLATILE"]),
     (.builtin, ["VARBINARY", "VARCHAR", "VARCHAR2", "VARYING"])]),
   ('W', [(.keyword, ["WINDOW", "WITHIN", "WITHOUT", "WORK", "WRITE"])]),
   ('Y', [(.keyword, ["YEAR"])]),
   ('Z', [(.keyword, ["ZONE"])])]

def oracle : Dictionary :=
  [('A', [(.keyword, ["ARCHIVE", "ARCHIVELOG"])]),
   ('B', [(.keyword, ["BACKUP", "BECOME", "BLOCK", "BODY"])]),
   ('C', [(.keyword, ["COMPILE", "CONTENTS", "CONTROLFILE"]),
     (.builtin, ["CLOB"])]),
   ('D', [(.keyword, ["DATAFILE", "DISMOUNT", "DUMP"])]),
   ('E', [(.keyword, ["EVENTS", "EXTENT"])]),
   ('F', [(.keyword, ["FREELIST", "FREELISTS"])]),
   ('I', [(.keyword, ["INITRANS"])]),
   ('L', [(.keyword, ["LAYER", "LOGFILE"])]),
   ('M', [(.keyword, ["MANAGE", "MAXTRANS", "MINEXTENTS", "MOUNT"])]),
   ('N', [(.keyword, ["NOARCHIVELOG", "NOCACHE", "NOCYCLE", "NOMAXVALUE", "NOMINVALUE", "NOORDER"]),
     (.builtin, ["NCLOB"])]),
   ('P', [(.keyword, ["PACKAGE", "PCTFREE", "PCTINCREASE", "PCTUSED", "PLAN", "PRIVATE",
     "PROFILE"])]),
   ('Q', [(.keyword, ["QUOTA"])]),
   ('R', [(.keyword, ["RECOVER", "RESETLOGS", "RESTRICTED", "REUSE", "ROLES"]),
     (.builtin, ["ROWID", "ROWNUM"])]),
   ('S', [(.keyword, ["SEGMENT", "SNAPSHOT", "SWITCH"]),
     (.builtin, ["SYSDATE", "SYS_REFCURSOR"])]),
   ('T', [(.keyword, ["TABLESPACES", "THREAD", "TRACING", "TRANSACTIONAL"])]),
   ('U', [(.keyword, ["UNLIMITED"])]),
   ('V', [(.builtin, ["VARCHAR2"])])]

def plpgsql : Dictionary :=
  [('B', [(.keyword, ["BIGSERIAL", "BOX", "BYTEA"])]),
   ('C', [(.keyword, ["CHARACTER", "CIDR", "CIRCLE", "CONFLICT"])]),
   ('I', [(.keyword, ["INDEXES", "INET", "INHERIT"])]),
   ('L', [(.keyword, ["LINE", "LSEG"])]),
   ('M', [(.keyword, ["MACADDR", "MONEY"])]),
   ('N', [(.keyword, ["NOTICE"])]),
   ('O', [(.keyword, ["ON_ERROR_STOP", "OVER"])]),
   ('P', [(.keyword, ["PARTITION", "PATH", "PERFORM", "PG_LSN", "PLPGSQL", "POINT", "POLYGON"])]),
   ('S', [(.keyword, ["SMALLSERIAL"])]),
   ('T', [(.keyword, ["TSQUERY", "TSVECTOR", "TXID_SNAPSHOT"])]),
   ('W', [(.keyword, ["WINDOW"])]),
   ('X', [(.keyword, ["XML"])])]

def mysql : Dictionary :=
  [('A', [(.keyword, ["ALGORITHM", "AUTO_INCREMENT"])]),
   ('C', [(.keyword, ["CHARSET"])]),
   ('D', [(.keyword, ["DUAL"])]),
   ('E', [(.builtin, ["ENUM"])]),
   ('F', [(.keyword, ["FULLTEXT"])]),
   ('L', [(.builtin, ["LONGTEXT"])]),
   ('M', [(.builtin, ["MEDIUMTEXT"])]),
   ('R', [(.keyword, ["REGEXP"])]),
   ('S', [(.keyword, ["SHOW", "SPATIAL", "STRAIGHT_JOIN"])]),
   ('T', [(.builtin, ["TINYTEXT"])]),
   ('Z', [(.keyword, ["ZEROFILL"])])]

end Dictionary

/-!
# The vocabulary of a dialect

A vocabulary classifies words: the first dictionary that knows the word decides,
then the words added by the caller, which are keywords; any other word is a
name.
-/

structure Vocabulary where
  dictionaries : List Dictionary
  added : List Text := []
deriving Repr

namespace Vocabulary

def ofDialect : Dialect -> Vocabulary
  | .generic => ⟨[.common, .general, .oracle, .plpgsql], []⟩
  | .postgresql => ⟨[.common, .general, .plpgsql], []⟩
  | .mysql => ⟨[.common, .general, .mysql], []⟩

/-- A word that may be added: a name character, then name characters, dollar
and number signs. -/
def isSingleWord : Text -> Bool
  | [] => false
  | c :: rest => Text.isNameChar c && rest.all fun c => Text.isNameChar c || c == '$' || c == '#'

/-- Adds words; the first one that is not a single word is refused. -/
def extend (v : Vocabulary) (words : List Text) : Except Error Vocabulary :=
  match words.find? fun word => !isSingleWord word with
  | some word => .error (.invalidKeyword word)
  | none => .ok { v with added := v.added ++ words.map Text.upper }

def classify (v : Vocabulary) (word : Text) : Category :=
  let upper := Text.upper word
  match v.dictionaries.findSome? (·.find? upper) with
  | some category => category
  | none => if v.added.elem upper then .keyword else .name

def knows (v : Vocabulary) (word : Text) : Bool :=
  v.classify word != .name

end Vocabulary

end SqlLayout
