import SqlLayout.Keyword
import SqlLayout.Lexer.Rule

/-!
# The rules of the dialects

The rules of a dialect in the order in which they are tried: hints before
comments, keywords of several words before single words, names told by their
neighbours before other words.
-/

namespace SqlLayout
namespace Rule

open Regex

def plain (regex : Regex) (category : Category) : Rule :=
  { regex := regex, action := .emit category }

def guarded (regex : Regex) (category : Category) (guard : Surroundings -> Bool) : Rule :=
  { regex := regex, action := .emit category, guard := guard }

/-!
# Comments
-/

/-- From an opening to the end of the line, which belongs to the comment. -/
def lineFrom (opening : Regex) : Regex :=
  sequence
    [opening, lazyStar (chars (.noneOf ['\n'])),
     oneOf [text "\r\n", text "\r", text "\n", textEnd]]

def blockFrom (opening : String) : Regex :=
  sequence [text opening, lazyStar (chars .any), text "*/"]

def comments (openings : List String) : List Rule :=
  [plain (lineFrom (oneOfTexts openings ++ text "+")) .lineHint,
   plain (blockFrom "/*+") .blockHint,
   plain (lineFrom (oneOfTexts openings)) .lineComment,
   plain (blockFrom "/*") .blockComment]

/-!
# Marks, quoted names and placeholders
-/

def marks : List Rule :=
  [plain gap .whitespace,
   plain (text ":=") .assignment,
   plain (text "::") .punctuation,
   plain (text "*") .wildcard]

/-- A text in quotes in which a doubled quote stands for one. -/
def doubling (quote : Char) : Regex :=
  sequence
    [char quote, star (oneOf [char quote ++ char quote, chars (.noneOf [quote])]), char quote]

def quotedNames : List Rule :=
  [plain (doubling '\x60') .name, plain (doubling '\xb4') .name]

def dollarQuotes : List Rule :=
  [guarded
    (sequence
      [char '$',
       opt (chars (.either (.oneOf ['_']) .nameStart) ++ star (chars .word)),
       char '$'])
    .builtin Surroundings.notAfterName]

def placeholders : List Rule :=
  [plain (text "?") .placeholder,
   plain
    (sequence [char '%', opt (sequence [char '(', plus (chars .word), char ')']), char 's'])
    .placeholder,
   guarded (chars (.oneOf ['$', ':', '?']) ++ plus (chars .word)) .placeholder
    Surroundings.notAfterName,
   plain (char '\\' ++ plus (chars .word)) .command,
   plain (oneOfTexts ["CASE", "IN", "VALUES", "USING", "FROM", "AS"] ++ wordBoundary) .keyword]

def specialNames : List Rule :=
  [plain
    (sequence [oneOfTexts ["@", "##", "#"], chars .nameStart, plus (chars .word)])
    .name]

/-!
# Words, numbers and strings
-/

def nameWord : Regex := chars .nameStart ++ star (chars .word)

def minus : Regex := opt (char '-')

def digits : Regex := plus (chars .digit)

/-- A text in quotes; a doubled quote and a quote or backslash after a backslash
belong to it. -/
def escaping (quote : Char) : Regex :=
  sequence
    [char quote,
     star
      (oneOf
        [char quote ++ char quote, text "\\\\", char '\\' ++ char quote,
         chars (.noneOf [quote])]),
     char quote]

def hexDigit : CharSet :=
  .either .digit
    (.either (.letter 'a')
      (.either (.letter 'b')
        (.either (.letter 'c') (.either (.letter 'd') (.either (.letter 'e') (.letter 'f'))))))

def leading (words : List String) : Regex :=
  oneOf (words.map fun word => text word ++ gap)

def joinPhrase : Regex :=
  sequence
    [opt
      (alt
        (opt (leading ["LEFT", "RIGHT", "FULL"]) ++ opt (leading ["INNER", "OUTER", "STRAIGHT"]))
        (opt (leading ["CROSS", "NATURAL"]))),
     text "JOIN", wordBoundary]

def endPhrase : Regex :=
  sequence
    [text "END", opt (oneOf (["IF", "LOOP", "WHILE", "FOR"].map fun word => gap ++ text word)),
     wordBoundary]

def phrase (words : List String) : Regex :=
  spaced words ++ wordBoundary

def numbers : List Rule :=
  [guarded (sequence [minus, text "0x", plus (chars hexDigit)]) .hexadecimal
    Surroundings.numberStandsAlone,
   guarded
    (sequence [minus, digits, opt (char '.' ++ digits), char 'e', minus, digits])
    .float Surroundings.numberStandsAlone,
   guarded
    (minus ++ alt (sequence [digits, char '.', star (chars .digit)]) (char '.' ++ digits))
    .float Surroundings.numberStandsAlone,
   guarded (minus ++ digits) .integer Surroundings.numberStandsAlone]

def strings : List Rule :=
  [plain (escaping '\'') .singleQuoted,
   plain (escaping '"') .doubleQuoted,
   guarded (sequence [char '[', plus (chars (.noneOf [']', '['])), char ']']) .name
    Surroundings.notIndexing]

def phrases : List Rule :=
  [plain joinPhrase .keyword,
   plain endPhrase .keyword,
   plain (phrase ["NOT", "NULL"]) .keyword,
   plain (sequence [text "NULLS", gap, oneOfTexts ["FIRST", "LAST"], wordBoundary]) .keyword,
   plain (phrase ["UNION", "ALL"]) .keyword,
   plain
    (sequence [text "CREATE", opt (gap ++ spaced ["OR", "REPLACE"]), wordBoundary])
    .ddl,
   plain (phrase ["DOUBLE", "PRECISION"]) .builtin,
   plain (phrase ["GROUP", "BY"]) .keyword,
   plain (phrase ["ORDER", "BY"]) .keyword,
   plain (phrase ["HANDLER", "FOR"]) .keyword,
   plain
    (sequence
      [spaced ["LATERAL", "VIEW"], gap,
       oneOfTexts ["EXPLODE", "INLINE", "PARSE_URL_TUPLE", "POSEXPLODE", "STACK"], wordBoundary])
    .keyword,
   plain
    (sequence
      [spaced ["AT", "TIME", "ZONE"], gap, char '\'', plus (chars (.noneOf ['\''])), char '\''])
    .zoneCast,
   plain
    (sequence
      [opt (text "NOT" ++ gap), oneOfTexts ["LIKE", "ILIKE", "RLIKE", "REGEXP"], wordBoundary])
    .comparison]

def words : List Rule :=
  [guarded nameWord .name Surroundings.beforePeriod,
   guarded nameWord .name Surroundings.afterPeriod,
   guarded nameWord .name Surroundings.beforeParenthesis]
  ++ numbers ++ strings ++ phrases ++
  [{ regex := chars .word ++ star (chars (.either (.oneOf ['$', '#']) .word)), action := .lookUp },
   plain (chars (.oneOf [';', ':', '(', ')', '[', ']', ',', '.'])) .punctuation,
   plain (plus (chars (.oneOf ['<', '>', '=', '~', '!']))) .comparison,
   plain (plus (chars (.oneOf ['+', '/', '@', '#', '%', '^', '&', '|', '-']))) .operator]

def ofDialect : Dialect -> List Rule
  | .generic =>
      comments ["--", "# "] ++ marks ++ quotedNames ++ dollarQuotes ++ placeholders
        ++ specialNames ++ words
  | .postgresql => comments ["--"] ++ marks ++ dollarQuotes ++ placeholders ++ words
  | .mysql =>
      comments ["--", "#"] ++ marks ++ quotedNames ++ placeholders ++ specialNames ++ words

end Rule
end SqlLayout
