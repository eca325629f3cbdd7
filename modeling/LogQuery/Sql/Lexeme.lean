import LogQuery.Sql.Token

/-!
# Lexemes

The pieces of a text are its tokens and the blanks and comments between them. The
grammar sees the tokens only; data in the text keeps the blanks of its values.
-/

namespace LogQuery.Sql

/-- A piece of a text. A line end of any kind is one newline, and a blank that is
no tab is a space. -/
inductive Lexeme
  | token (t : Token)
  | blank (text : String)
deriving DecidableEq, Repr

namespace InlineData

/-- One more token, with the values it gives. -/
def cons (values : List (Option String)) (d : InlineData) : InlineData :=
  ⟨values ++ d.values, d.length + 1⟩

/-- Data at the front of some lexemes: a tab or a line end ends a value, `\N` is a
missing one, and `\.` ends the data. A value that nothing ends is dropped. -/
def ofLexemes (value : String) (afterBackslash : Bool) : List Lexeme → InlineData
  | [] => {}
  | .blank s :: ls =>
    if afterBackslash then ofLexemes value true ls
    else if s == "\t" || s == "\n" then
      let d := ofLexemes "" false ls
      { d with values := some value :: d.values }
    else ofLexemes (value ++ s) false ls
  | .token t :: ls =>
    if afterBackslash then
      match t with
      | .sign "." => cons [] {}
      | .word "N" _ => cons [none] (ofLexemes value false ls)
      | _ => cons [] (ofLexemes value false ls)
    else if t.isSign "\\" then cons [] (ofLexemes value true ls)
    else cons [] (ofLexemes (value ++ t.source) false ls)

end InlineData

namespace Lexeme

/-- The tokens of a text. Only after the word STDIN may data follow a semicolon. -/
def tokens (mayHoldData : Bool) : List Lexeme → List Token
  | [] => []
  | .blank _ :: ls => tokens mayHoldData ls
  | .token t :: ls =>
    if mayHoldData && t.isSemicolon then
      .semicolon (.ofLexemes "" false ls) :: tokens mayHoldData ls
    else t :: tokens (mayHoldData || t.isKeyword "STDIN") ls

end Lexeme

end LogQuery.Sql
