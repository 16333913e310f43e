/-
Normalized text: a script as one flat stream of statements. Line ends have
become terminators, except within parentheses and brackets, where they are
blanks; comments are gone; and of the blanks only single spaces are left,
between words that would run together without them. Quoted literals stand
as they were written.

Normalizing reads the source once, character by character, with a `Layout`
that knows the line, the delimiters that are open and whether a comment or a
literal is being read. Each character gives off what it contributes to the
stream. A source whose literals or delimiters do not close is refused.
-/
import RoutineScript.Source.Quote
import RoutineScript.Fault

namespace RoutineScript

-- =================================================================== layout

/-- What is being read. -/
inductive Reading where
  | code
  | comment
  | literal (quote : Char) (escaped : Bool)
  deriving DecidableEq, Repr

/-- What has to be known of the source before a character. -/
structure Layout where
  /-- The line of the character, counted from one. -/
  line : Nat
  /-- The open delimiters, innermost first, with the lines they stand on. -/
  opened : Span
  /-- Blanks have been read since the last character that was given off. -/
  gap : Bool
  /-- The last character that was given off belongs to a word. -/
  afterWord : Bool
  reading : Reading
  deriving DecidableEq, Repr

namespace Layout

/-- Before the first character. -/
def start : Layout :=
  { line := 1, opened := [], gap := false, afterWord := false, reading := .code }

/-- Whether line ends are blanks, because a parenthesis or a bracket is open. -/
def joinsLines (layout : Layout) : Bool :=
  match layout.opened with
  | [] => false
  | innermost :: _ => innermost.val == '(' || innermost.val == '['

/-- Opens or closes the delimiter that a character is, if it is one. -/
def delimit (layout : Layout) (c : Char) : Except Fault Span :=
  if (Span.closerOf? c).isSome then
    .ok (⟨layout.line, c⟩ :: layout.opened)
  else if c == ')' || c == ']' || c == '}' then
    match layout.opened with
    | [] => .error (.onLine (.unmatchedClose c) layout.line)
    | opener :: rest =>
      if Span.closerOf? opener.val == some c then .ok rest
      else .error (.onLine (.mismatchedClose c opener.val opener.line) layout.line)
  else
    .ok layout.opened

/-- Gives off a character of the code, after a space where it is needed to
keep two words apart. -/
def give (layout : Layout) (c : Char) : Except Fault (Span × Layout) := do
  let opened ← layout.delimit c
  let space : Span :=
    if layout.gap && Text.isWordChar c && layout.afterWord then [⟨layout.line, ' '⟩] else []
  return (space ++ [⟨layout.line, c⟩],
    { layout with opened, gap := false, afterWord := Text.isWordChar c })

/-- Reads one character of the code. -/
def stepCode (layout : Layout) (c : Char) : Except Fault (Span × Layout) :=
  let layout := { layout with reading := .code }
  if c == '\n' then
    if layout.joinsLines then
      .ok ([], { layout with line := layout.line + 1, gap := true })
    else
      .ok ([⟨layout.line, ';'⟩],
        { layout with line := layout.line + 1, gap := false, afterWord := false })
  else if c == '\r' then .ok ([], layout)
  else if c == ' ' || c == '\t' then .ok ([], { layout with gap := true })
  else if c == '#' then .ok ([], { layout with reading := .comment })
  else if Quote.isMark c then
    .ok ([⟨layout.line, c⟩],
      { layout with gap := false, afterWord := false, reading := .literal c false })
  else layout.give c

/-- Reads one character of a quoted literal, which may not leave its line. -/
def stepLiteral (layout : Layout) (quote : Char) (escaped : Bool) (c : Char) :
    Except Fault (Span × Layout) :=
  if c == '\n' then .error (.onLine (.unterminatedQuote quote) layout.line)
  else
    let reading :=
      match (Quote.inside quote escaped).step c with
      | .outside => .code
      | .inside quote escaped => .literal quote escaped
    .ok ([⟨layout.line, c⟩], { layout with reading })

/-- Reads one character: what it gives off, and what is known after it. A
comment ends before the terminator or the line end behind it. -/
def step (layout : Layout) (c : Char) : Except Fault (Span × Layout) :=
  match layout.reading with
  | .code => layout.stepCode c
  | .comment => if c == ';' || c == '\n' then layout.stepCode c else .ok ([], layout)
  | .literal quote escaped => layout.stepLiteral quote escaped c

/-- Nothing may be open at the end. -/
def finish (layout : Layout) : Except Fault Unit :=
  match layout.reading with
  | .literal quote _ => .error (.onLine (.unterminatedQuote quote) layout.line)
  | .code | .comment =>
    match layout.opened with
    | [] => .ok ()
    | opener :: _ => .error (.onLine (.unclosed opener.val) opener.line)

/-- Reads the rest of a source. -/
def read (layout : Layout) : List Char → Except Fault Span
  | [] => do
    layout.finish
    return []
  | c :: source => do
    let (given, layout) ← layout.step c
    let rest ← layout.read source
    return given ++ rest

end Layout

/-- The stream of statements of a source. -/
def Span.normalize (source : String) : Except Fault Span :=
  Layout.start.read source.toList

end RoutineScript
