import PageIndex.Text.Split

/-!
# Styled text

Text in pieces that each have a style. It is written in one of two ways: plainly, when the
styles leave no trace, or for a terminal, when every piece with a style stands between the
control sequence that turns the style on and the one that turns all styles off.
-/

namespace PageIndex

/-- The colours of the report. -/
inductive Colour where
  | red
  | green
  | yellow
  | blue
  | cyan
  | brightBlue
deriving DecidableEq, Repr

/-- How heavy a text is. -/
inductive Weight where
  | normal
  | bold
  | dim
deriving DecidableEq, Repr

/-- A style. -/
structure Style where
  weight : Weight
  colour : Option Colour
deriving DecidableEq, Repr

namespace Style

/-- The style of text without a style. -/
def plain : Style :=
  ⟨.normal, none⟩

/-- A colour alone. -/
def ofColour (c : Colour) : Style :=
  ⟨.normal, some c⟩

/-- Bold text in a colour. -/
def boldColour (c : Colour) : Style :=
  ⟨.bold, some c⟩

/-- The parameters of a weight. -/
def weightCodes : Weight → List String
  | .normal => []
  | .bold => ["1"]
  | .dim => ["2"]

/-- The parameter of a colour. -/
def colourCode : Colour → String
  | .red => "31"
  | .green => "32"
  | .yellow => "33"
  | .blue => "34"
  | .cyan => "36"
  | .brightBlue => "94"

/-- The parameters of a style, the weight first. -/
def codes (s : Style) : List String :=
  weightCodes s.weight ++ s.colour.toList.map colourCode

/-- The control sequence with the given parameters. -/
def sequence (codes : List String) : List Char :=
  '\x1b' :: '[' :: (Text.joinWith [';'] (codes.map String.toList) ++ ['m'])

/-- The control sequence that turns a style on. -/
def opening (s : Style) : List Char :=
  sequence s.codes

/-- The control sequence that turns all styles off. -/
def reset : List Char :=
  sequence ["0"]

end Style

/-- A piece of text in a style. -/
structure Span where
  style : Style
  text : String
deriving DecidableEq, Repr

namespace Span

/-- Text without a style. -/
def ofText (text : String) : Span :=
  ⟨.plain, text⟩

/-- A text in which the given style is turned on again wherever the text turns all styles
off. -/
def reopen (opening : List Char) : List Char → List Char
  | [] => []
  | '\x1b' :: '[' :: '0' :: 'm' :: cs => Style.reset ++ opening ++ reopen opening cs
  | c :: cs => c :: reopen opening cs

/-- The characters of a piece for a terminal. -/
def toTerminal (s : Span) : List Char :=
  if s.style = .plain then s.text.toList
  else s.style.opening ++ reopen s.style.opening s.text.toList ++ Style.reset

end Span

/-- The text of pieces without their styles. -/
def plainText (spans : List Span) : String :=
  String.ofList (spans.flatMap (·.text.toList))

@[simp]
theorem plainText_nil : plainText [] = "" :=
  rfl

@[simp]
theorem plainText_cons (s : Span) (spans : List Span) :
    plainText (s :: spans) = s.text ++ plainText spans := by
  simp [plainText]

@[simp]
theorem plainText_append (spans others : List Span) :
    plainText (spans ++ others) = plainText spans ++ plainText others := by
  simp [plainText]

/-- The text of pieces for a terminal. -/
def terminalText (spans : List Span) : String :=
  String.ofList (spans.flatMap Span.toTerminal)

/-- The text of pieces, with or without their styles. -/
def spansText (withStyles : Bool) (spans : List Span) : String :=
  if withStyles then terminalText spans else plainText spans

end PageIndex
