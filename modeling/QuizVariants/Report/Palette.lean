/-! Colours of reports. -/

namespace QuizVariants.Report

inductive Ink where
  | green
  | yellow
  | blue
  | cyan
  | gray
  deriving Repr, DecidableEq

def Ink.sequence : Ink → String
  | .green => "\x1b[32m"
  | .yellow => "\x1b[33m"
  | .blue => "\x1b[34m"
  | .cyan => "\x1b[36m"
  | .gray => "\x1b[90m"

/-- Whether a report has colours. -/
structure Palette where
  enabled : Bool
  deriving Repr, DecidableEq

namespace Palette

/-- A text between a sequence that changes the terminal and the one that resets it. -/
def wrap (palette : Palette) (sequence text : String) : String :=
  if palette.enabled then sequence ++ text ++ "\x1b[0m" else text

def paint (palette : Palette) (ink : Ink) (text : String) : String :=
  palette.wrap ink.sequence text

def bold (palette : Palette) (text : String) : String :=
  palette.wrap "\x1b[1m" text

def dim (palette : Palette) (text : String) : String :=
  palette.wrap "\x1b[2m" text

end Palette

end QuizVariants.Report
