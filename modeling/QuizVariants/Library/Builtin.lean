import QuizVariants.Library.Choice
import QuizVariants.Library.Format
import QuizVariants.Library.Numeric

/-! The functions that every expression may call. -/

namespace QuizVariants.Library

inductive Builtin where
  | randnum
  | pickone
  | pick
  | abs
  | ceil
  | floor
  | round
  | max
  | min
  | fraction
  | sqrt
  | commas
  | displayFraction
  | inlineFraction
  | ifelse
  | signsymbol
  | negativeSign
  deriving Repr, DecidableEq

namespace Builtin

def all : List Builtin :=
  [.randnum, .pickone, .pick, .abs, .ceil, .floor, .round, .max, .min, .fraction, .sqrt, .commas,
    .displayFraction, .inlineFraction, .ifelse, .signsymbol, .negativeSign]

def name : Builtin → String
  | .randnum => "randnum"
  | .pickone => "pickone"
  | .pick => "pick"
  | .abs => "abs"
  | .ceil => "ceil"
  | .floor => "floor"
  | .round => "round"
  | .max => "max"
  | .min => "min"
  | .fraction => "fraction"
  | .sqrt => "sqrt"
  | .commas => "commas"
  | .displayFraction => "dfraction"
  | .inlineFraction => "line_fraction"
  | .ifelse => "ifelse"
  | .signsymbol => "signsymbol"
  | .negativeSign => "signsymbol_neg"

def ofName? (name : String) : Option Builtin :=
  all.find? (fun builtin => builtin.name == name)

def call (builtin : Builtin) (args : Arguments) : Evaluation Value :=
  match builtin with
  | .randnum => Library.randnum args
  | .pickone => Library.pickone args
  | .pick => Library.pick args
  | .abs => .ofExcept (Library.abs args)
  | .ceil => .ofExcept (Library.ceil args)
  | .floor => .ofExcept (Library.floor args)
  | .round => .ofExcept (Library.round args)
  | .max => .ofExcept (Library.max args)
  | .min => .ofExcept (Library.min args)
  | .fraction => .ofExcept (Library.fraction args)
  | .sqrt => .ofExcept (Library.sqrt args)
  | .commas => .ofExcept (Library.commas args)
  | .displayFraction => .ofExcept (writeFraction .display args)
  | .inlineFraction => .ofExcept (writeFraction .inline args)
  | .ifelse => .ofExcept (Library.ifelse args)
  | .signsymbol => .ofExcept (Library.signsymbol args)
  | .negativeSign => .ofExcept (Library.negativeSign args)

end Builtin

end QuizVariants.Library
