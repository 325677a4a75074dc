import QuizVariants.Batch
import QuizVariants.Report.Elapsed
import QuizVariants.Report.Palette

/-! Reports of batches.
A report shows the variants of a batch with the values behind them and what the batch cost, as
text for a terminal or as a JSON document.
-/

namespace QuizVariants.Report

open QuizVariants.Batch (Metrics Status)

def choiceLines (palette : Palette) : List String → List String
  | [] => []
  | correct :: others =>
    ("      " ++ palette.paint .green "✓" ++ " " ++ correct)
      :: others.map (fun choice => "      " ++ palette.dim "·" ++ " " ++ choice)

def answerLines (palette : Palette) (variant : Variant) : List String :=
  if variant.choices.isEmpty then
    ["      " ++ palette.dim "answer:" ++ " " ++ palette.paint .green variant.answer]
  else choiceLines palette variant.choices

def solutionLines (palette : Palette) (variant : Variant) : List String :=
  if variant.solution == "" then []
  else
    let title := if variant.solutionTitle == "" then "solution:" else variant.solutionTitle
    ["      " ++ palette.dim title ++ " " ++ variant.solution]

def valueLines (palette : Palette) (values : Table Value) : List String :=
  if values.isEmpty then []
  else
    let bindings := values.entries.map (fun entry => entry.1 ++ " = " ++ entry.2.text)
    ["      " ++ palette.dim "values:" ++ " "
      ++ palette.paint .blue (String.intercalate ", " bindings)]

/-- The lines of a variant at a place of its batch. -/
def variantLines (palette : Palette) (place : Nat) (variant : Variant) (values : Table Value)
    : List String :=
  ("  " ++ palette.paint .gray s!"[{place}]" ++ " " ++ palette.bold variant.statement)
    :: answerLines palette variant ++ solutionLines palette variant ++ valueLines palette values

def statusText (palette : Palette) : Status → String
  | .complete => palette.paint .green "✓ complete"
  | .exhausted => palette.paint .yellow "✗ attempt budget exhausted"

/-- A count in a colour. -/
def count (palette : Palette) (ink : Ink) (n : Nat) : String :=
  palette.paint ink (toString n)

/-- The line of what went missing. -/
def missingLines (palette : Palette) (metrics : Metrics) : List String :=
  if metrics.absentParameters = 0 ∧ metrics.unresolvedPlaceholders = 0 then []
  else
    ["  " ++ palette.dim "absent parameters:" ++ " "
      ++ count palette .yellow metrics.absentParameters ++ "  "
      ++ palette.dim "unresolved placeholders:" ++ " "
      ++ count palette .yellow metrics.unresolvedPlaceholders]

/-- The share of accepted attempts in percent. -/
def acceptanceText (metrics : Metrics) : String :=
  .ofList (Decimal.fixed 0 (metrics.acceptanceRate * 100.0) ++ ['%'])

def metricsLines (palette : Palette) (status : Status) (metrics : Metrics) (timing : Timing)
    : List String :=
  ["  " ++ statusText palette status
      ++ "  │  Accepted: " ++ count palette .green metrics.accepted
      ++ "  │  Attempts: " ++ count palette .blue metrics.attempts
      ++ "  │  Duplicates: " ++ count palette .yellow metrics.duplicatesRejected]
    ++ missingLines palette metrics
    ++ ["  Total: " ++ palette.paint .green timing.total.text
      ++ "  │  Compile: " ++ palette.dim timing.compile.text
      ++ "  │  Acceptance: " ++ palette.paint .cyan (acceptanceText metrics)]

def lines (palette : Palette) (definition : Definition) (batch : Batch) (timing : Timing)
    : List String :=
  let name := if definition.title == "" then definition.problemId else definition.title
  let tags := if definition.tags.isEmpty then []
    else ["   " ++ palette.dim (String.intercalate ", " definition.tags)]
  let note := if batch.isEmpty then [palette.dim "  No instances produced"] else []
  let variants := (batch.variants.zip batch.values).mapIdx (fun place entry =>
    variantLines palette place entry.1 entry.2)
  ["", palette.bold (palette.paint .cyan ("⚙  Problem: \"" ++ name ++ "\""))]
    ++ tags ++ ["", palette.paint .gray "━━━ Instances ━━━"] ++ note ++ variants.flatten
    ++ ["", palette.paint .gray "━━━ Generation ━━━"]
    ++ metricsLines palette batch.status batch.metrics timing ++ [""]

def text (palette : Palette) (definition : Definition) (batch : Batch) (timing : Timing)
    : String :=
  String.join ((lines palette definition batch timing).map (· ++ "\n"))

/-- The name of a status in JSON documents. -/
def statusName : Status → String
  | .complete => "complete"
  | .exhausted => "exhausted"

def metricsJson (metrics : Metrics) (timing : Timing) : Json :=
  .object
    [ ("total", timing.total.toJson),
      ("compile", timing.compile.toJson),
      ("attempts", .integer metrics.attempts),
      ("accepted", .integer metrics.accepted),
      ("duplicates_rejected", .integer metrics.duplicatesRejected),
      ("absent_parameters", .integer metrics.absentParameters),
      ("unresolved_placeholders", .integer metrics.unresolvedPlaceholders) ]

def json (batch : Batch) (timing : Timing) : Json :=
  .object
    [ ("instances", .array (batch.variants.map Variant.toJson)),
      ("values", .array (batch.values.map Value.environmentJson)),
      ("status", .string (statusName batch.status)),
      ("metrics", metricsJson batch.metrics timing) ]

end QuizVariants.Report
