import QuizVariants.CommandLine.Run

/-! The program. -/

open QuizVariants
open QuizVariants.CommandLine

/-- Reads all bytes of a stream. -/
partial def readAll (stream : IO.FS.Stream) (read : ByteArray) : IO ByteArray := do
  let block ← stream.read 65536
  if block.isEmpty then return read else readAll stream (read ++ block)

/-- Why an input cannot be read. -/
def reasonOf : IO.Error → String
  | .noFileOrDirectory .. => "No such file or directory (os error 2)"
  | .permissionDenied .. => "Permission denied (os error 13)"
  | .inappropriateType .. => "Is a directory (os error 21)"
  | error => toString error

def readInput (name : Option String) : IO Input := do
  try
    let bytes ←
      match name with
      | some path => IO.FS.readBinFile path
      | none => readAll (← IO.getStdin) ByteArray.empty
    return .ok (bytes.toList.map UInt8.toNat)
  catch error => return .error (reasonOf error)

def printWarning (warning : Warning) : IO Unit :=
  let details := warning.details.map (fun detail => s!" {detail.1}={detail.2}")
  IO.eprintln (" WARN " ++ warning.message ++ String.join details)

/-- Writes what a run leaves behind and gives its exit status. -/
def finishRun (outcome : Outcome) : IO UInt32 := do
  IO.print outcome.output
  IO.eprint outcome.errors
  return outcome.exitStatus.toUInt32

/-- Fills and shows the batch that settings ask for. -/
def runSettings (settings : Settings) : IO UInt32 := do
  let seed ← IO.rand 0 0x3FFFFFFFFFFFFFFF
  let (context, draws) := (contextOf settings).run (Draws.ofSeed seed)
  match context with
  | .error failure => finishRun failure.outcome
  | .ok context =>
    let input ← readInput settings.input
    let start ← IO.monoNanosNow
    match (fillBatch settings context input).run draws with
    | (.error failure, _) => finishRun failure.outcome
    | (.ok result, _) =>
      result.warnings.forM printWarning
      let stop ← IO.monoNanosNow
      let terminal ← (← IO.getStdout).isTty
      finishRun (outcomeOf settings terminal result
        { total := Elapsed.ofNanoseconds (stop - start) })

def main (args : List String) : IO UInt32 := do
  match parse? args with
  | none => finishRun Failure.badArguments.outcome
  | some .version => finishRun ⟨0, versionText, ""⟩
  | some (.run settings) => runSettings settings
