import RequestUri.Command.Outcome

/-! The command line. -/

open RequestUri

def readInput : IO (Option ByteArray) := do
  let stdin ← IO.getStdin
  if ← stdin.isTty then return none else return some (← stdin.readBinToEnd)

def main (args : List String) : IO UInt32 := do
  let stdin ← match Command.ofArguments? args with
    | some (.write none ..) => readInput
    | some (.check none) => readInput
    | _ => pure none
  let outcome := Outcome.ofArguments args stdin
  (← IO.getStdout).putStr outcome.out
  (← IO.getStderr).putStr outcome.err
  return outcome.code
