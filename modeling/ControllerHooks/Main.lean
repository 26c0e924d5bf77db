import ControllerHooks.CommandLine

/-!
# The program
-/

open ControllerHooks

def main (args : List String) : IO UInt32 := do
  let request := CommandLine.parse (← IO.getEnv "WHITEBOX_CONTROLLER") args
  let input ←
    if request.needsInput then do
      let bytes ← (← IO.getStdin).readToEnd
      pure bytes.toUTF8.toList
    else pure []
  let exit := request.answer input
  let stdout ← IO.getStdout
  stdout.write ⟨exit.output.toArray⟩
  stdout.flush
  return exit.code.toUInt32
