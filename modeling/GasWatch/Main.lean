import GasWatch.Simulation

/-!
# Command line

Prints the simulated boot of a device in its standard configuration.
-/

/-- Boots once and exits with the code of the boot. -/
def main : IO UInt32 := do
  let transcript := GasWatch.Simulation.boot .standard
  for line in transcript.lines do
    IO.println line
  return transcript.exitCode
