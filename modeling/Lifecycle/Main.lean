import Lifecycle.Demo
import Lifecycle.Document.Reader

/-!
The command line of the demonstration: it takes the name of a configuration file and prints the
records that reach a sink, one a line.
-/

open Lifecycle
open Lifecycle.Log

namespace Lifecycle.CommandLine

/-- A record as a line. -/
def line (delivery : Delivery) : String :=
  delivery.sink.describe ++ " [" ++ delivery.record.tag ++ "] ["
    ++ delivery.record.level.name ++ "] " ++ delivery.record.message

/-- The files that the demonstration may read: the one at a path, if it can be read. -/
def readFiles (path : String) : IO Files := do
  try
    let text ← IO.FS.readFile path
    pure ((Document.parse? text).toList.map fun d => (path, d))
  catch _ =>
    pure []

end Lifecycle.CommandLine

/-- Run the demonstration with the file that is named, or with the default one. -/
def main (args : List String) : IO UInt32 := do
  let path := Demo.configPath args.head?
  let files ← CommandLine.readFiles path
  match Demo.runWith files {} path with
  | none => return 1
  | some ending =>
      for delivery in ending.deliveries do
        IO.println (CommandLine.line delivery)
      for warning in ending.warnings do
        IO.eprintln warning
      match ending.result with
      | .ok code => return code.toUInt32
      | .error e =>
          IO.eprintln e.message
          return 1
