import FlowLog.Command.Run
import FlowLog.Stream

/-! The programs on real files. The paths that a command line names are looked up beforehand, the
run is a function of what was found, and the one file it may write is written afterwards. -/

namespace FlowLog

/-- A path as written from the root. -/
def Path.absolute (p : Path) : String := "/" ++ "/".intercalate p

/-- The path and those that the names lead to, one after the other. -/
def Path.along (p : Path) : List String → List Path
  | [] => [p]
  | name :: names => p :: (p.move name).along names

/-- Adds what a path leads to, as far as it can be read. -/
def Files.look (fs : Files) (p : Path) : IO Files := do
  try
    let bytes ← IO.FS.readBinFile p.absolute
    return { fs with contents := (p, bytes.toList) :: fs.contents }
  catch
    | .inappropriateType _ 21 _ => return { fs with directories := p :: fs.directories }
    | _ => return fs

/-- What the written paths lead to, with all that they come by. -/
def Files.gather (ss : List String) : IO Files := do
  let working := (Path.names (toString (← IO.currentDir))).foldl Path.move []
  let mut fs : Files := ⟨working, [], []⟩
  for s in ss do
    for p in (Path.origin working s).along (Path.names s) do
      fs ← fs.look p
  return fs

def Command.Task.paths : Command.Task → List String
  | .connections input .. | .detail input .. | .indices input _ | .rank input ..
  | .events input _ => [input]
  | .merge output inputs => output :: inputs
  | .toMicros _ | .fromMicros _ => []

def Command.usage : String :=
  "usage: [--verbose] [--config PATH] connections|detail|indices|rank|merge|events|time OPTIONS\n" ++
    "       stream [INPUT|-] [ADDRESS...]"

def analyse (args : List String) : IO UInt32 := do
  match Command.parse args with
  | .error .help =>
    IO.println Command.usage
    return 0
  | .error .usage =>
    IO.eprintln Command.usage
    return 2
  | .ok invocation =>
    let files ← Files.gather (invocation.config :: invocation.task.paths)
    let outcome := Command.run files args
    for w in outcome.warnings do
      IO.eprintln w
    if let some e := outcome.error then
      IO.eprintln ("Error: " ++ e)
    if let .merge output _ := invocation.task then
      if outcome.exit = 0 then
        IO.FS.writeBinFile output ⟨((outcome.files.read? output).getD []).toArray⟩
    IO.print outcome.stdout
    return outcome.exit.toUInt32

def stream (args : List String) : IO UInt32 := do
  let files ← Files.gather (Config.path :: args.take 1)
  let stdin ← (if args.head?.getD Stream.standardInput = Stream.standardInput then do
    (← IO.getStdin).readBinToEnd else return .empty)
  match Stream.run files args stdin.toList with
  | .error e =>
    IO.eprintln ("Error: " ++ e)
    return 1
  | .ok s =>
    IO.print s
    return 0

end FlowLog

def main (args : List String) : IO UInt32 :=
  match args with
  | "stream" :: rest => FlowLog.stream rest
  | args => FlowLog.analyse args
