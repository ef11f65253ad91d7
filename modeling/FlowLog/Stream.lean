import FlowLog.Config
import FlowLog.Connection.Report
import FlowLog.Files
import FlowLog.Reconstruction.Engine
import FlowLog.Store

/-! The streaming program. A reader takes lines from a file or from standard input, puts those that
are events into a store and sends them on to the engine; when the input ends, the connections of
each focus are reported on a line of JSON, and then the indices of the store. -/

namespace FlowLog
namespace Stream

structure Pipeline where
  store : Store
  engine : Engine
  deriving DecidableEq

namespace Pipeline

def start (ports : ServicePorts) (focuses : List String) : Pipeline :=
  ⟨.new ports, .start true (focuses.map .new)⟩

def feed (p : Pipeline) (line : List UInt8) : Pipeline :=
  match p.store.ingestLine line with
  | (store, some e) => ⟨store, p.engine.deliver e⟩
  | (store, none) => ⟨store, p.engine⟩

/-- The pipeline at the end of the input, when the engine has met the closed channel. -/
def feedAll (p : Pipeline) (bytes : List UInt8) : Pipeline :=
  let p := (Lines.lines bytes).foldl feed p
  ⟨p.store, p.engine.disconnect.turns 2⟩

end Pipeline

def line (v : Json.Value) : String := v.sorted.compactText ++ "\n"

def connectionsLine (s : Reconstruction) : String :=
  line (.object
    [("focus", .string s.focus), ("connections", .array (s.snapshot.map Connection.summary))])

def indicesLine (x : Indices) : String := line (.object [("indices", x.toValue)])

/-- Only a reader that came to the end of its input has indices to report. -/
def report (shared : List Reconstruction) (store : Option Store) : String :=
  String.join (shared.map connectionsLine) ++
    match store with
    | some s => indicesLine s.indices
    | none => ""

def noFocus : String :=
  "no focus address given on the command line or in " ++ Config.path

def standardInput : String := "-"

def focuses (args : List String) (config : Config) : List String :=
  if args = [] then config.focusAddresses else args

/-- The output of the program on its arguments, the first of which names the input; or why it did
not start. -/
def run (files : Files) (args : List String) (stdin : List UInt8) : Except String String :=
  let config := Config.load (files.read? Config.path)
  let input := args.head?.getD standardInput
  let focuses := focuses args.tail config
  let start := Pipeline.start config.servicePorts focuses
  let finish (bytes : List UInt8) : String :=
    let p := start.feedAll bytes
    report p.engine.shared (some p.store)
  if focuses = [] then .error noFocus
  else if input = standardInput then .ok (finish stdin)
  else match files.find input with
    | .ok (.file bytes) => .ok (finish bytes)
    | .ok .directory => .ok (report start.engine.shared none)
    | .error e => .error e.message

end Stream
end FlowLog
