import FlowLog.Command.Invocation
import FlowLog.Command.Listing
import FlowLog.Files
import FlowLog.Merge
import FlowLog.Store

/-! Running the analysis program on files. All inputs of a task are loaded before anything is
printed or written, so a task that fails leaves the files as they are. -/

namespace FlowLog
namespace Command

/-- What a run leaves behind. The exit code is 0, or 1 with an error when the task failed, or 2
when the command line was at fault. -/
structure Outcome where
  exit : Nat
  stdout : String
  warnings : List String
  error : Option String
  files : Files
  deriving DecidableEq, Repr

namespace Outcome

def printed (files : Files) (s : String) : Outcome := ⟨0, s, [], none, files⟩

def failed (files : Files) (message : String) : Outcome := ⟨1, "", [], some message, files⟩

/-- The outcome with warnings that came before. -/
def warned (ws : List String) (o : Outcome) : Outcome := { o with warnings := ws ++ o.warnings }

end Outcome

def warnings (s : Store) : List String :=
  if s.report.skipped = 0 then []
  else ["warning: " ++ Decimal.text s.report.skipped ++ " malformed record(s) skipped"]

/-- The store of a file; none when it cannot be read or is an array that is no JSON. -/
def openStore? (files : Files) (ports : ServicePorts) (input : String) : Option Store :=
  (files.read? input).bind fun bytes => (Store.new ports).loadBytes? bytes

/-- Goes on with the store of a file. -/
def withStore (files : Files) (ports : ServicePorts) (input : String) (next : Store → Outcome) :
    Outcome :=
  match openStore? files ports input with
  | none => .failed files ("failed to load events from " ++ input)
  | some s => (next s).warned (warnings s)

/-- Goes on with the stores of all files in order. -/
def withStores (files : Files) (ports : ServicePorts) :
    List String → (List Store → Outcome) → Outcome
  | [], next => next []
  | input :: inputs, next =>
    withStore files ports input fun s => withStores files ports inputs fun ss => next (s :: ss)

def pretty (v : Json.Value) : String := v.prettyText ++ "\n"

def showConnections (files : Files) (s : Store) (focus : String) (json : Bool) : Outcome :=
  let cs := s.reconstruct focus
  .printed files
    (if json then pretty (.array (cs.map Connection.summary)) else Listing.connections focus cs)

def showDetail (files : Files) (s : Store) (focus : String) (index : Nat) (json : Bool) :
    Outcome :=
  let cs := s.reconstruct focus
  match cs[index]? with
  | none =>
    .failed files ("no connection #" ++ Decimal.text index ++ " for " ++ focus ++ " (" ++
      Decimal.text cs.length ++ " connections)")
  | some c =>
    .printed files
      (if json then pretty (.array (c.rows.map Row.toValue)) else Listing.detail index focus c)

def showIndices (files : Files) (s : Store) (input : String) (json : Bool) : Outcome :=
  .printed files (if json then pretty s.indices.toValue else Listing.indices input s.indices)

def showRanking (files : Files) (s : Store) (k : RankKey) (order : SortOrder)
    (last : Option Nat) : Outcome :=
  let ranked := rank s.events k order
  .printed files (Listing.ranking k (match last with
    | some n => ranked.take n
    | none => ranked))

/-- The events of the kind that a tag stands for. Name queries and responses share a kind, so among
these the tag itself is compared. -/
def select (es : List Event) (k : Kind) (tag : String) : List Event :=
  es.filter fun e => if k = .dns then e.tag.text = tag else e.kind = k

def showEvents (files : Files) (s : Store) (tag : Option String) : Outcome :=
  match tag with
  | none => .printed files (Listing.events s.events)
  | some tag =>
    match Kind.ofTag? tag with
    | none => .failed files ("unknown event type '" ++ tag ++ "'")
    | some k => .printed files (Listing.events (select s.events k tag))

def writeMerged (files : Files) (output : String) (stores : List Store) : Outcome :=
  let merged := mergeStreams (stores.map Store.events)
  match files.create? output (Utf8.encode (Event.jsonLines merged)) with
  | none => .failed files ("failed to create " ++ output)
  | some files =>
    .printed files ("Merged " ++ Decimal.text merged.length ++ " events from " ++
      Decimal.text stores.length ++ " files into " ++ output ++ "\n")

def showMicros (files : Files) (s : String) : Outcome :=
  match Timestamp.parse s with
  | .error e => .failed files e.message
  | .ok t => .printed files (Decimal.intText t.micros ++ "\n")

def showTime (files : Files) (m : Int) : Outcome :=
  match Timestamp.ofMicros? m with
  | none => .failed files (Decimal.intText m ++ " is out of the representable range")
  | some t => .printed files (t.text ++ "\n")

def perform (files : Files) (ports : ServicePorts) : Task → Outcome
  | .connections input focus json =>
    withStore files ports input fun s => showConnections files s focus json
  | .detail input focus index json =>
    withStore files ports input fun s => showDetail files s focus index json
  | .indices input json => withStore files ports input fun s => showIndices files s input json
  | .rank input k order last =>
    withStore files ports input fun s => showRanking files s k order last
  | .merge output inputs =>
    withStores files .standard inputs fun ss => writeMerged files output ss
  | .events input tag => withStore files ports input fun s => showEvents files s tag
  | .toMicros s => showMicros files s
  | .fromMicros m => showTime files m

def run (files : Files) (args : List String) : Outcome :=
  match parse args with
  | .error .help => ⟨0, "", [], none, files⟩
  | .error .usage => ⟨2, "", [], none, files⟩
  | .ok invocation =>
    perform files (Config.load (files.read? invocation.config)).servicePorts invocation.task

end Command
end FlowLog
