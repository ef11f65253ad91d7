import FlowLog.Command.Arguments
import FlowLog.Config

/-! Command lines of the analysis program. The options before the command are for the program as a
whole; they may also stand behind the command, where they win. -/

namespace FlowLog
namespace Command

/-- What is to be done. -/
inductive Task
  | connections (input focus : String) (json : Bool)
  | detail (input focus : String) (index : Nat) (json : Bool)
  | indices (input : String) (json : Bool)
  | rank (input : String) (key : RankKey) (order : SortOrder) (last : Option Nat)
  | merge (output : String) (inputs : List String)
  | events (input : String) (tag : Option String)
  | toMicros (s : String)
  | fromMicros (m : Int)
  deriving DecidableEq, Repr

structure Invocation where
  config : String
  task : Task
  deriving DecidableEq, Repr

inductive Verb
  | connections | detail | indices | rank | merge | events | time
  deriving DecidableEq, Repr

def sharedKeys : List Key := [.help, .verbose, .config]

namespace Verb

def all : List Verb := [connections, detail, indices, rank, merge, events, time]

def text : Verb → String
  | connections => "connections"
  | detail => "detail"
  | indices => "indices"
  | rank => "rank"
  | merge => "merge"
  | events => "events"
  | time => "time"

def ofText? (s : String) : Option Verb := all.find? (·.text == s)

/-- The options of a command besides the shared ones. -/
def keys : Verb → List Key
  | connections => [.input, .focus, .json]
  | detail => [.input, .focus, .index, .json]
  | indices => [.input, .json]
  | rank => [.input, .rankBy, .descending, .last]
  | merge => [.output]
  | events => [.input, .type]
  | time => [.toMicros, .fromMicros]

def plain : Verb → Plain
  | merge => .paths
  | _ => .nothing

/-- The task that the options make of a command; none when one is missing or two exclude each
other. -/
def task? (v : Verb) (g : Given) : Option Task :=
  match v with
  | connections => do
    some (.connections (← g.get? .input) (← g.get? .focus) (g.has .json))
  | detail => do
    let index ← (g.get? .index).bind natural?
    some (.detail (← g.get? .input) (← g.get? .focus) index (g.has .json))
  | indices => do some (.indices (← g.get? .input) (g.has .json))
  | rank => do
    let key ← (RankKey.parse ((g.get? .rankBy).getD RankKey.duration.text)).toOption
    let order := if g.has .descending then SortOrder.descending else .ascending
    some (.rank (← g.get? .input) key order ((g.get? .last).bind natural?))
  | merge => do
    if g.plain = [] then none else some (.merge (← g.get? .output) g.plain)
  | events => do some (.events (← g.get? .input) (g.get? .type))
  | time =>
    match g.get? .toMicros, g.get? .fromMicros with
    | some s, none => some (.toMicros s)
    | none, some s => (integer? s).map .fromMicros
    | _, _ => none

end Verb

/-- Help may be asked for one command by name. -/
def helpOn : List String → Stop
  | [] => .help
  | [s] => if s = "help" ∨ (Verb.ofText? s).isSome then .help else .usage
  | _ => .usage

def parse (args : List String) : Except Stop Invocation := do
  let (whole, rest) ← scan sharedKeys .name none .empty args
  match rest with
  | [] => .error .usage
  | name :: rest =>
    if name = "help" then .error (helpOn rest)
    else match Verb.ofText? name with
      | none => .error .usage
      | some v => do
        let (own, _) ← scan (sharedKeys ++ v.keys) v.plain none .empty rest
        let config := ((own.get? .config).or (whole.get? .config)).getD Config.path
        match v.task? own with
        | none => .error .usage
        | some task => .ok ⟨config, task⟩

end Command
end FlowLog
