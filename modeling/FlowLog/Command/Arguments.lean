import FlowLog.Ranking
import FlowLog.Text.Decimal

/-! Options on a command line. A long option stands by itself, with its value behind an equals sign
or in the next argument; short ones may share an argument, the last of them with a value attached.
After two dashes nothing is an option. Arguments take effect from left to right: a request for help
ends the reading at once, and so does a fault. -/

namespace FlowLog
namespace Command

inductive Key
  | help | verbose | config | input | focus | json | index | rankBy | descending | last | output
  | type | toMicros | fromMicros
  deriving DecidableEq, Repr

inductive Takes
  | nothing | path | text | natural | integer | rank
  deriving DecidableEq, Repr

namespace Key

def short? : Key → Option Char
  | help => some 'h'
  | verbose => some 'v'
  | input => some 'i'
  | focus => some 'f'
  | index => some 'n'
  | rankBy => some 'b'
  | descending => some 'd'
  | last => some 'l'
  | output => some 'o'
  | type => some 't'
  | config | json | toMicros | fromMicros => none

def long : Key → String
  | help => "help"
  | verbose => "verbose"
  | config => "config"
  | input => "input"
  | focus => "focus"
  | json => "json"
  | index => "index"
  | rankBy => "by"
  | descending => "descending"
  | last => "last"
  | output => "output"
  | type => "type"
  | toMicros => "to-micros"
  | fromMicros => "from-micros"

def takes : Key → Takes
  | help | verbose | json | descending => .nothing
  | config | input | output => .path
  | focus | type | toMicros => .text
  | index | last => .natural
  | fromMicros => .integer
  | rankBy => .rank

end Key

inductive Stop
  | help
  | usage
  deriving DecidableEq, Repr

def digits? (cs : List Char) : Option Nat :=
  match Decimal.some? cs with
  | some (ds, []) => some (Decimal.value ds)
  | _ => none

/-- A number of 64 bits; a plus sign may stand in front. -/
def natural? (s : String) : Option Nat := do
  let n ← match s.toList with
    | '+' :: cs => digits? cs
    | cs => digits? cs
  if n < UInt64.size then some n else none

def integer? (s : String) : Option Int := do
  let m : Int ← match s.toList with
    | '-' :: cs => (digits? cs).map fun n => -(n : Int)
    | '+' :: cs => (digits? cs).map fun n => (n : Int)
    | cs => (digits? cs).map fun n => (n : Int)
  let half : Int := (UInt64.size / 2 : Nat)
  if -half ≤ m ∧ m < half then some m else none

def Takes.accepts : Takes → String → Bool
  | nothing, s => s = ""
  | path, s => s ≠ ""
  | text, _ => true
  | natural, s => (natural? s).isSome
  | integer, s => (integer? s).isSome
  | rank, s => (RankKey.parse s).isOk

structure Given where
  options : List (Key × String)
  plain : List String
  deriving DecidableEq, Repr

namespace Given

def empty : Given := ⟨[], []⟩

def get? (g : Given) (k : Key) : Option String :=
  (g.options.find? fun o => o.1 = k).map Prod.snd

def has (g : Given) (k : Key) : Bool := (g.get? k).isSome

def add (g : Given) (k : Key) (v : String) : Except Stop Given :=
  if k = .help then .error .help
  else if g.has k || !k.takes.accepts v then .error .usage
  else .ok { g with options := g.options ++ [(k, v)] }

end Given

inductive Look
  | plain
  | escape
  | long (name : List Char) (value : Option (List Char))
  | short (letters : List Char)
  deriving DecidableEq, Repr

def splitValue : List Char → List Char × Option (List Char)
  | [] => ([], none)
  | c :: r =>
    if c = '=' then ([], some r)
    else (c :: (splitValue r).1, (splitValue r).2)

def Look.of (s : String) : Look :=
  match s.toList with
  | ['-', '-'] => escape
  | '-' :: '-' :: r => long (splitValue r).1 (splitValue r).2
  | '-' :: c :: r => short (c :: r)
  | _ => plain

/-- Whether an argument may be the value of the option before it: it must not look like an option,
but a negative integer may stand where an integer is wanted. -/
def mayFollow (k : Key) (s : String) : Bool :=
  Look.of s = .plain || (k.takes = .integer && (integer? s).isSome)

/-- Takes a long option; one whose value is still to come is returned. -/
def takeLong (ks : List Key) (g : Given) (name : List Char) (value : Option (List Char)) :
    Except Stop (Given × Option Key) :=
  match ks.find? fun k => k.long.toList = name with
  | none => .error .usage
  | some k =>
    match k.takes, value with
    | .nothing, none => do return (← g.add k "", none)
    | .nothing, some _ => .error .usage
    | _, some v => do return (← g.add k (String.ofList v), none)
    | _, none => .ok (g, some k)

def takeShort (ks : List Key) (g : Given) : List Char → Except Stop (Given × Option Key)
  | [] => .ok (g, none)
  | c :: r =>
    match ks.find? fun k => k.short? = some c with
    | none => .error .usage
    | some k =>
      if k.takes = .nothing then do takeShort ks (← g.add k "") r
      else match r with
        | [] => .ok (g, some k)
        | '=' :: v => do return (← g.add k (String.ofList v), none)
        | v => do return (← g.add k (String.ofList v), none)

/-- Which arguments may stand without an option: none but the name of a command, at which the
reading pauses; none at all; or paths. -/
inductive Plain
  | name | nothing | paths
  deriving DecidableEq, Repr

def takePlain (plain : Plain) (g : Given) (ss : List String) : Except Stop Given :=
  if ss.all fun s => plain = .paths && s ≠ "" then .ok { g with plain := g.plain ++ ss }
  else .error .usage

/-- Reads arguments with the options `ks`, the first of them as the value of an option that still
waits for one; what follows from a command's name on is left. -/
def scan (ks : List Key) (plain : Plain) (waiting : Option Key) (g : Given) :
    List String → Except Stop (Given × List String)
  | [] => if waiting = none then .ok (g, []) else .error .usage
  | a :: rest =>
    match waiting with
    | some k => do
      if mayFollow k a then scan ks plain none (← g.add k a) rest else .error .usage
    | none =>
      match Look.of a with
      | .plain => do
        if plain = .name then .ok (g, a :: rest)
        else scan ks plain none (← takePlain plain g [a]) rest
      | .escape => do return (← takePlain plain g rest, [])
      | .long name value => do
        let (g, waiting) ← takeLong ks g name value
        scan ks plain waiting g rest
      | .short letters => do
        let (g, waiting) ← takeShort ks g letters
        scan ks plain waiting g rest

end Command
end FlowLog
