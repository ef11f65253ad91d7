import FlowLog.Indices
import FlowLog.Text.Utf8

/-! Configuration. A file gives some of five settings, as an object by name or as an array in
declared order; the others keep their defaults. A file with any fault, a repeated setting
included, gives the defaults altogether; settings of other names are passed over unread. -/

namespace FlowLog

structure Config where
  focusAddresses : List String
  httpPorts : List UInt16
  httpsPorts : List UInt16
  logLevel : String
  channelCapacity : Option UInt64
  deriving DecidableEq, Repr

inductive Level
  | off | error | warn | info | debug | trace
  deriving DecidableEq, Repr

namespace Level

def all : List Level := [off, error, warn, info, debug, trace]

def text : Level → String
  | off => "OFF"
  | error => "ERROR"
  | warn => "WARN"
  | info => "INFO"
  | debug => "DEBUG"
  | trace => "TRACE"

/-- Names are read in either case; only ASCII letters have one. -/
def ofText? (s : String) : Option Level :=
  all.find? fun l => l.text.toList == s.toList.map Char.toUpper

end Level

inductive Setting
  | focusAddresses | httpPorts | httpsPorts | logLevel | channelCapacity
  deriving DecidableEq, Repr

namespace Setting

def all : List Setting := [focusAddresses, httpPorts, httpsPorts, logLevel, channelCapacity]

def name : Setting → String
  | focusAddresses => "focus_addresses"
  | httpPorts => "http_ports"
  | httpsPorts => "https_ports"
  | logLevel => "log_level"
  | channelCapacity => "channel_capacity"

def ofName? (s : String) : Option Setting := all.find? (·.name == s)

end Setting

namespace Json.Tree

def string? : Tree → Option String
  | string s => Quoted.text? s
  | _ => none

def natural? : Tree → Option UInt64
  | number n =>
    match n.value? with
    | some (.natural k) => some k
    | _ => none
  | _ => none

def port? (x : Tree) : Option UInt16 := do
  let n ← x.natural?
  if n.toNat < UInt16.size then some n.toNat.toUInt16 else none

def list? {α : Type} (f : Tree → Option α) : Tree → Option (List α)
  | array xs => xs.mapM f
  | _ => none

def capacity? : Tree → Option (Option UInt64)
  | null => some none
  | x => x.natural?.map some

end Json.Tree

/-- The settings found so far. -/
structure Draft where
  focusAddresses : Option (List String)
  httpPorts : Option (List UInt16)
  httpsPorts : Option (List UInt16)
  logLevel : Option String
  channelCapacity : Option (Option UInt64)
  deriving DecidableEq, Repr

namespace Draft

def empty : Draft := ⟨none, none, none, none, none⟩

def has (d : Draft) : Setting → Bool
  | .focusAddresses => d.focusAddresses.isSome
  | .httpPorts => d.httpPorts.isSome
  | .httpsPorts => d.httpsPorts.isSome
  | .logLevel => d.logLevel.isSome
  | .channelCapacity => d.channelCapacity.isSome

def set? (d : Draft) (s : Setting) (x : Json.Tree) : Option Draft :=
  match s with
  | .focusAddresses =>
    (x.list? Json.Tree.string?).map fun v => { d with focusAddresses := some v }
  | .httpPorts => (x.list? Json.Tree.port?).map fun v => { d with httpPorts := some v }
  | .httpsPorts => (x.list? Json.Tree.port?).map fun v => { d with httpsPorts := some v }
  | .logLevel => x.string?.map fun v => { d with logLevel := some v }
  | .channelCapacity => x.capacity?.map fun v => { d with channelCapacity := some v }

def readMembers? (d : Draft) : List (List Json.Piece × Json.Tree) → Option Draft
  | [] => some d
  | (k, x) :: ms => do
    let name ← Json.Quoted.text? k
    match Setting.ofName? name with
    | none => d.readMembers? ms
    | some s => if d.has s then none else (← d.set? s x).readMembers? ms

def readElements? (d : Draft) : List Setting → List Json.Tree → Option Draft
  | _, [] => some d
  | [], _ :: _ => none
  | s :: ss, x :: xs => do (← d.set? s x).readElements? ss xs

def read? : Json.Tree → Option Draft
  | .object ms => empty.readMembers? ms
  | .array xs => empty.readElements? Setting.all xs
  | _ => none

end Draft

namespace Config

def standard : Config := ⟨[], [80], [443], "info", none⟩

/-- The default path of the configuration. -/
def path : String := "config/netmon.json"

def ofDraft (d : Draft) : Config where
  focusAddresses := d.focusAddresses.getD standard.focusAddresses
  httpPorts := d.httpPorts.getD standard.httpPorts
  httpsPorts := d.httpsPorts.getD standard.httpsPorts
  logLevel := d.logLevel.getD standard.logLevel
  channelCapacity := d.channelCapacity.getD standard.channelCapacity

def read? (bs : List UInt8) : Option Config := do
  let cs ← Utf8.decode bs
  let tree ← Json.Tree.read? cs
  (Draft.read? tree).map ofDraft

/-- The configuration of a file, or of none. -/
def load (file : Option (List UInt8)) : Config := (file.bind read?).getD standard

def toValue (c : Config) : Json.Value :=
  .object
    [(Setting.name .focusAddresses, .strings c.focusAddresses),
      (Setting.name .httpPorts, .array (c.httpPorts.map fun p => .ofNat p.toNat)),
      (Setting.name .httpsPorts, .array (c.httpsPorts.map fun p => .ofNat p.toNat)),
      (Setting.name .logLevel, .string c.logLevel),
      (Setting.name .channelCapacity, .ofOption (c.channelCapacity.map fun n => .ofNat n.toNat))]

def save (c : Config) : String := c.toValue.prettyText

def servicePorts (c : Config) : ServicePorts := ⟨c.httpPorts, c.httpsPorts⟩

/-- An unknown level counts as `info`. -/
def level (c : Config) : Level := (Level.ofText? c.logLevel).getD .info

end Config
end FlowLog
