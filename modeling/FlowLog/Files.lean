/-! Files as a program sees them: the contents of the files and the directories that hold them, all
below one root, and the directory in which the program works. A written path is followed name by
name, and each name is looked up in a directory that exists. Reading a directory fails after it was
opened. -/

namespace FlowLog

/-- The names on the way down from the root. -/
abbrev Path := List String

namespace Path

/-- Where a name leads. Nothing, as between two slashes, and a single point stay; two points lead
up, and at the root they stay too. -/
def move (p : Path) (name : String) : Path :=
  if name = "" ∨ name = "." then p
  else if name = ".." then p.dropLast
  else p ++ [name]

def names (s : String) : List String := s.splitOn "/"

def origin (working : Path) (s : String) : Path := if s.toList.head? = some '/' then [] else working

def upwards (p : Path) : List Path := (List.range (p.length + 1)).map fun n => p.take n

/-- In bytes, as `maxWritten`. -/
def maxName : Nat := 255

def maxWritten : Nat := 4095

end Path

structure Files where
  working : Path
  contents : List (Path × List UInt8)
  directories : List Path
  deriving DecidableEq, Repr

inductive PathError
  | missing | notDirectory | tooLong
  deriving DecidableEq, Repr

def PathError.message : PathError → String
  | missing => "No such file or directory (os error 2)"
  | notDirectory => "Not a directory (os error 20)"
  | tooLong => "File name too long (os error 36)"

inductive Found
  | file (bytes : List UInt8)
  | directory
  deriving DecidableEq, Repr

namespace Files

/-- The files of the given names in the working directory, with the directories that hold them. -/
def ofList (working : Path) (fs : List (String × List UInt8)) : Files :=
  let contents := fs.map fun f => ((Path.names f.1).foldl Path.move working, f.2)
  ⟨working, contents, working.upwards ++ contents.flatMap fun c => Path.upwards c.1.dropLast⟩

def get? (fs : Files) (p : Path) : Option (List UInt8) :=
  (fs.contents.find? fun c => c.1 = p).map Prod.snd

def isDirectory (fs : Files) (p : Path) : Bool := fs.directories.contains p

def step (fs : Files) (p : Path) (name : String) : Except PathError Path :=
  if !fs.isDirectory p then .error (if (fs.get? p).isSome then .notDirectory else .missing)
  else if Path.maxName < name.utf8ByteSize then .error .tooLong
  else .ok (p.move name)

/-- The place that a written path means, whether or not anything is there. -/
def resolve (fs : Files) (s : String) : Except PathError Path :=
  if s = "" then .error .missing
  else if Path.maxWritten < s.utf8ByteSize then .error .tooLong
  else (Path.names s).foldlM fs.step (Path.origin fs.working s)

def find (fs : Files) (s : String) : Except PathError Found := do
  let p ← fs.resolve s
  if fs.isDirectory p then .ok .directory
  else match fs.get? p with
    | some bytes => .ok (.file bytes)
    | none => .error .missing

def read? (fs : Files) (s : String) : Option (List UInt8) :=
  match fs.find s with
  | .ok (.file bytes) => some bytes
  | _ => none

def write (fs : Files) (p : Path) (bytes : List UInt8) : Files :=
  { fs with contents := (p, bytes) :: fs.contents.filter fun c => c.1 ≠ p }

@[simp] theorem write_get_self (fs : Files) (p : Path) (bytes : List UInt8) :
    (fs.write p bytes).get? p = some bytes := by simp [write, get?]

@[simp] theorem write_get_ne (fs : Files) {p q : Path} (bytes : List UInt8) (h : p ≠ q) :
    (fs.write p bytes).get? q = fs.get? q := by
  simp only [write, get?, List.find?_cons, h, decide_false]
  congr 1
  induction fs.contents with
  | nil => rfl
  | cons c cs ih => by_cases hp : c.1 = p <;> by_cases hq : c.1 = q <;> simp_all

/-- The files after one is created or overwritten; none when it cannot be. -/
def create? (fs : Files) (s : String) (bytes : List UInt8) : Option Files :=
  match fs.resolve s with
  | .ok p => if fs.isDirectory p then none else some (fs.write p bytes)
  | .error _ => none

end Files
end FlowLog
