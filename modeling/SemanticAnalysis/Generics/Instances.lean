import SemanticAnalysis.Ty.Encoding

/-!
# Instances of generic declarations

An instance is remembered under its template and its exact argument types. Entries are put into
buckets by a digest of the arguments and compared exactly inside a bucket, so two argument lists
with one digest are still told apart.
-/

namespace SemanticAnalysis

/-- One instance of a generic class or function. -/
structure Instance where
  arguments : List Ty
  item : ItemId
  /-- The frame that holds the details of the body. -/
  frame : FrameId
deriving Inhabited

/-- Instances by template and digest of the arguments, and how many were added. -/
structure InstanceTable where
  buckets : List ((ItemId × UInt64) × List Instance) := []
  size : Nat := 0
deriving Inhabited

namespace InstanceTable

variable (digest : List Ty → UInt64)

/-- The bucket of a template and argument list. -/
def bucket (t : InstanceTable) (template : ItemId) (arguments : List Ty) : List Instance :=
  (t.buckets.lookup (template, digest arguments)).getD []

def find? (t : InstanceTable) (template : ItemId) (arguments : List Ty) : Option Instance :=
  (t.bucket digest template arguments).find? (·.arguments == arguments)

/-- Append an instance to the bucket with this key, which is made when it is missing. -/
def push (key : ItemId × UInt64) (inst : Instance) :
    List ((ItemId × UInt64) × List Instance) → List ((ItemId × UInt64) × List Instance)
  | [] => [(key, [inst])]
  | (k, held) :: rest =>
    if k == key then (k, held ++ [inst]) :: rest else (k, held) :: push key inst rest

/-- Remember an instance. An entry with the same arguments stays and makes the answer `false`. -/
def insert (t : InstanceTable) (template : ItemId) (inst : Instance) : Bool × InstanceTable :=
  if (t.find? digest template inst.arguments).isSome then (false, t)
  else (true, ⟨push (template, digest inst.arguments) inst t.buckets, t.size + 1⟩)

/-- The instances of one template. -/
def ofTemplate (t : InstanceTable) (template : ItemId) : List Instance :=
  (t.buckets.filter (·.1.1 == template)).flatMap (·.2)

end InstanceTable

/-- The instances of classes and of functions. -/
structure Instances where
  classes : InstanceTable := {}
  functions : InstanceTable := {}
deriving Inhabited

namespace Instances

/-- The digest of an argument list: the fingerprints in a row, seeded with their number. -/
def argumentsKey (arguments : List Ty) : UInt64 :=
  Digest.hash arguments.length.toUInt64
    (arguments.flatMap fun t => Digest.bytesOfWord t.fingerprint)

def findClass? (s : Instances) (template : ItemId) (arguments : List Ty) : Option Instance :=
  s.classes.find? argumentsKey template arguments

def findFunction? (s : Instances) (template : ItemId) (arguments : List Ty) : Option Instance :=
  s.functions.find? argumentsKey template arguments

def insertClass (s : Instances) (template : ItemId) (inst : Instance) : Bool × Instances :=
  let (added, classes) := s.classes.insert argumentsKey template inst
  (added, { s with classes })

def insertFunction (s : Instances) (template : ItemId) (inst : Instance) : Bool × Instances :=
  let (added, functions) := s.functions.insert argumentsKey template inst
  (added, { s with functions })

/-- Forget all instances. -/
def clear (_ : Instances) : Instances := {}

/-- The instances of a template, classes first. -/
def ofTemplate (s : Instances) (template : ItemId) : List Instance :=
  s.classes.ofTemplate template ++ s.functions.ofTemplate template

end Instances

end SemanticAnalysis
