import OnePass.Toml.Value

/-!
# TOML documents

A document is a tree of tables that grows line by line. A key may be given only once, but a table
that came about on the way to another key is only implied, and one more line may still speak of it.
The keys are also kept in the order of the file.
-/

set_option autoImplicit false

namespace OnePass.Toml

/-- What a key stands for. Nothing is kept of the elements of arrays, and of an array of tables only
the last element, which alone can grow. -/
inductive Node where
  | scalar (x : Scalar)
  | array
  | table (children : List (Text × Node))
  | tables (last : List (Text × Node))
  deriving Repr, Inhabited

abbrev Children := List (Text × Node)

namespace Children

def find? (cs : Children) (k : Text) : Option Node :=
  (List.find? (fun c => c.1 = k) cs).map Prod.snd

def put (k : Text) (n : Node) : Children → Children
  | [] => [(k, n)]
  | (k', n') :: rest => if k' = k then (k, n) :: rest else (k', n') :: put k n rest

def at? : Key → Children → Option Children
  | [], cs => some cs
  | k :: ks, cs =>
    match find? cs k with
    | some (.table inner) => at? ks inner
    | some (.tables last) => at? ks last
    | _ => none

def putAt (k : Text) (n : Node) : Key → Children → Option Children
  | [], cs => some (put k n cs)
  | t :: ts, cs =>
    match find? cs t with
    | some (.table inner) => (putAt k n ts inner).map fun inner => put t (.table inner) cs
    | some (.tables last) => (putAt k n ts last).map fun last => put t (.tables last) cs
    | _ => none

/-- Sets what a dotted key stands for, whatever it stood for before. On the way to it there may
only be tables. -/
def assign (k : Text) (n : Node) : Key → Children → Option Children
  | [], cs => some (put k n cs)
  | t :: ts, cs =>
    match find? cs t with
    | none => (assign k n ts []).map fun inner => put t (.table inner) cs
    | some (.table inner) => (assign k n ts inner).map fun inner => put t (.table inner) cs
    | some _ => none

end Children

structure Document where
  root : Children := []
  /-- Keys that one more definition may speak of. -/
  implied : List Key := []
  /-- Keys whose latest value is an array. -/
  arrays : List Key := []
  /-- All keys of headers and values, in the order of the file. -/
  keys : List Key := []
  deriving Repr, Inhabited

namespace Document

def imply (d : Document) (key : Key) : Document := { d with implied := key :: d.implied }

def classify (d : Document) (key : Key) (isArray : Bool) : Document :=
  let others := d.arrays.filter (· ≠ key)
  { d with arrays := if isArray then key :: others else others }

/-- The key that the kind of a value is noted under: a value whose name is empty speaks for the
table it is in. -/
def kindKey (path : Key) (k : Text) : Key :=
  if k = [] ∧ path ≠ [] then path else path ++ [k]

/-- Defines a name in the table at a path. If it is there already, it must have been implied; then
it stays as it is, unless it is an array. -/
def define (d : Document) (path : Key) (k : Text) (n : Node) : Option Document := do
  let key := path ++ [k]
  let table ← Children.at? path d.root
  let root ← Children.putAt k n path d.root
  if (Children.find? table k).isNone then some { d with root }
  else if key ∈ d.implied then
    let implied := d.implied.filter (· ≠ key)
    if key ∈ d.arrays then some { d with root, implied } else some { d with implied }
  else none

def addElement (d : Document) (path : Key) (k : Text) : Option Document := do
  let root ← Children.putAt k (.tables []) path d.root
  match Children.find? (← Children.at? path d.root) k with
  | none => some { d with root }
  | some (.tables _) => some { d with root }
  | some _ => none

def pave (d : Document) (path : Key) : Key → Option Document
  | [] => some d
  | k :: ks => do
    let key := path ++ [k]
    if (Children.find? (← Children.at? path d.root) k).isSome then pave d key ks
    else
      let root ← Children.putAt k (.table []) path d.root
      pave ({ d with root }.imply key) key ks

/-- Goes into the tables on the way to a dotted key, and makes them where they are missing. Tables
that are there already may always be extended so. -/
def enter (d : Document) (path : Key) : Key → Option Document
  | [] => some d
  | k :: ks => do
    let key := path ++ [k]
    let d ← (d.imply key).define path k (.table [])
    enter d key ks

mutual

/-- What a value under a name makes of the document before the name itself is defined. The pairs of
an inline table are defined in the document one by one. -/
def place (inArray : Bool) (path : Key) (k : Text) :
    Value → Document → Option (Node × Document)
  | .scalar x, d => some (.scalar x, d)
  | .array elements, d => do
    let d ← placeElements path k elements (d.classify (kindKey path k) true)
    return (.array, d)
  | .table pairs, d => do
    let key := path ++ [k]
    let d := d.imply key
    let d ← if inArray then d.addElement path k else d.define path k (.table [])
    let (own, d) ← addPairs key [] pairs d
    return (.table own, d)

def placeElements (path : Key) (k : Text) : List Value → Document → Option Document
  | [], d => some d
  | v :: vs, d => do
    let (_, d) ← place true path k v d
    placeElements path k vs d

/-- Adds keys with their values to the table at a path. Besides, `own` collects what the pairs say
by themselves. -/
def addPairs (path : Key) (own : Children) :
    List (Key × Value) → Document → Option (Children × Document)
  | [], d => some (own, d)
  | (key, v) :: rest, d => do
    let table := path ++ key.table
    let d ← d.enter path key.table
    let d := { d with keys := d.keys ++ [path ++ key] }
    let (n, d) ← place false table key.name v d
    let d ← d.define table key.name n
    let d := d.classify (kindKey table key.name) v.isArray
    let own ← Children.assign key.name n key.table own
    addPairs path own rest d

end

/-- Adds a statement to a document in the table that `context` names, and tells the table that is
open after it. -/
def add (d : Document) (context : Key) : Statement → Option (Document × Key)
  | .table key => do
    let d ← d.pave [] key.table
    let d ← d.define key.table key.name (.table [])
    let d := d.classify key false
    return ({ d with keys := d.keys ++ [key] }, key)
  | .element key => do
    let d ← d.pave [] key.table
    let d ← d.addElement key.table key.name
    let d := d.classify key false
    return ({ d with keys := d.keys ++ [key] }, key)
  | .value key v => do
    let (_, d) ← d.addPairs context [] [(key, v)]
    return (d, context)

def addAll (d : Document) (context : Key) : List Statement → Option Document
  | [] => some d
  | s :: rest => do
    let (d, context) ← d.add context s
    d.addAll context rest

end Document

end OnePass.Toml
