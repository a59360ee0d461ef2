import Quasiquote.Native.CString
import Quasiquote.Native.Identifiers
import Quasiquote.Native.Loaded
import Quasiquote.Native.Workshop

/-!
# Programs over the function table

Straight programs that make calls of the function table. They stand for the compiled bodies whose
work is a sequence of such calls.

## Main Definitions

* `Native.Program` — instructions, and the value of an expression
* `Native.Program.image?` — the artifact that a program is compiled to
* `Native.Program.code` — what it does
* `Native.Program.text` — how it is written as a body
* `Native.Executable.ofPrograms` — a compiler that knows some programs

## Design Notes

A program works on variables: a few of its own, which hold nothing at first, and one for each slot.
The slots are set from their variables when the end is reached, and not before. An instruction that
fails ends the program with nothing.

The words of the written form other than the variables start as the wrapper's own names do, so that
none of them is taken for a host name.
-/

namespace Quasiquote.Native

/-- A variable of a program. -/
inductive Variable where
  /-- A variable of its own. -/
  | temporary (number : Nat)
  /-- The variable of a host name. -/
  | name (name : String)
deriving DecidableEq, Repr

/-- The instructions of programs. The first variable of those that make or find an object is set to
it. -/
inductive Instruction where
  | makeNone (target : Variable)
  | makeInt (target : Variable) (value : Int64)
  | makeString (target : Variable) (value : String)
  | makeList (target : Variable) (length : Nat)
  | half (target source : Variable)
  | add (target source : Variable) (value : Int64)
  | length (target source : Variable)
  | item (target source : Variable) (index : Nat)
  | setItem (list : Variable) (index : Nat) (source : Variable)
  | move (target source : Variable)
  | incref (source : Variable)
  | decref (source : Variable)
  | raise (message : String)
  | fail
  | raiseIfNull (source : Variable) (message : String)
  /-- Text that is no C. -/
  | malformed
deriving Repr

/-- What the body of an expression evaluates to. -/
inductive ProgramValue where
  | null
  | read (source : Variable)
  /-- A C value that is no handle. -/
  | foreign
deriving Repr

/-- A program. Blocks have no use for its value. -/
structure Program where
  instructions : List Instruction
  value : ProgramValue
deriving Repr

/-- The variables of an instruction. -/
def Instruction.variables : Instruction → List Variable
  | makeNone d => [d]
  | makeInt d _ => [d]
  | makeString d _ => [d]
  | makeList d _ => [d]
  | half d x => [d, x]
  | add d x _ => [d, x]
  | length d x => [d, x]
  | item d x _ => [d, x]
  | setItem x _ y => [x, y]
  | move d x => [d, x]
  | incref x => [x]
  | decref x => [x]
  | raiseIfNull x _ => [x]
  | raise _ => []
  | fail => []
  | malformed => []

/-- Whether an instruction is C. -/
def Instruction.isWellFormed : Instruction → Bool
  | malformed => false
  | _ => true

/-- What a program works on. -/
structure Registers where
  table : HandleTable
  temporaries : Nat → Handle
  slots : Table String Handle

namespace Registers

/-- The handle in a variable. -/
def get (s : Registers) : Variable → Handle
  | .temporary k => s.temporaries k
  | .name n => (s.slots.get? n).join

/-- The registers with another handle in a variable. -/
def set (s : Registers) (v : Variable) (h : Handle) : Registers :=
  match v with
  | .temporary k => { s with temporaries := fun j => if j = k then h else s.temporaries j }
  | .name n => { s with slots := s.slots.insert n h }

/-- A variable set to an object that was made. -/
def keep (s : Registers) (d : Variable) (made : Ref × HandleTable) : Bool × Registers :=
  (true, { s with table := made.2 }.set d (some made.1))

/-- The end of a program that fails. -/
def stop (s : Registers) (table : HandleTable) : Bool × Registers := (false, { s with table })

/-- Run an instruction. The flag tells whether the program goes on. -/
def step (s : Registers) : Instruction → Bool × Registers
  | .makeNone d => s.keep d (s.table.make .none)
  | .makeInt d n => s.keep d (s.table.make (.int n))
  | .makeString d text => s.keep d (s.table.fromBytes (Utf8.encodeString text))
  | .makeList d n => s.keep d (s.table.listNew n)
  | .half d x =>
    match s.table.asFloat (s.get x) with
    | (some f, t) => s.keep d (t.make (.float (f / 2.0)))
    | (none, t) => s.stop t
  | .add d x n =>
    match s.table.asInt (s.get x) with
    | (some i, t) => s.keep d (t.make (.int (i + n)))
    | (none, t) => s.stop t
  | .length d x =>
    match s.table.listLen (s.get x) with
    | (some n, t) => s.keep d (t.make (.int (Int64.ofNat n)))
    | (none, t) => s.stop t
  | .item d x index =>
    match s.table.listGet (s.get x) index with
    | (some r, t) => (true, { s with table := t }.set d (some r))
    | (none, t) => s.stop t
  | .setItem x index y =>
    match s.table.listSet (s.get x) index (s.get y) with
    | (true, t) => (true, { s with table := t })
    | (false, t) => s.stop t
  | .move d x => (true, s.set d (s.get x))
  | .incref x => (true, { s with table := s.table.incref (s.get x) })
  | .decref x => (true, { s with table := s.table.decref (s.get x) })
  | .raise text => (true, { s with table := s.table.raise (Utf8.encodeString text) })
  | .fail => s.stop s.table
  | .raiseIfNull x text =>
    match s.get x with
    | some _ => (true, s)
    | none => s.stop (s.table.raise (Utf8.encodeString text))
  | .malformed => s.stop s.table

/-- Run instructions up to the end, or up to one that fails. -/
def run (s : Registers) : List Instruction → Bool × Registers
  | [] => (true, s)
  | i :: rest =>
    match s.step i with
    | (true, s) => s.run rest
    | (false, s) => (false, s)

end Registers

namespace Program

/-- The result of a program that has reached its end. -/
def result (p : Program) (kind : Site.Kind) (s : Registers) : Handle × HandleTable :=
  match kind, p.value with
  | .block, _ =>
    let (r, t) := s.table.make .none
    (some r, t)
  | .expression, .read x => (s.get x, s.table)
  | .expression, _ => (none, s.table)

/-- What a program does with the slots of some names. -/
def code (p : Program) (kind : Site.Kind) (names : List String) : BodyCode := fun slots table =>
  let start : Registers :=
    { table, temporaries := fun _ => none, slots := Table.insertAll [] (names.zip slots) }
  match start.run p.instructions with
  | (false, s) => (none, slots, s.table)
  | (true, s) =>
    let (value, table) := p.result kind s
    (value, names.map fun n => s.get (.name n), table)

/-- Whether a variable is declared among some host names. -/
def declares (names : List String) : Variable → Bool
  | .temporary _ => true
  | .name n => names.contains n

/-- Whether a program compiles as a quote of a kind with some host names: all its variables are
declared, and an expression evaluates to a handle. -/
def compiles (p : Program) (kind : Site.Kind) (names : List String) : Bool :=
  p.instructions.all (fun i => i.isWellFormed && i.variables.all (declares names)) &&
    match kind, p.value with
    | .block, _ => true
    | .expression, .null => true
    | .expression, .read x => declares names x
    | .expression, .foreign => false

/-- The artifact that a program is compiled to. -/
def image? (p : Program) (kind : Site.Kind) (names : List String) : Option Image :=
  if p.compiles kind names then
    some { symbol := entrySymbol, version := interfaceVersion, kindNumber := kindNumber kind,
           names := names.map Utf8.encodeString, code := p.code kind names }
  else none

end Program

/-! ### Written programs -/

/-- A variable as it is written. -/
def Variable.text : Variable → String
  | temporary k => "t" ++ toString k
  | name n => n

/-- The words of an instruction. -/
def Instruction.words : Instruction → List String
  | makeNone d => ["none", d.text]
  | makeInt d n => ["int", d.text, toString n.toInt]
  | makeString d s => ["str", d.text, CString.quote s]
  | makeList d n => ["list", d.text, toString n]
  | half d x => ["half", d.text, x.text]
  | add d x n => ["add", d.text, x.text, toString n.toInt]
  | length d x => ["len", d.text, x.text]
  | item d x k => ["get", d.text, x.text, toString k]
  | setItem x k y => ["put", x.text, toString k, y.text]
  | move d x => ["move", d.text, x.text]
  | incref x => ["incref", x.text]
  | decref x => ["decref", x.text]
  | raise s => ["raise", CString.quote s]
  | fail => ["fail"]
  | raiseIfNull x s => ["raise_if_null", x.text, CString.quote s]
  | malformed => ["malformed"]

/-- An instruction as it is written. -/
def Instruction.text (i : Instruction) : String :=
  wrapperMark ++ "_" ++ " ".intercalate i.words ++ ";\n"

/-- The value of an expression as it is written. -/
def ProgramValue.text : ProgramValue → String
  | null => "(qq_object *)0"
  | read x => x.text
  | foreign => "1 + 2"

/-- A program as the body of a quote. Blocks are written without a value. -/
def Program.text (p : Program) (kind : Site.Kind) : String :=
  String.join (p.instructions.map Instruction.text) ++
    match kind with
    | .block => ""
    | .expression => p.value.text

/-- The compiler that knows the written forms of some programs, and rejects all other bodies. -/
def Executable.ofPrograms (programs : List Program) : Executable where
  versionStatus := 0
  compile unit :=
    let known := programs.find? fun p => p.text unit.kind == unit.body
    match known.bind fun p => p.image? unit.kind unit.names with
    | some i => { exit := ⟨0, []⟩, output := some (.image i) }
    | none => { exit := ⟨1, []⟩, output := none }

end Quasiquote.Native
