import Quasiquote.Files.Tree
import Quasiquote.Native.Error

/-!
# The build cache

Each key is built at most once. A lookup is served from memory, or from the artifact that an earlier
run left in its file, or by a build into a temporary file that is then moved to the artifact's path.

## Main Definitions

* `Native.BuildCache` — what is loaded, and how lookups were served
* `Native.BuildCache.buildAndLoad` — a build into a temporary file, which becomes the artifact
* `Native.BuildCache.getOrBuild` — the loaded artifact of a key
* `Native.BuildCache.clear` — forget everything that is loaded

## Design Notes

A build makes the contents of the temporary file, or fails. Builds and loads may change other files,
and so both hand on the tree.

Any name that is not in use will do for a temporary file. The names that are tried are numbered.

The mark of a key that somebody has begun to look up is kept until the key is loaded, as is told by
`locks`.
-/

namespace Quasiquote.Native

/-- How lookups were served. -/
structure CacheStats where
  builds : Nat
  diskHits : Nat
  memoryHits : Nat
deriving DecidableEq, Repr

/-- A loaded artifact, told from others by a number. -/
structure Shared (β : Type) where
  number : Nat
  value : β
deriving Repr

/-- The loaded artifacts by their keys. -/
structure BuildCache (κ β : Type) where
  loaded : Table κ (Shared β)
  /-- The keys whose lookup has begun and has not succeeded. -/
  locks : List κ
  stats : CacheStats
  /-- How many artifacts were loaded so far. -/
  made : Nat
deriving Repr

namespace BuildCache

variable {κ β α : Type}

/-- A cache in which nothing is loaded. -/
def empty : BuildCache κ β := { loaded := [], locks := [], stats := ⟨0, 0, 0⟩, made := 0 }

instance : Inhabited (BuildCache κ β) := ⟨empty⟩

/-- The number of loaded artifacts. -/
def size (c : BuildCache κ β) : Nat := c.loaded.length

/-- Forget everything that is loaded, and how lookups were served. Files stay. -/
def clear (c : BuildCache κ β) : BuildCache κ β := { empty with made := c.made }

/-- Count a lookup that was served from memory. -/
def countMemoryHit (c : BuildCache κ β) : BuildCache κ β :=
  { c with stats := { c.stats with memoryHits := c.stats.memoryHits + 1 } }

/-- Count a lookup that was served from a file. -/
def countDiskHit (c : BuildCache κ β) : BuildCache κ β :=
  { c with stats := { c.stats with diskHits := c.stats.diskHits + 1 } }

/-- Count a build. -/
def countBuild (c : BuildCache κ β) : BuildCache κ β :=
  { c with stats := { c.stats with builds := c.stats.builds + 1 } }

section Keys

variable [DecidableEq κ]

/-- Whether a key is loaded. -/
def contains (c : BuildCache κ β) (key : κ) : Bool := (c.loaded.get? key).isSome

/-- Mark a key whose lookup begins. -/
def lock (c : BuildCache κ β) (key : κ) : BuildCache κ β :=
  if key ∈ c.locks then c else { c with locks := key :: c.locks }

/-- Keep a loaded artifact under its key. -/
def store (c : BuildCache κ β) (key : κ) (value : β) : Shared β × BuildCache κ β :=
  let shared : Shared β := { number := c.made, value }
  (shared, { c with
    loaded := c.loaded.insert key shared
    locks := c.locks.filter (· ≠ key)
    made := c.made + 1 })

@[simp] theorem loaded_lock (c : BuildCache κ β) (key : κ) : (c.lock key).loaded = c.loaded := by
  unfold lock
  split <;> rfl

@[simp] theorem stats_lock (c : BuildCache κ β) (key : κ) : (c.lock key).stats = c.stats := by
  unfold lock
  split <;> rfl

@[simp] theorem mem_locks_lock {c : BuildCache κ β} {key other : κ} :
    other ∈ (c.lock key).locks ↔ other = key ∨ other ∈ c.locks := by
  unfold lock
  split
  · next h => exact ⟨.inr, fun hother => hother.elim (fun heq => heq ▸ h) id⟩
  · exact List.mem_cons

@[simp] theorem mem_locks_store {c : BuildCache κ β} {key other : κ} {value : β} :
    other ∈ (c.store key value).2.locks ↔ other ∈ c.locks ∧ other ≠ key := by
  simp [store]

theorem get?_loaded_store (c : BuildCache κ β) (key : κ) (value : β) (other : κ) :
    (c.store key value).2.loaded.get? other =
      if other = key then some (c.store key value).1 else c.loaded.get? other :=
  Table.get?_insert _ _ _ _

end Keys

/-- A build: the contents of the artifact, and the tree with any other files. -/
abbrev Build (α : Type) := FileTree α → Except BuildError α × FileTree α

/-- A load of the artifact at a path. -/
abbrev Load (α β : Type) := String → FileTree α → Except LoadError β × FileTree α

/-- The artifact that an earlier run left at a path, if it is there and can be loaded. -/
def existing (files : FileTree α) (artifact : String) (load : Load α β) : Option β × FileTree α :=
  if files.isFile artifact then
    match load artifact files with
    | (.ok value, files) => (some value, files)
    | (.error _, files) => (none, files)
  else (none, files)

/-- The tree without a file, if it can be removed. -/
def discard (files : FileTree α) (path : String) : FileTree α :=
  match files.remove path with
  | .ok files => files
  | .error _ => files

/-- The name of a temporary file. -/
def temporaryName (n : Nat) : String := ".qq-build-" ++ toString n

/-- Make an empty file at the first of some paths that is not in use. -/
def createUnused [Inhabited α] (files : FileTree α) :
    List String → Except IoError (String × FileTree α)
  | [] => .error .alreadyExists
  | path :: paths =>
    match files.createFile path default with
    | .ok files => .ok (path, files)
    | .error .alreadyExists => createUnused files paths
    | .error e => .error e

/-- Make a temporary file in a directory. More names are tried than can be in use. -/
def createTemporary [Inhabited α] (files : FileTree α) (directory : String) :
    Except IoError (String × FileTree α) :=
  createUnused files ((List.range (files.entries.length + 1)).map fun n =>
    Path.join directory (temporaryName n))

/-- Build into a file. -/
def buildInto (path : String) (build : Build α) (files : FileTree α) :
    Except BuildError Unit × FileTree α :=
  match build files with
  | (.error e, files) => (.error e, files)
  | (.ok contents, files) =>
    match files.write path contents with
    | .error e => (.error (.io path e), files)
    | .ok files => (.ok (), files)

/-- How far a fresh build came. -/
structure Fresh (β α : Type) where
  result : Except CacheError β
  /-- The build was begun. -/
  attempted : Bool
  /-- The build was moved to its path. -/
  published : Bool
  files : FileTree α

/-- Build an artifact beside its path, move it there and load it. One that does not load is removed
again, and so is the temporary file of a build that does not come as far. -/
def buildAndLoad [Inhabited α] (files : FileTree α) (artifact : String) (build : Build α)
    (load : Load α β) : Fresh β α :=
  let directory := Path.directoryOf artifact
  match files.createDirectories directory with
  | (.error e, files) => ⟨.error (.io directory e), false, false, files⟩
  | (.ok (), files) =>
    match createTemporary files directory with
    | .error e => ⟨.error (.io directory e), false, false, files⟩
    | .ok (temporary, files) =>
      match buildInto temporary build files with
      | (.error e, files) => ⟨.error (.build e), true, false, discard files temporary⟩
      | (.ok (), files) =>
        match files.rename temporary artifact with
        | .error e => ⟨.error (.io artifact e), true, false, discard files temporary⟩
        | .ok files =>
          match load artifact files with
          | (.ok value, files) => ⟨.ok value, true, true, files⟩
          | (.error e, files) => ⟨.error (.load e), true, true, discard files artifact⟩

/-- What a lookup gives. -/
structure Lookup (κ β α : Type) where
  result : Except CacheError (Shared β)
  /-- A build was begun. -/
  attempted : Bool
  cache : BuildCache κ β
  files : FileTree α

/-- The loaded artifact of a key, which is loaded from its path or built there if needed. -/
def getOrBuild [DecidableEq κ] [Inhabited α] (c : BuildCache κ β) (files : FileTree α) (key : κ)
    (artifact : String) (build : Build α) (load : Load α β) : Lookup κ β α :=
  match c.loaded.get? key with
  | some shared => ⟨.ok shared, false, c.countMemoryHit, files⟩
  | none =>
    let c := c.lock key
    match existing files artifact load with
    | (some value, files) =>
      let (shared, c) := c.countDiskHit.store key value
      ⟨.ok shared, false, c, files⟩
    | (none, files) =>
      let fresh := buildAndLoad files artifact build load
      let c := if fresh.published then c.countBuild else c
      match fresh.result with
      | .error e => ⟨.error e, fresh.attempted, c, fresh.files⟩
      | .ok value =>
        let (shared, c) := c.store key value
        ⟨.ok shared, fresh.attempted, c, fresh.files⟩

end BuildCache

end Quasiquote.Native
