import Mathlib.Data.List.Lex
import AnvilMQ.Relational.Select
import AnvilMQ.Relational.Table
import AnvilMQ.Rust
import AnvilMQ.Text.Decimal

/-!
# Local snapshots

`src/backup.rs`: the configuration with its validator, one backup cycle and the prune of old
snapshots.  The backup directory is a state that the cycle passes on, also where it fails; what
the operating system and SQLite answer is a parameter (`BackupSystem`).

A file name is a list of bytes, as on Unix, and paths of one directory compare by their names.
Every entry carries the serial number of the write that made it: nothing reads it, and results
about what was written before what are stated with it.
-/

namespace AnvilMQ

open Rust Relational Text

/-! ## Configuration -/

/-- `BackupConfig`. -/
structure BackupConfig where
  enabled : Bool := false
  intervalMs : ℕ := 120000
  dir : String := "backups"
  retain : ℕ := 3
deriving DecidableEq

/-- `BackupConfig::validate`. -/
def BackupConfig.validate (cfg : BackupConfig) : Except String Unit :=
  let retain := cfg.retain
  if cfg.intervalMs = 0 then .error "ANVILMQ_BACKUP_INTERVAL_MS must be positive"
  else if retain < 1 then .error s!"ANVILMQ_BACKUP_RETAIN={retain} must be >= 1"
  else if cfg.enabled && isBlank cfg.dir then
    .error "ANVILMQ_BACKUP_DIR must be non-empty when backups are enabled"
  else .ok ()

/-! ## Names -/

/-- A file name. -/
abbrev FileName := List (Fin 256)

/-- The byte of an ASCII character. -/
def asciiByte (c : Char) : Fin 256 := Fin.ofNat 256 c.toNat

/-- The bytes of an ASCII text. -/
def ascii (text : String) : FileName := text.toList.map asciiByte

/-- `SNAPSHOT_PREFIX`. -/
def snapshotPrefix : FileName := ascii "snapshot-"

/-- `SNAPSHOT_SUFFIX`. -/
def snapshotSuffix : FileName := ascii ".db"

/-- `TS_WIDTH`. -/
def tsWidth : ℕ := 13

/-- `format!("{:0width$}", timestamp)` of an `i64`: the sign comes before the zeros. -/
def formatTimestamp (timestamp : ℤ) : List Char :=
  if timestamp < 0 then '-' :: zeroPadded (tsWidth - 1) timestamp.natAbs
  else zeroPadded tsWidth timestamp.natAbs

/-- The name of the snapshot of a timestamp. -/
def snapshotName (timestamp : ℤ) : FileName :=
  snapshotPrefix ++ (formatTimestamp timestamp).map asciiByte ++ snapshotSuffix

/-- The name of a snapshot that is being written. -/
def tempName (base : FileName) : FileName := ascii "." ++ base ++ ascii ".tmp"

/-- `name.starts_with(SNAPSHOT_PREFIX) && name.ends_with(SNAPSHOT_SUFFIX)`.  The lossy decoding
of a name leaves its ASCII bytes as they are. -/
def isSnapshot (name : FileName) : Bool :=
  snapshotPrefix.isPrefixOf name && snapshotSuffix.isSuffixOf name

/-! ## The backup directory -/

/-- What a name of a directory stands for. -/
inductive EntryKind
  | file
  | directory
deriving DecidableEq

/-- An entry of the backup directory. -/
structure DirEntry where
  name : FileName
  kind : EntryKind
  size : ℕ
  /-- The serial number of the write that made the entry. -/
  written : ℕ
deriving DecidableEq

/-- The backup directory: one entry for a name, each written before the next write. -/
structure BackupDir where
  entries : Table DirEntry.name
  next : ℕ
  earlier : ∀ entry ∈ entries, entry.written < next

namespace BackupDir

/-- The directory that holds nothing. -/
def empty : BackupDir := ⟨.empty, 0, fun _ mem => absurd mem (Table.notMem_empty _)⟩

/-- The directory without a name. -/
def remove (dir : BackupDir) (name : FileName) : BackupDir where
  entries := dir.entries.erase name
  next := dir.next
  earlier entry mem := dir.earlier entry (Table.mem_erase.mp mem).1

/-- A new file, in the place of what the name stood for. -/
def write (dir : BackupDir) (name : FileName) (size : ℕ) : BackupDir where
  entries := dir.entries.replace { name, kind := .file, size, written := dir.next }
  next := dir.next + 1
  earlier entry mem := by
    rcases Table.mem_replace.mp mem with rfl | ⟨before, -⟩
    · exact Nat.lt_succ_self _
    · exact Nat.lt_succ_of_lt (dir.earlier entry before)

/-- An entry under another name, in the place of what that name stood for. -/
def move (dir : BackupDir) (entry : DirEntry) (mem : entry ∈ dir.entries) (name : FileName) :
    BackupDir where
  entries := (dir.entries.erase entry.name).replace { entry with name }
  next := dir.next
  earlier other moved := by
    rcases Table.mem_replace.mp moved with rfl | ⟨before, -⟩
    · exact dir.earlier entry mem
    · exact dir.earlier other (Table.mem_erase.mp before).1

end BackupDir

/-! ## The operating system and SQLite -/

/-- What the calls of one backup cycle answer. -/
structure BackupSystem where
  /-- `SystemTime::now()` in nanoseconds since the epoch, in the order of the readings. -/
  instants : ℕ → ℤ
  createDirAll : Except String Unit := .ok ()
  /-- `Connection::open`. -/
  openDb : Except String Unit := .ok ()
  busyTimeout : Except String Unit := .ok ()
  /-- `VACUUM INTO`: the size of the copy, or the error and the size of what is left behind. -/
  vacuum : Except (String × Option ℕ) ℕ
  rename : Except String Unit := .ok ()
  /-- Whether `metadata` can be read. -/
  metadata : Bool := true
  readDir : Except String Unit := .ok ()
  readEntry : Except String Unit := .ok ()
  /-- `remove_file` on a file that is there. -/
  removeFile : FileName → Except String Unit := fun _ => .ok ()
  /-- `to_string_lossy`. -/
  lossy : FileName → String

/-- A path: `dir.join(name)`. -/
structure BackupPath where
  dir : String
  name : FileName
deriving DecidableEq

/-- `path.display()`. -/
def BackupPath.display (path : BackupPath) (sys : BackupSystem) : String :=
  let separator := if path.dir.isEmpty || path.dir.toList.getLast? = some '/' then "" else "/"
  path.dir ++ separator ++ sys.lossy path.name

/-- `std::fs::remove_file`. -/
def removeFile (sys : BackupSystem) (dir : BackupDir) (name : FileName) :
    Except String BackupDir :=
  match dir.entries.find? name with
  | none => .error "No such file or directory (os error 2)"
  | some entry =>
    if entry.kind = .directory then .error "Is a directory (os error 21)"
    else (sys.removeFile name).map fun _ => dir.remove name

/-- `let _ = std::fs::remove_file(..)`. -/
def removeFileBestEffort (sys : BackupSystem) (dir : BackupDir) (name : FileName) : BackupDir :=
  (removeFile sys dir name).toOption.getD dir

/-- `std::fs::rename` of a file, which replaces a file and not a directory. -/
def rename (sys : BackupSystem) (dir : BackupDir) (source target : FileName) :
    Except String BackupDir :=
  match found : dir.entries.find? source with
  | none => .error "No such file or directory (os error 2)"
  | some entry =>
    if (dir.entries.find? target).any fun old => decide (old.kind = .directory) then
      .error "Is a directory (os error 21)"
    else sys.rename.map fun _ => dir.move entry (Table.mem_of_find? found) target

/-- `VACUUM INTO`, which refuses a file that holds anything. -/
def vacuumInto (sys : BackupSystem) (dir : BackupDir) (name : FileName) :
    Except String Unit × BackupDir :=
  if (dir.entries.find? name).any fun old => decide (old.kind = .directory) then
    (.error "unable to open database file", dir)
  else if (dir.entries.find? name).any fun old => decide (0 < old.size) then
    (.error "output file already exists", dir)
  else
    match sys.vacuum with
    | .ok size => (.ok (), dir.write name size)
    | .error (error, some size) => (.error error, dir.write name size)
    | .error (error, none) => (.error error, dir)

/-! ## The cycle -/

/-- `is_memory_path`. -/
def isMemoryPath (path : String) : Bool :=
  let trimmed := trim path
  trimmed.isEmpty || contains trimmed ":memory:" || contains trimmed "mode=memory"

/-- Milliseconds between two instants, `0` when the second comes before the first. -/
def millisBetween (since now : ℤ) : ℤ :=
  if now < since then 0 else asI64 ((now - since) / 1000000).toNat

/-- `unix_ms`. -/
def unixMs (instant : ℤ) : ℤ := millisBetween 0 instant

/-- `BackupOutcome`. -/
structure BackupOutcome where
  path : BackupPath
  timestampMs : ℤ
  durationMs : ℤ
  sizeBytes : ℤ
  pruned : ℕ
deriving DecidableEq

/-- `write_snapshot`. -/
def writeSnapshot (sys : BackupSystem) (dbPath : String) (temp : BackupPath) (dir : BackupDir) :
    Except String Unit × BackupDir :=
  match sys.openDb with
  | .error error => (.error s!"open {dbPath} for backup: {error}", dir)
  | .ok () =>
    match sys.busyTimeout with
    | .error error => (.error s!"set busy_timeout for backup: {error}", dir)
    | .ok () =>
      let target := temp.display sys
      match vacuumInto sys dir temp.name with
      | (.error error, dir) => (.error s!"VACUUM INTO {target}: {error}", dir)
      | (.ok (), dir) => (.ok (), dir)

/-- The part of `run_blocking` that writes the snapshot and gives it its final name. -/
def publish (sys : BackupSystem) (dbPath : String) (final : BackupPath) (dir : BackupDir) :
    Except String Unit × BackupDir :=
  let temp : BackupPath := { final with name := tempName final.name }
  let dir := removeFileBestEffort sys dir temp.name
  match writeSnapshot sys dbPath temp dir with
  | (.error error, dir) => (.error error, removeFileBestEffort sys dir temp.name)
  | (.ok (), dir) =>
    match rename sys dir temp.name final.name with
    | .error error =>
      let path := final.display sys
      (.error s!"failed to publish snapshot {path}: {error}",
        removeFileBestEffort sys dir temp.name)
    | .ok dir => (.ok (), dir)

/-- The loop of `prune`: the first error ends it. -/
def removeEach (sys : BackupSystem) (path : String) :
    List FileName → ℕ → BackupDir → Except String ℕ × BackupDir
  | [], removed, dir => (.ok removed, dir)
  | name :: rest, removed, dir =>
    match removeFile sys dir name with
    | .error error =>
      let path := BackupPath.display ⟨path, name⟩ sys
      (.error s!"prune snapshot {path}: {error}", dir)
    | .ok dir => removeEach sys path rest (removed + 1) dir

/-- `prune`: keep the `retain` snapshots whose names sort last. -/
def prune (sys : BackupSystem) (path : String) (retain : ℕ) (dir : BackupDir) :
    Except String ℕ × BackupDir :=
  match sys.readDir, sys.readEntry with
  | .error error, _ => (.error s!"read backup dir {path}: {error}", dir)
  | .ok (), .error error => (.error s!"read backup dir entry: {error}", dir)
  | .ok (), .ok () =>
    let snapshots := (dir.entries.rows.map DirEntry.name).filter isSnapshot
    if retain < snapshots.length then removeEach sys path (excess retain snapshots) 0 dir
    else (.ok 0, dir)

/-- `run_blocking`. -/
def runBlocking (sys : BackupSystem) (dbPath : String) (cfg : BackupConfig) (dir : BackupDir) :
    Except String (Option BackupOutcome) × BackupDir :=
  if isMemoryPath dbPath then (.ok none, dir)
  else
    let path := trim cfg.dir
    match sys.createDirAll with
    | .error error => (.error s!"failed to create backup dir {path}: {error}", dir)
    | .ok () =>
      let started := sys.instants 0
      let timestampMs := unixMs (sys.instants 1)
      let final : BackupPath := ⟨path, snapshotName timestampMs⟩
      match publish sys dbPath final dir with
      | (.error error, dir) => (.error error, dir)
      | (.ok (), dir) =>
        let sizeBytes :=
          if sys.metadata then (dir.entries.find? final.name).elim 0 fun file => asI64 file.size
          else 0
        match prune sys path cfg.retain dir with
        | (.error error, dir) => (.error error, dir)
        | (.ok pruned, dir) =>
          let durationMs := millisBetween started (sys.instants 2)
          (.ok (some { path := final, timestampMs, durationMs, sizeBytes, pruned }), dir)

end AnvilMQ
