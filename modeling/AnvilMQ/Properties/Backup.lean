import AnvilMQ.Backup
import AnvilMQ.Transition.Run

/-!
# Snapshots

A backup cycle answers with the path of the snapshot it has written.  It publishes the snapshot
first and prunes afterwards, and the prune keeps the names that sort last.  The name of a snapshot
is the reading of the clock, so what sorts last is what was written last only while the clock does
not go back and nothing else in the directory matches.
-/

namespace AnvilMQ

open Rust Relational Text Transition

/-! ## Names -/

theorem isSnapshot_snapshotName (timestamp : ℤ) : isSnapshot (snapshotName timestamp) = true := by
  rw [isSnapshot, Bool.and_eq_true, List.isPrefixOf_iff_prefix, List.isSuffixOf_iff_suffix]
  rw [snapshotName, List.append_assoc]
  refine ⟨List.prefix_append _ _, ?_⟩
  rw [← List.append_assoc]
  exact List.suffix_append _ _

/-- A snapshot that is being written is not taken for a complete one. -/
theorem isSnapshot_tempName (base : FileName) : isSnapshot (tempName base) = false := by
  show (snapshotPrefix.isPrefixOf (asciiByte '.' :: (base ++ ascii ".tmp")) && _) = false
  rfl

/-- The bytes of the digits are in their order. -/
theorem asciiByte_digitChar_lt (a b : ℕ) (lt : a < b) (digit : b < 10) :
    asciiByte a.digitChar < asciiByte b.digitChar := by
  have table : ∀ b < 10, ∀ a < b, asciiByte a.digitChar < asciiByte b.digitChar := by decide
  exact table b digit a lt

/-- **Names sort as the readings they are made from**, through the year 2286. -/
theorem snapshotName_lt {s t : ℤ} (nonnegative : 0 ≤ s) (lt : s < t) (fits : t < 10 ^ tsWidth) :
    snapshotName s < snapshotName t := by
  unfold snapshotName formatTimestamp
  rw [if_neg nonnegative.not_gt, if_neg (nonnegative.trans lt.le).not_gt, List.append_assoc,
    List.append_assoc]
  have fits' : t.natAbs < 10 ^ tsWidth := by
    have cast : ((10 ^ tsWidth : ℕ) : ℤ) = 10 ^ tsWidth := by norm_cast
    omega
  refine List.append_left_lt (append_lt_append ?_ ?_)
  · rw [List.length_map, List.length_map, length_zeroPadded (by decide) fits',
      length_zeroPadded (by decide) (by omega)]
  · exact zeroPadded_lt asciiByte_digitChar_lt (by decide) fits' (by omega)

/-! ## The calls -/

section Calls

variable {sys : BackupSystem} {dir dir' : BackupDir} {name : FileName}

theorem removeFile_ok (ok : removeFile sys dir name = .ok dir') : dir' = dir.remove name := by
  rw [removeFile] at ok
  split at ok
  · cases ok
  · split at ok
    · cases ok
    · cases answer : sys.removeFile name with
      | error e =>
        rw [answer] at ok
        cases ok
      | ok _ =>
        rw [answer] at ok
        exact (Except.ok.inj ok).symm

/-- A removal that may fail removes the name or changes nothing. -/
theorem removeFileBestEffort_cases (sys : BackupSystem) (dir : BackupDir) (name : FileName) :
    removeFileBestEffort sys dir name = dir.remove name ∨
      removeFileBestEffort sys dir name = dir := by
  rw [removeFileBestEffort]
  cases removed : removeFile sys dir name with
  | error e => exact .inr rfl
  | ok dir' => exact .inl (removeFile_ok removed)

/-- The loop of the prune removes the names it is given. -/
theorem removeEach_ok {path : String} {names : List FileName} {n removed : ℕ}
    (ok : removeEach sys path names n dir = (.ok removed, dir')) :
    ∀ entry, entry ∈ dir'.entries ↔ entry ∈ dir.entries ∧ entry.name ∉ names := by
  induction names generalizing n dir with
  | nil =>
    cases ok
    simp
  | cons name rest ih =>
    intro entry
    rw [removeEach] at ok
    split at ok
    · cases ok
    · rename_i middle removed
      obtain rfl := removeFile_ok removed
      rw [ih ok entry, BackupDir.remove, Table.mem_erase, List.mem_cons, not_or, and_assoc]

/-- A copy that was written is a new file under the name. -/
theorem vacuumInto_ok (ok : vacuumInto sys dir name = (.ok (), dir')) :
    ∃ size, dir' = dir.write name size := by
  rw [vacuumInto] at ok
  split at ok
  · cases ok
  · split at ok
    · cases ok
    · split at ok
      · cases ok
        exact ⟨_, rfl⟩
      · cases ok
      · cases ok

/-- A written snapshot is one more file of the directory. -/
theorem writeSnapshot_ok {dbPath : String} {temp : BackupPath}
    (ok : writeSnapshot sys dbPath temp dir = (.ok (), dir')) :
    ∃ size, dir' = dir.write temp.name size := by
  rw [writeSnapshot] at ok
  split at ok
  · cases ok
  · split at ok
    · cases ok
    · dsimp only at ok
      split at ok
      · cases ok
      · rename_i written
        cases ok
        exact vacuumInto_ok written

/-- A renamed entry stands under the new name, and what stood there and the old name are gone. -/
theorem rename_ok {source target : FileName} (ok : rename sys dir source target = .ok dir') :
    ∃ moved ∈ dir.entries, moved.name = source ∧ ∀ entry, entry ∈ dir'.entries ↔
      entry = { moved with name := target } ∨
        entry ∈ dir.entries ∧ entry.name ≠ source ∧ entry.name ≠ target := by
  rw [rename] at ok
  split at ok
  · cases ok
  · rename_i moved found
    split at ok
    · cases ok
    · cases answer : sys.rename with
      | error e =>
        rw [answer] at ok
        cases ok
      | ok _ =>
        rw [answer] at ok
        obtain rfl := Except.ok.inj ok
        obtain ⟨mem, rfl⟩ := Table.find?_eq_some.mp found
        refine ⟨moved, mem, rfl, fun entry => ?_⟩
        rw [BackupDir.move, Table.mem_replace, Table.mem_erase, and_assoc]

/-- **What publishing does.**  The new snapshot stands under its name, what stood there and the
temporary file are gone, and the rest is as it was. -/
theorem publish_ok {dbPath : String} {final : BackupPath}
    (ok : publish sys dbPath final dir = (.ok (), dir')) :
    ∃ size, ∀ entry, entry ∈ dir'.entries ↔
      entry = { name := final.name, kind := .file, size, written := dir.next } ∨
        entry ∈ dir.entries ∧ entry.name ≠ tempName final.name ∧ entry.name ≠ final.name := by
  rw [publish] at ok
  dsimp only at ok
  -- whether or not a stale temporary file could be removed
  generalize cleared : removeFileBestEffort sys dir (tempName final.name) = clear at ok
  have same : clear.next = dir.next ∧ ∀ entry, entry.name ≠ tempName final.name →
      (entry ∈ clear.entries ↔ entry ∈ dir.entries) := by
    rcases removeFileBestEffort_cases sys dir (tempName final.name) with removed | kept
    · rw [← cleared, removed]
      refine ⟨rfl, fun entry other => ?_⟩
      rw [BackupDir.remove, Table.mem_erase, and_iff_left other]
    · rw [← cleared, kept]
      exact ⟨rfl, fun _ _ => Iff.rfl⟩
  split at ok
  · cases ok
  · rename_i written wrote
    obtain ⟨size, rfl⟩ := writeSnapshot_ok wrote
    split at ok
    · cases ok
    · rename_i published renamed
      cases ok
      obtain ⟨moved, mem, temp, exact_⟩ := rename_ok renamed
      refine ⟨size, fun entry => ?_⟩
      rw [exact_ entry, BackupDir.write, Table.mem_replace]
      have new : moved =
          { name := tempName final.name, kind := .file, size, written := clear.next } :=
        (Table.mem_replace.mp mem).resolve_right fun old => old.2 temp
      rw [new, same.1]
      refine or_congr_right ⟨?_, ?_⟩
      · rintro ⟨rfl | ⟨before, -⟩, notTemp, notFinal⟩
        · exact absurd rfl notTemp
        · exact ⟨(same.2 entry notTemp).mp before, notTemp, notFinal⟩
      · rintro ⟨before, notTemp, notFinal⟩
        exact ⟨.inr ⟨(same.2 entry notTemp).mpr before, notTemp⟩, notTemp, notFinal⟩

end Calls

/-! ## The prune -/

/-- The number of snapshots whose names sort after a name. -/
def BackupDir.ahead (dir : BackupDir) (name : FileName) : ℕ :=
  dir.entries.count fun entry => isSnapshot entry.name && decide (name < entry.name)

/-- The names of the snapshots of a directory. -/
def BackupDir.snapshots (dir : BackupDir) : List FileName :=
  (dir.entries.rows.map DirEntry.name).filter isSnapshot

section Prune

variable {sys : BackupSystem} {dir dir' : BackupDir} {path : String} {retain pruned : ℕ}

theorem BackupDir.nodup_snapshots (dir : BackupDir) : dir.snapshots.Nodup :=
  dir.entries.nodup.filter _

theorem BackupDir.mem_snapshots {name : FileName} :
    name ∈ dir.snapshots ↔ (∃ entry ∈ dir.entries, entry.name = name) ∧ isSnapshot name = true := by
  rw [BackupDir.snapshots, List.mem_filter, List.mem_map]
  exact Iff.rfl

theorem BackupDir.ahead_eq (dir : BackupDir) (name : FileName) :
    dir.ahead name = dir.snapshots.countP fun other => decide (name < other) := by
  rw [BackupDir.ahead, Table.count, BackupDir.snapshots, List.countP_filter, List.countP_map]
  exact List.countP_congr fun entry _ => by simp [and_comm]

/-- A prune that succeeds has removed the snapshots in excess. -/
theorem prune_removes (ok : prune sys path retain dir = (.ok pruned, dir')) :
    ∀ entry, entry ∈ dir'.entries ↔
      entry ∈ dir.entries ∧ entry.name ∉ excess retain dir.snapshots := by
  rw [prune] at ok
  split at ok
  · cases ok
  · cases ok
  · dsimp only at ok
    split at ok
    · exact removeEach_ok ok
    · rename_i few
      cases ok
      have noExcess : excess retain dir.snapshots = [] := by
        rw [excess, BackupDir.snapshots, Nat.sub_eq_zero_of_le (not_lt.mp few), List.take_zero]
      simp [noExcess]

/-- **What a prune keeps.**  A snapshot stays when fewer than `retain` others sort after it, and
what is no snapshot stays. -/
theorem prune_ok (ok : prune sys path retain dir = (.ok pruned, dir')) (entry : DirEntry) :
    entry ∈ dir'.entries ↔ entry ∈ dir.entries ∧
      (isSnapshot entry.name = true → dir.ahead entry.name < retain) := by
  rw [prune_removes ok entry, mem_excess dir.nodup_snapshots, BackupDir.mem_snapshots,
    ← BackupDir.ahead_eq]
  refine and_congr_right fun mem => ?_
  rw [and_assoc, and_iff_right ⟨entry, mem, rfl⟩, not_and, not_le]

/-- No more snapshots are left than are retained. -/
theorem prune_bounded (ok : prune sys path retain dir = (.ok pruned, dir')) :
    dir'.entries.count (fun entry => isSnapshot entry.name) ≤ retain := by
  have counted : dir'.entries.count (fun entry => isSnapshot entry.name) =
      dir'.snapshots.length := by
    rw [BackupDir.snapshots, ← List.countP_eq_length_filter, List.countP_map]
    rfl
  rw [counted]
  refine length_le_of_notMem_excess (l := dir.snapshots) dir'.nodup_snapshots fun name mem => ?_
  obtain ⟨⟨entry, left, rfl⟩, complete⟩ := BackupDir.mem_snapshots.mp mem
  obtain ⟨before, spared⟩ := (prune_removes ok entry).mp left
  exact ⟨BackupDir.mem_snapshots.mpr ⟨⟨entry, before, rfl⟩, complete⟩, spared⟩

end Prune

/-! ## The cycle -/

/-- The name of the snapshot of a cycle. -/
def BackupSystem.base (sys : BackupSystem) : FileName := snapshotName (unixMs (sys.instants 1))

/-- **The promise of a cycle that answers.**  The directory before it is `dir` and the one after it
`dir'`; the snapshot is published before the prune. -/
structure BackupPresent (sys : BackupSystem) (dbPath : String) (cfg : BackupConfig)
    (dir dir' : BackupDir) (outcome : BackupOutcome) : Prop where
  /-- A file stands at the path of the outcome. -/
  there : ∃ file ∈ dir'.entries, file.kind = .file ∧ outcome.path = ⟨trim cfg.dir, file.name⟩
  /-- No more snapshots are left than are retained. -/
  bounded : dir'.entries.count (fun entry => isSnapshot entry.name) ≤ cfg.retain
  /-- A snapshot that is gone was written before the one that was published. -/
  older : ∀ new ∈ (publish sys dbPath outcome.path dir).2.entries,
    outcome.path = ⟨trim cfg.dir, new.name⟩ → ∀ entry, isSnapshot entry.name = true →
      entry ∈ dir.entries ∨ entry ∈ (publish sys dbPath outcome.path dir).2.entries →
      entry ∉ dir'.entries → entry.written < new.written

section Cycle

variable {sys : BackupSystem} {dbPath : String} {cfg : BackupConfig} {dir dir' : BackupDir}
  {outcome : BackupOutcome}

/-- A cycle that answers has published and pruned. -/
theorem runBlocking_ok (ran : runBlocking sys dbPath cfg dir = (.ok (some outcome), dir')) :
    outcome.path = ⟨trim cfg.dir, sys.base⟩ ∧ ∃ published pruned,
      publish sys dbPath outcome.path dir = (.ok (), published) ∧
      prune sys (trim cfg.dir) cfg.retain published = (.ok pruned, dir') := by
  rw [runBlocking] at ran
  split at ran
  · cases ran
  · dsimp only at ran
    split at ran
    · cases ran
    · split at ran
      · cases ran
      · rename_i published publishes
        split at ran
        · cases ran
        · rename_i pruned left prunes
          cases ran
          exact ⟨rfl, published, pruned, publishes, prunes⟩

/-- Publishing does not change which snapshots sort after the new one. -/
theorem ahead_published {published : BackupDir} {path : String}
    (ok : publish sys dbPath ⟨path, sys.base⟩ dir = (.ok (), published)) :
    published.ahead sys.base = dir.ahead sys.base := by
  obtain ⟨size, entries⟩ := publish_ok ok
  -- neither the new snapshot nor what is gone sorts after it
  have same : ∀ entry, (isSnapshot entry.name && decide (sys.base < entry.name)) = true →
      (entry ∈ published.entries ↔ entry ∈ dir.entries) := by
    intro entry after
    obtain ⟨complete, later⟩ := Bool.and_eq_true_iff.mp after
    have later := of_decide_eq_true later
    have notTemp : entry.name ≠ tempName sys.base := by
      intro temp
      rw [temp, isSnapshot_tempName] at complete
      cases complete
    rw [entries entry]
    constructor
    · rintro (rfl | ⟨before, -⟩)
      · exact absurd later (lt_irrefl _)
      · exact before
    · intro before
      exact .inr ⟨before, notTemp, later.ne'⟩
  refine le_antisymm (Table.count_le_of_keys ?_) (Table.count_le_of_keys ?_)
  · intro entry mem after
    exact ⟨entry, (same entry after).mp mem, rfl, after⟩
  · intro entry mem after
    exact ⟨entry, (same entry after).mpr mem, rfl, after⟩

/-- A new snapshot with few enough ahead of it is kept. -/
theorem present_of_ahead_lt
    (ran : runBlocking sys dbPath cfg dir = (.ok (some outcome), dir'))
    (few : dir.ahead sys.base < cfg.retain) : BackupPresent sys dbPath cfg dir dir' outcome := by
  obtain ⟨path, published, pruned, publishes, prunes⟩ := runBlocking_ok ran
  rw [path] at publishes
  obtain ⟨size, entries⟩ := publish_ok publishes
  rw [← ahead_published publishes] at few
  let new : DirEntry := { name := sys.base, kind := .file, size, written := dir.next }
  have mem : new ∈ published.entries := (entries new).mpr (.inl rfl)
  have kept : new ∈ dir'.entries := (prune_ok prunes new).mpr ⟨mem, fun _ => few⟩
  refine ⟨⟨new, kept, rfl, path⟩, prune_bounded prunes, ?_⟩
  rw [path, publishes]
  intro file here same entry _ present gone
  have name : sys.base = file.name := congrArg BackupPath.name same
  obtain rfl : file = new := Table.eq_of_key_eq here mem name.symm
  -- whatever was there before the cycle was written before it
  rcases present with before | after
  · exact dir.earlier entry before
  · rcases (entries entry).mp after with rfl | ⟨before, -⟩
    · exact absurd kept gone
    · exact dir.earlier entry before

/-- **The promise is kept exactly when fewer snapshots than are retained sort after the new
one.**  The directory holds anything before the cycle, and the clock and the calls answer
anything. -/
theorem backup_present_iff
    (ran : runBlocking sys dbPath cfg dir = (.ok (some outcome), dir')) :
    BackupPresent sys dbPath cfg dir dir' outcome ↔ dir.ahead sys.base < cfg.retain := by
  constructor
  · intro present
    obtain ⟨path, published, pruned, publishes, prunes⟩ := runBlocking_ok ran
    rw [path] at publishes
    obtain ⟨file, left, -, same⟩ := present.there
    have name : sys.base = file.name := congrArg BackupPath.name (path.symm.trans same)
    have complete : isSnapshot file.name = true := name ▸ isSnapshot_snapshotName _
    have kept := ((prune_ok prunes file).mp left).2 complete
    rwa [← name, ahead_published publishes] at kept
  · exact present_of_ahead_lt ran

end Cycle

section Samples

/-- A cycle at a reading of the clock in milliseconds, on a system where every call succeeds. -/
def cycleAt (ms : ℤ) : BackupSystem where
  instants _ := ms * 1000000
  vacuum := .ok 4096
  lossy name := String.ofList (name.map fun byte => Char.ofNat byte)

/-- The configuration that keeps one snapshot. -/
def keepLast : BackupConfig := { enabled := true, retain := 1 }

/-- The directory after one cycle. -/
def firstBackup : BackupDir := (runBlocking (cycleAt 2000) "anvil.db" keepLast .empty).2

/-- What a cycle at a reading answers that prunes a number of snapshots. -/
def outcomeAt (ms : ℤ) (pruned : ℕ) : BackupOutcome where
  path := ⟨"backups", snapshotName ms⟩
  timestampMs := ms
  durationMs := 0
  sizeBytes := 4096
  pruned

/-- A later cycle replaces the one snapshot that is kept. -/
theorem later_backup_present :
    BackupPresent (cycleAt 3000) "anvil.db" keepLast firstBackup
      (runBlocking (cycleAt 3000) "anvil.db" keepLast firstBackup).2 (outcomeAt 3000 1) := by
  have answered : (runBlocking (cycleAt 3000) "anvil.db" keepLast firstBackup).1 =
    .ok (some (outcomeAt 3000 1)) := by decide +kernel
  have ran : runBlocking (cycleAt 3000) "anvil.db" keepLast firstBackup =
      (.ok (some (outcomeAt 3000 1)),
        (runBlocking (cycleAt 3000) "anvil.db" keepLast firstBackup).2) := by
    rw [← answered]
  have few : firstBackup.ahead (cycleAt 3000).base < keepLast.retain := by decide +kernel
  exact (backup_present_iff ran).mpr few

/-- **A cycle removes what it has written**, after the clock was set back by a second.  It answers
with the path of its snapshot, and the directory holds the older one. -/
theorem snapshot_pruned_at_once :
    keepLast.validate = .ok () ∧
    (runBlocking (cycleAt 1000) "anvil.db" keepLast firstBackup).1 =
      .ok (some (outcomeAt 1000 1)) ∧
    (runBlocking (cycleAt 1000) "anvil.db" keepLast firstBackup).2.entries.rows.map
      DirEntry.name = [snapshotName 2000] ∧
    ¬ BackupPresent (cycleAt 1000) "anvil.db" keepLast firstBackup
      (runBlocking (cycleAt 1000) "anvil.db" keepLast firstBackup).2 (outcomeAt 1000 1) := by
  have left : (runBlocking (cycleAt 1000) "anvil.db" keepLast firstBackup).2.entries.rows.map
    DirEntry.name = [snapshotName 2000] := by decide +kernel
  refine ⟨by decide +kernel, by decide +kernel, left, fun present => ?_⟩
  obtain ⟨file, mem, -, same⟩ := present.there
  have name : file.name = snapshotName 1000 := (congrArg BackupPath.name same).symm
  have listed : file.name ∈ [snapshotName 2000] := by
    rw [← left]
    exact List.mem_map_of_mem mem
  rw [name] at listed
  exact absurd listed (by decide +kernel)

end Samples

/-! ## Runs -/

section Runs

variable {sys : BackupSystem} {dbPath : String} {cfg : BackupConfig} {dir dir' : BackupDir}

/-- Every entry of the second directory is one of the first or has a name that satisfies `P`. -/
def AddsOnly (P : FileName → Prop) (dir dir' : BackupDir) : Prop :=
  ∀ entry ∈ dir'.entries, entry ∈ dir.entries ∨ P entry.name

namespace AddsOnly

variable {P : FileName → Prop} {dir'' : BackupDir} {name : FileName}

theorem refl (P : FileName → Prop) (dir : BackupDir) : AddsOnly P dir dir := fun _ => .inl

theorem trans (first : AddsOnly P dir dir') (second : AddsOnly P dir' dir'') :
    AddsOnly P dir dir'' :=
  fun entry mem => (second entry mem).elim (first entry) .inr

theorem remove (P : FileName → Prop) (dir : BackupDir) (name : FileName) :
    AddsOnly P dir (dir.remove name) := fun _ mem => .inl (Table.mem_erase.mp mem).1

theorem write (named : P name) (size : ℕ) : AddsOnly P dir (dir.write name size) := by
  intro entry mem
  rcases Table.mem_replace.mp mem with rfl | ⟨before, -⟩
  · exact .inr named
  · exact .inl before

theorem removeFileBestEffort (P : FileName → Prop) (sys : BackupSystem) (dir : BackupDir)
    (name : FileName) : AddsOnly P dir (removeFileBestEffort sys dir name) := by
  rcases removeFileBestEffort_cases sys dir name with removed | kept
  · rw [removed]
    exact remove P dir name
  · rw [kept]
    exact refl P dir

theorem vacuumInto (named : P name) : AddsOnly P dir (vacuumInto sys dir name).2 := by
  unfold AnvilMQ.vacuumInto
  split
  · exact refl P dir
  · split
    · exact refl P dir
    · split
      · exact write named _
      · exact write named _
      · exact refl P dir

theorem writeSnapshot {temp : BackupPath} (named : P temp.name) :
    AddsOnly P dir (writeSnapshot sys dbPath temp dir).2 := by
  unfold AnvilMQ.writeSnapshot
  split
  · exact refl P dir
  · split
    · exact refl P dir
    · have copied : AddsOnly P dir (AnvilMQ.vacuumInto sys dir temp.name).2 := vacuumInto named
      dsimp only
      split
      · rename_i left
        rwa [left] at copied
      · rename_i left
        rwa [left] at copied

/-- A publication adds no other names. -/
theorem publish {final : BackupPath} (named : P final.name) (temporary : P (tempName final.name)) :
    AddsOnly P dir (publish sys dbPath final dir).2 := by
  unfold AnvilMQ.publish
  dsimp only
  have cleared := removeFileBestEffort P sys dir (tempName final.name)
  have written : AddsOnly P (AnvilMQ.removeFileBestEffort sys dir (tempName final.name))
      (AnvilMQ.writeSnapshot sys dbPath { final with name := tempName final.name }
        (AnvilMQ.removeFileBestEffort sys dir (tempName final.name))).2 :=
    writeSnapshot temporary
  split
  · rename_i left
    rw [left] at written
    exact cleared.trans (written.trans (removeFileBestEffort P sys _ _))
  · rename_i left
    rw [left] at written
    split
    · exact cleared.trans (written.trans (removeFileBestEffort P sys _ _))
    · rename_i renamed
      obtain ⟨moved, -, -, entries⟩ := rename_ok renamed
      refine cleared.trans (written.trans fun entry mem => ?_)
      rcases (entries entry).mp mem with rfl | ⟨before, -⟩
      · exact .inr named
      · exact .inl before

theorem removeEach (P : FileName → Prop) {path : String} {names : List FileName} {n : ℕ} :
    AddsOnly P dir (removeEach sys path names n dir).2 := by
  induction names generalizing n dir with
  | nil => exact refl P dir
  | cons name rest ih =>
    rw [AnvilMQ.removeEach]
    split
    · exact refl P dir
    · rename_i removed
      obtain rfl := removeFile_ok removed
      exact (remove P dir name).trans ih

theorem prune (P : FileName → Prop) {path : String} {retain : ℕ} :
    AddsOnly P dir (prune sys path retain dir).2 := by
  unfold AnvilMQ.prune
  split
  · exact refl P dir
  · exact refl P dir
  · dsimp only
    split
    · exact removeEach P
    · exact refl P dir

/-- A cycle adds the names of its snapshot and nothing else, also where it fails. -/
theorem runBlocking (named : P sys.base) (temporary : P (tempName sys.base)) :
    AddsOnly P dir (runBlocking sys dbPath cfg dir).2 := by
  unfold AnvilMQ.runBlocking
  split
  · exact refl P dir
  · dsimp only
    split
    · exact refl P dir
    · have published : AddsOnly P dir
          (AnvilMQ.publish sys dbPath ⟨trim cfg.dir, sys.base⟩ dir).2 := publish named temporary
      rw [BackupSystem.base] at published
      split
      · rename_i left
        rwa [left] at published
      · rename_i middle left
        rw [left] at published
        have pruned : AddsOnly P middle
          (AnvilMQ.prune sys (trim cfg.dir) cfg.retain middle).2 := prune P
        split
        · rename_i left'
          rw [left'] at pruned
          exact published.trans pruned
        · rename_i left'
          rw [left'] at pruned
          exact published.trans pruned

end AddsOnly

/-- Every snapshot is named after a reading of the clock up to `now`. -/
def Dated (now : ℤ) (dir : BackupDir) : Prop :=
  ∀ entry ∈ dir.entries, isSnapshot entry.name = true →
    ∃ t, 0 ≤ t ∧ t ≤ now ∧ entry.name = snapshotName t

/-- The timestamp of a cycle. -/
def BackupSystem.timestampMs (sys : BackupSystem) : ℤ := unixMs (sys.instants 1)

theorem Dated.runBlocking {now : ℤ} (dated : Dated now dir) (nonnegative : 0 ≤ sys.timestampMs)
    (past : sys.timestampMs ≤ now) : Dated now (runBlocking sys dbPath cfg dir).2 := by
  intro entry mem complete
  have adds : AddsOnly (fun name => name = sys.base ∨ name = tempName sys.base) dir
    (AnvilMQ.runBlocking sys dbPath cfg dir).2 := AddsOnly.runBlocking (.inl rfl) (.inr rfl)
  rcases adds entry mem with before | new | temporary
  · exact dated entry before complete
  · exact ⟨sys.timestampMs, nonnegative, past, new⟩
  · rw [temporary, isSnapshot_tempName] at complete
    cases complete

/-- Nothing dated sorts after the present. -/
theorem Dated.ahead {now : ℤ} (dated : Dated now dir) (fits : now < 10 ^ tsWidth) :
    dir.ahead (snapshotName now) = 0 := by
  refine List.countP_eq_zero.mpr fun entry mem after => ?_
  obtain ⟨complete, later⟩ := Bool.and_eq_true_iff.mp after
  obtain ⟨t, nonnegative, past, name⟩ := dated entry mem complete
  have later := of_decide_eq_true later
  rw [name] at later
  rcases past.eq_or_lt with rfl | before
  · exact lt_irrefl _ later
  · exact lt_asymm later (snapshotName_lt nonnegative before fits)

/-- The directory after a run of cycles. -/
def afterCycles (dbPath : String) (cfg : BackupConfig) (dir : BackupDir)
    (cycles : List BackupSystem) : BackupDir :=
  after (fun dir sys => (runBlocking sys dbPath cfg dir).2) dir cycles

theorem Dated.afterCycles {now : ℤ} (dated : Dated now dir) {cycles : List BackupSystem}
    (past : ∀ sys ∈ cycles, 0 ≤ sys.timestampMs ∧ sys.timestampMs ≤ now) :
    Dated now (afterCycles dbPath cfg dir cycles) := by
  induction cycles generalizing dir with
  | nil => exact dated
  | cons sys rest ih =>
    obtain ⟨nonnegative, before⟩ := past sys List.mem_cons_self
    have next : Dated now (AnvilMQ.runBlocking sys dbPath cfg dir).2 :=
      dated.runBlocking nonnegative before
    rw [AnvilMQ.afterCycles, after_cons]
    exact ih next fun later mem => past later (List.mem_cons_of_mem sys mem)

/-- **While the clock does not go back every cycle keeps its promise.**  The run starts in a
directory without snapshots, its cycles may fail anywhere, and the last reading is before the year
2286. -/
theorem backups_present {cycles : List BackupSystem} {outcome : BackupOutcome}
    (valid : cfg.validate = .ok ())
    (started : ∀ entry ∈ dir.entries, isSnapshot entry.name = false)
    (steady : ∀ before ∈ cycles, 0 ≤ before.timestampMs ∧ before.timestampMs ≤ sys.timestampMs)
    (fits : sys.timestampMs < 10 ^ tsWidth)
    (ran : runBlocking sys dbPath cfg (afterCycles dbPath cfg dir cycles) =
      (.ok (some outcome), dir')) :
    BackupPresent sys dbPath cfg (afterCycles dbPath cfg dir cycles) dir' outcome := by
  have initial : Dated sys.timestampMs dir := by
    intro entry mem complete
    rw [started entry mem] at complete
    cases complete
  have dated : Dated sys.timestampMs (afterCycles dbPath cfg dir cycles) :=
    initial.afterCycles steady
  have positive : 0 < cfg.retain := by
    simp only [BackupConfig.validate, guard_eq_ok] at valid
    omega
  refine present_of_ahead_lt ran ?_
  show (afterCycles dbPath cfg dir cycles).ahead (snapshotName sys.timestampMs) < cfg.retain
  rw [dated.ahead fits]
  exact positive

end Runs

/-- A cycle that cannot publish its snapshot, and one that does. -/
def twoCycles : List BackupSystem := [{ cycleAt 1000 with rename := .error "" }, cycleAt 2000]

/-- The cycle after them keeps its promise. -/
theorem third_backup_present : BackupPresent (cycleAt 3000) "anvil.db" keepLast
    (afterCycles "anvil.db" keepLast .empty twoCycles)
    (runBlocking (cycleAt 3000) "anvil.db" keepLast
      (afterCycles "anvil.db" keepLast .empty twoCycles)).2 (outcomeAt 3000 1) := by
  have answered : (runBlocking (cycleAt 3000) "anvil.db" keepLast
      (afterCycles "anvil.db" keepLast .empty twoCycles)).1 = .ok (some (outcomeAt 3000 1)) := by
    decide +kernel
  refine backups_present (by decide +kernel) (fun _ mem => (List.not_mem_nil mem).elim) ?_
    (by decide +kernel) (Prod.ext answered rfl)
  simp only [twoCycles, List.mem_cons, List.not_mem_nil, or_false, forall_eq_or_imp, forall_eq]
  decide +kernel

end AnvilMQ
