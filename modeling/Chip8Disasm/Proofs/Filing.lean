import Chip8Disasm.Command.Directory
import Chip8Disasm.Proofs.Streaming

/-! Files. A run knows a file system by its answers. What they tell is said through a view of the files, which the run
    does not have. -/

namespace Chip8Disasm.Command

section
variable {σ φ : Type}

/-- Bytes are read from a path. -/
def FileSystem.Reads (fs : FileSystem σ φ) (d : σ) (path : String) (bytes : List UInt8) : Prop :=
  fs.load path d = .ok bytes

/-- A file system as the files that there are in each of its states. -/
structure View (σ φ : Type) where
  /-- The file that a path leads to. -/
  resolve (path : String) (d : σ) : Option φ
  /-- What a file holds, if there is one. -/
  content (file : φ) (d : σ) : Option (List UInt8)

namespace View

/-- The file at a path holds these bytes. -/
def Holds (view : View σ φ) (d : σ) (path : String) (bytes : List UInt8) : Prop :=
  ∃ file, view.resolve path d = some file ∧ view.content file d = some bytes

/-- From one state to another only one file changes. Every other holds what it held and stands where it stood. -/
def OnlyChanges (view : View σ φ) (file : φ) (before after : σ) : Prop :=
  ∀ other ≠ file, view.content other after = view.content other before ∧
    ∀ path, view.resolve path after = some other ↔ view.resolve path before = some other

theorem OnlyChanges.trans {view : View σ φ} {file : φ} {d d' d'' : σ} (first : view.OnlyChanges file d d')
    (second : view.OnlyChanges file d' d'') : view.OnlyChanges file d d'' := by
  intro other different
  obtain ⟨content, resolve⟩ := first other different
  obtain ⟨content', resolve'⟩ := second other different
  exact ⟨content'.trans content, fun path => (resolve' path).trans (resolve path)⟩

/-- A file system does with its files what it is asked to: what is read is what they hold, a file that is opened to write
    to it is empty, what is written goes to its end, and no other file changes. Devices and pipes are no such files. -/
structure Describes (view : View σ φ) (fs : FileSystem σ φ) : Prop where
  holds_of_reads {path : String} {d : σ} {bytes : List UInt8} (h : fs.Reads d path bytes) : view.Holds d path bytes
  holds_of_source {path : String} {d : σ} {s : Source} (h : fs.source path d = .ok s) (whole : s.fault? = none) :
    view.Holds d path s.stream
  create {path : String} {d after : σ} {file : φ} (h : fs.create path d = .ok (file, after)) :
    view.resolve path after = some file ∧ view.content file after = some [] ∧ view.OnlyChanges file d after
  write {file : φ} {d : σ} {held : List UInt8} (bytes : List UInt8) (h : view.content file d = some held) :
    view.content file (fs.write file bytes d) = some (held ++ bytes) ∧
      (∀ path, view.resolve path d = some file → view.resolve path (fs.write file bytes d) = some file) ∧
      view.OnlyChanges file d (fs.write file bytes d)

/-- What is written to a file that was opened for it is all that the file holds. -/
theorem Describes.write_of_create {view : View σ φ} {fs : FileSystem σ φ} (sound : view.Describes fs) {path : String}
    {d opened : σ} {file : φ} (h : fs.create path d = .ok (file, opened)) (bytes : List UInt8) :
    view.resolve path (fs.write file bytes opened) = some file ∧
      view.content file (fs.write file bytes opened) = some bytes ∧
      view.OnlyChanges file d (fs.write file bytes opened) := by
  obtain ⟨there, empty, made⟩ := sound.create h
  obtain ⟨held, stays, written⟩ := sound.write bytes empty
  exact ⟨stays path there, held, made.trans written⟩

end View

end

/-! ### One directory -/

namespace Directory
variable {d : Directory} {path name : String}

/-- A way that ends at a name ends there whatever files there are. -/
theorem follow_eq_file {inside : Bool} {names : List String} (h : d.follow inside names = .file name)
    (other : Directory) : other.follow inside names = .file name := by
  fun_induction follow d inside names with
  | case1 => cases h
  | case2 inside first rest hdot ih => rw [follow, if_pos hdot, ih h]
  | case3 inside rest hdot ih => rw [follow, if_neg hdot, if_pos rfl, ih h]
  | case4 => cases h
  | case5 first hdot hdots hfits =>
    rw [follow, if_neg hdot, if_neg hdots, if_pos rfl, if_neg hfits]
    exact h
  | _ => cases h

theorem locate_eq_file (h : d.locate path = .file name) (other : Directory) : other.locate path = .file name := by
  unfold locate at h ⊢
  split at h
  · cases h
  · rename_i hpath
    split at h
    · cases h
    · rename_i hsize
      rw [if_neg hpath, if_neg hsize, follow_eq_file h other]

theorem reads_iff {bytes : List UInt8} : system.Reads d path bytes ↔
    ∃ name, d.locate path = .file name ∧ Index.get? name d.files = some bytes := by
  show d.load path = .ok bytes ↔ _
  unfold load
  cases d.locate path with
  | directory | outside | slashed e | nowhere e => simp
  | file name => cases h : Index.get? name d.files <;> simp [h]

/-- A directory can be opened as a file can, but its first read fails. -/
theorem source_eq_ok_iff {s : Source} : system.source path d = .ok s ↔
    (∃ name bytes, d.locate path = .file name ∧ Index.get? name d.files = some bytes ∧ s = .ofBytes bytes) ∨
      d.locate path = .directory ∧ s = [.fail ⟨.other, FileError.isDirectory.message⟩] := by
  show d.source path = .ok s ↔ _
  unfold source
  cases d.locate path with
  | directory => simp [eq_comm]
  | outside | slashed e | nowhere e => simp
  | file name => cases h : Index.get? name d.files <;> simp [h, eq_comm]

theorem create_eq_ok_iff {file : String} {after : Directory} : system.create path d = .ok (file, after) ↔
    d.locate path = .file file ∧ after = ⟨Index.put file [] d.files⟩ := by
  show d.create path = .ok (file, after) ↔ _
  unfold create
  cases d.locate path with
  | directory | outside | slashed e | nowhere e => simp
  | file name =>
    simp only [Except.ok.injEq, Prod.mk.injEq, Place.file.injEq]
    constructor <;> rintro ⟨rfl, rfl⟩ <;> exact ⟨rfl, rfl⟩

/-- The files of a directory are its names. -/
def view : View Directory String where
  resolve path d :=
    match d.locate path with
    | .file name => some name
    | _ => none
  content name d := Index.get? name d.files

theorem resolve_view_eq_some_iff : view.resolve path d = some name ↔ d.locate path = .file name := by
  unfold view
  cases h : d.locate path <;> simp [h]

/-- A directory in which one name is given other bytes. -/
theorem onlyChanges_put (name : String) (bytes : List UInt8) (d : Directory) :
    view.OnlyChanges name d ⟨Index.put name bytes d.files⟩ := by
  refine fun other different => ⟨Index.get?_put_of_ne _ _ different, fun path => ?_⟩
  rw [resolve_view_eq_some_iff, resolve_view_eq_some_iff]
  exact ⟨fun h => locate_eq_file h d, fun h => locate_eq_file h _⟩

theorem describes_view : view.Describes system where
  holds_of_reads h := by
    obtain ⟨name, way, held⟩ := reads_iff.mp h
    exact ⟨name, resolve_view_eq_some_iff.mpr way, held⟩
  holds_of_source h whole := by
    rcases source_eq_ok_iff.mp h with ⟨name, bytes, way, held, rfl⟩ | ⟨-, rfl⟩
    · exact ⟨name, resolve_view_eq_some_iff.mpr way, (Source.stream_ofBytes bytes).symm ▸ held⟩
    · cases whole
  create h := by
    obtain ⟨way, rfl⟩ := create_eq_ok_iff.mp h
    exact ⟨resolve_view_eq_some_iff.mpr (locate_eq_file way _), Index.get?_put_self .., onlyChanges_put _ _ _⟩
  write {file d held} bytes h := by
    have there : Index.get? file d.files = some held := h
    have after : system.write file bytes d = ⟨Index.put file (held ++ bytes) d.files⟩ := by
      show write file bytes d = _
      rw [write, there, Option.getD_some]
    rw [after]
    refine ⟨Index.get?_put_self .., fun path way => ?_, onlyChanges_put _ _ _⟩
    exact resolve_view_eq_some_iff.mpr (locate_eq_file (resolve_view_eq_some_iff.mp way) _)

end Directory

end Chip8Disasm.Command
