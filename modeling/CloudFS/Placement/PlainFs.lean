import CloudFS.Machinery.Machine
import CloudFS.Machinery.Posix.Fs
import CloudFS.Machinery.Table

/-!
# Placement/PlainFs — the plain file system

What `cloudfs` is for: paths with contents, and handles on them.  A read through a handle delivers
the bytes its path has, a write changes them, and closing a handle changes nothing.
-/

namespace PlainFs

open Posix

/-- The content of each path, and the path and flags of each open handle. -/
structure State where
  file : Name → Option Content
  handles : Table (Name × OpenFlags)

/-- What can be asked of a file system. -/
inductive Op
  | mknod (path : Name)
  | openFile (path : Name) (flags : OpenFlags)
  | read (h size offset : ℕ)
  | write (h : ℕ) (buf : Bytes) (offset : ℕ)
  | release (h : ℕ)
  | unlink (path : Name)
  | getattr (path : Name)
  | fgetattr (h : ℕ)
  | remount
  | tick

/-- What it answers. -/
inductive Out
  | done
  | handle (h : ℕ)
  | data (b : Bytes)
  | count (n : ℕ)
  | size (n : ℕ)
  | refused
  deriving DecidableEq

/-- No files. -/
def init : State := ⟨fun _ => none, Table.empty⟩

/-- The content of one path replaced. -/
def State.put (s : State) (path : Name) (c : Option Content) : State :=
  { s with file := Function.update s.file path c }

@[simp] theorem State.file_put_self (s : State) (path : Name) (c : Option Content) :
    (s.put path c).file path = c := Function.update_self ..

theorem State.file_put_of_ne (s : State) {path q : Name} (c : Option Content) (h : q ≠ path) :
    (s.put path c).file q = s.file q := Function.update_of_ne h ..

/-- An operation on the file a handle is open on. -/
def State.onHandle (s : State) (h : ℕ) (op : Name → OpenFlags → Content → State × Out) :
    State × Out :=
  match s.handles.get h with
  | none => (s, .refused)
  | some (path, flags) =>
    match s.file path with
    | none => (s, .refused)
    | some c => op path flags c

/-- One operation. -/
def step (s : State) : Op → State × Out
  | .mknod path =>
    match s.file path with
    | none => (s.put path (some Content.empty), .done)
    | some _ => (s, .refused)
  | .openFile path flags =>
    match s.file path with
    | none => (s, .refused)
    | some _ =>
      ({ s with handles := s.handles.alloc (path, flags) }, .handle s.handles.next)
  | .read h size offset => s.onHandle h fun _ flags c =>
    (s, if flags.readable then .data (c.bytes.slice offset size) else .refused)
  | .write h buf offset => s.onHandle h fun path flags c =>
    if flags.writable then
      match c.write (flags.landing c offset) buf with
      | some d => (s.put path (some d), .count buf.length)
      | none => (s, .refused)
    else (s, .refused)
  | .release h => s.onHandle h fun _ _ _ => ({ s with handles := s.handles.erase h }, .done)
  | .unlink path =>
    match s.file path with
    | none => (s, .refused)
    | some _ => (s.put path none, .done)
  | .getattr path =>
    match s.file path with
    | none => (s, .refused)
    | some c => (s, .size c.size)
  | .fgetattr h => s.onHandle h fun _ _ c => (s, .size c.size)
  | .remount => ({ s with handles := Table.empty }, .done)
  | .tick => (s, .done)

/-- No handle is open on `path`. -/
def State.Idle (s : State) (path : Name) : Prop :=
  ∀ h e, s.handles.get h = some e → e.1 ≠ path

instance (s : State) (path : Name) : Decidable (s.Idle path) :=
  decidable_of_iff (∀ h < s.handles.next, ∀ e ∈ s.handles.get h, e.1 ≠ path)
    ⟨fun hi h e he => hi h (Table.lt_next_of_get he) e he, fun hi h _ e he => hi h e he⟩

/-- The operations allowed: opens and unlinks of existing paths on which no handle is open, opens
with an access mode only, reads and writes through handles that allow them, and a remount while
nothing is open; all on paths that satisfy `proper`. -/
def Ok (proper : Name → Prop) (s : State) : Op → Prop
  | .mknod path => proper path
  | .openFile path flags =>
    proper path ∧ (s.file path).isSome ∧ s.Idle path ∧ flags.append = false
  | .read h _ _ => ∃ path flags, s.handles.get h = some (path, flags) ∧ flags.readable = true
  | .write h _ _ => ∃ path flags, s.handles.get h = some (path, flags) ∧ flags.writable = true
  | .release h => (s.handles.get h).isSome
  | .unlink path => proper path ∧ (s.file path).isSome ∧ s.Idle path
  | .getattr path => proper path
  | .fgetattr h => (s.handles.get h).isSome
  | .remount => ∀ h, s.handles.get h = none
  | .tick => True

end PlainFs
