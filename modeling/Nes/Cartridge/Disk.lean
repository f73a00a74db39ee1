import Nes.Cartridge.Image

/-!
# Disks

A path leads to a file through the names between its slashes. An empty name and `.` stay in the
directory that was reached, and `..` goes up. A disk here holds files in its root directory and
nothing else, and a path that does not begin with a slash starts in an empty directory.

A path that cannot be a path at all is refused before it is followed, and a name that is too long
where it would be looked up. So a long name behind one that is missing does no harm.

Results:

* `lookup_root`: a file in the root directory is found by its name behind a slash.
-/

namespace Nes

/-- A disk, as the files in its root directory. -/
structure Disk where
  files : List (String × Array UInt8) := []

namespace Disk

/-- The size in bytes that a name can have. -/
def nameLimit : Nat := 255

/-- The size in bytes that a path can have. -/
def pathLimit : Nat := 4095

/-- A path or one of its names has more bytes than it can have. -/
def nameTooLong : FileContents := .unreadable "File name too long (os error 36)"

/-- The path ends at a directory. -/
def isDirectory : FileContents := .unreadable "Is a directory (os error 21)"

/-- The path goes on after a file. -/
def notDirectory : FileContents := .unreadable "Not a directory (os error 20)"

/-- The path holds a character that ends texts. -/
def hasNul : FileContents := .unreadable "file name contained an unexpected NUL byte"

/-- The name leads from a directory to one that is always there. -/
def isStep (name : String) : Bool := name == "" || name == "." || name == ".."

/-- What names lead to, one after the other, in a directory that holds `files`. -/
def follow (files : List (String × Array UInt8)) : List String → FileContents
  | [] => isDirectory
  | name :: rest =>
    if isStep name then follow files rest
    else if nameLimit < name.utf8ByteSize then nameTooLong
    else match files.lookup name with
      | none => .missing
      | some image => if rest.isEmpty then .bytes image else notDirectory

/-- What a path leads to. -/
def lookup (disk : Disk) (path : String) : FileContents :=
  if path.toList.contains '\x00' then hasNul
  else if path == "" then .missing
  else if pathLimit < path.utf8ByteSize then nameTooLong
  else follow (if path.toList.head? == some '/' then disk.files else [])
    ((path.toList.splitOn '/').map String.ofList)

/-! ## The root directory -/

/-- A name that a file can have: it holds no slash and no character that ends texts, leads to no
    directory and is not too long. -/
structure IsName (name : String) : Prop where
  notMem_slash : '/' ∉ name.toList
  notMem_nul : '\x00' ∉ name.toList
  isStep_eq : isStep name = false
  size_le : name.utf8ByteSize ≤ nameLimit

theorem lookup_root {disk : Disk} {name : String} {image : Array UInt8} (hname : IsName name)
    (h : disk.files.lookup name = some image) : disk.lookup ("/" ++ name) = .bytes image := by
  have hpath : ("/" ++ name).toList = '/' :: name.toList := String.toList_append
  have hnul : ('/' :: name.toList).contains '\x00' = false := by
    simpa using hname.notMem_nul
  have hempty : ("/" ++ name == "") = false := by
    rw [beq_eq_false_iff_ne, Ne, ← String.toList_inj, hpath]
    exact List.cons_ne_nil _ _
  have hsize : ¬pathLimit < ("/" ++ name).utf8ByteSize := by
    have hle := hname.size_le
    have hslash : "/".utf8ByteSize = 1 := by decide
    rw [String.utf8ByteSize_append, hslash, pathLimit]
    rw [nameLimit] at hle
    omega
  have hnames : (('/' :: name.toList).splitOn '/').map String.ofList = ["", name] := by
    have hparts : ∀ part ∈ [[], name.toList], '/' ∉ part := by
      simpa using hname.notMem_slash
    have hsplit := List.splitOn_intercalate '/' hparts (List.cons_ne_nil _ _)
    rw [List.intercalate_cons_cons, List.intercalate_singleton] at hsplit
    simpa using congrArg (List.map String.ofList) hsplit
  have hstep : isStep "" = true := by decide
  rw [lookup, hpath, hnul, hempty, hnames]
  simp only [Bool.false_eq_true, if_false, hsize, List.head?_cons, BEq.rfl, if_true, follow, hstep,
    hname.isStep_eq, Nat.not_lt.2 hname.size_le, h, List.isEmpty_nil]

end Disk

end Nes
