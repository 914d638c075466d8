import Banked8085.Word

/-! # Files

Programs see the files around them through what reading and writing a path gives:

* `FileError`: why a file could not be used, and its message;
* `FileReader`: what reading each path gives;
* `FileSystem`: reading and writing, where a write may change what later reads give;
* `readImage`: a memory image, which is a file that is read as a whole before anything is loaded and
  must not be empty.
-/

namespace Banked8085
set_option autoImplicit false

inductive FileError
  | notFound
  | notDirectory
  | isDirectory
  | nameTooLong
  | nulInPath
  | notText
  | other (description : String)
deriving DecidableEq, Repr, Inhabited

def FileError.message : FileError → String
  | .notFound => "No such file or directory (os error 2)"
  | .notDirectory => "Not a directory (os error 20)"
  | .isDirectory => "Is a directory (os error 21)"
  | .nameTooLong => "File name too long (os error 36)"
  | .nulInPath => "file name contained an unexpected NUL byte"
  | .notText => "stream did not contain valid UTF-8"
  | .other description => description

/-- The whole content of the file at a path, or why it cannot be read. -/
abbrev FileReader := String → Except FileError (List Byte)

/-- Files whose state is of type `σ`. A write gives the state after it, also when it has failed. -/
structure FileSystem (σ : Type) where
  read : σ → FileReader
  write : σ → String → List Byte → Except FileError Unit × σ

/-! ## Images -/

inductive ImageKind
  | bios | program
deriving DecidableEq, Repr, Inhabited

def ImageKind.label : ImageKind → String
  | .bios => "BIOS"
  | .program => "binary"

inductive ImageError
  | unreadable (kind : ImageKind) (path : String) (cause : FileError)
  | empty (kind : ImageKind) (path : String)
deriving DecidableEq, Repr, Inhabited

def ImageError.message : ImageError → String
  | .unreadable kind path cause =>
    "failed to read " ++ kind.label ++ " '" ++ path ++ "': " ++ cause.message
  | .empty kind path => kind.label ++ " '" ++ path ++ "' is empty"

/-- The bytes of the image at `path`, of which there is at least one. -/
def readImage (files : FileReader) (kind : ImageKind) (path : String) :
    Except ImageError (List Byte) :=
  match files path with
  | .error cause => .error (.unreadable kind path cause)
  | .ok [] => .error (.empty kind path)
  | .ok content => .ok content

end Banked8085
