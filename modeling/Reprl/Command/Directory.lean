import Reprl.SystemError
import Reprl.Text.Utf8

/-! A directory of files as the current directory of a program, and what reading a
path in it gives. -/

namespace Reprl

open Reprl.Text (Bytes)

inductive ReadError where
  | system (error : SystemError)
  | nulInName
  | notText
  deriving DecidableEq, Repr

def ReadError.message : ReadError → String
  | .system e => e.message
  | .nulInName => "file name contained an unexpected NUL byte"
  | .notText => "stream did not contain valid UTF-8"

/-- Files by the parts of their paths. -/
structure Directory where
  files : List (List String × Bytes) := []

namespace Directory

inductive Kind where
  | file (contents : Bytes)
  | directory
  | missing

def parts (path : String) : List String := path.splitOn "/"

def ofFiles (files : List (String × Bytes)) : Directory :=
  ⟨files.map fun f => (parts f.1, f.2)⟩

def kind (d : Directory) (place : List String) : Kind :=
  match d.files.find? (·.1 = place) with
  | some f => .file f.2
  | none =>
    if place.isEmpty || d.files.any (place.isPrefixOf ·.1) then .directory else .missing

/-- Follows the parts of a path. Only directories have further parts. -/
def follow (d : Directory) (place : List String) : List String → Except SystemError Bytes
  | [] =>
    match d.kind place with
    | .file contents => .ok contents
    | .directory => .error .isDirectory
    | .missing => .error .notFound
  | part :: rest =>
    match d.kind place with
    | .file _ => .error .notDirectory
    | .missing => .error .notFound
    | .directory =>
      if part = "" ∨ part = "." then d.follow place rest
      else if part = ".." then d.follow place.dropLast rest
      else if nameLimit < part.utf8ByteSize then .error .nameTooLong
      else d.follow (place ++ [part]) rest

def open? (d : Directory) (path : String) : Except SystemError Bytes :=
  if path = "" then .error .notFound
  else if path.toList.all (· = '/') then .error .isDirectory
  else if path.toList.head? = some '/' then .error .notFound
  else d.follow [] (parts path)

def read (d : Directory) (path : String) : Except ReadError Bytes :=
  if path.toList.contains '\x00' then .error .nulInName
  else
    match d.open? path with
    | .ok contents => .ok contents
    | .error e => .error (.system e)

end Directory

end Reprl
