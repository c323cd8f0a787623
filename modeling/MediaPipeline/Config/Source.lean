import MediaPipeline.Config.File
import MediaPipeline.Stream

/-!
# Where the configuration comes from

A file named on the command line wins over one named in the environment, and that over the file of
the user. A named file need not exist.
-/

namespace MediaPipeline

inductive FileContent where
  | directory
  | bytes (data : Bytes)

/-- What a program is started with, as far as its configuration goes. -/
structure Launch where
  files : List (String × FileContent)
  argument : Option String
  environment : Option String

inductive ConfigSource where
  | file (name : String)
  /-- This file was named but does not exist. -/
  | missing (name : String)
  | defaults
  deriving DecidableEq, Repr

namespace Launch

/-- The file that the user keeps the configuration in. -/
def userFile : String := "xdg/frameline/config.toml"

/-- A part of a path that leads to no other place. -/
def staysPut (part : String) : Bool := part == "" || part == "."

def components (name : String) : List String := (name.splitOn "/").filter (! staysPut ·)

/-- What is at a place in the working directory. A directory exists as soon as something is in
it. -/
def entry? (l : Launch) (place : List String) : Option FileContent :=
  match l.files.find? fun (file, _) => components file == place with
  | some (_, content) => some content
  | none =>
    if place.isEmpty || l.files.any fun (file, _) => place.isPrefixOf (components file) then
      some .directory
    else none

/-- What a path leads to from outside the working directory, where only directories are known. -/
def outside? (parts : List String) : Option FileContent :=
  if parts.all fun part => staysPut part || part == ".." then some .directory else none

/-- What a path leads to from a place in the working directory. It goes on only from a directory
that exists, also where its next part leads back or nowhere. -/
def follow? (l : Launch) (place : List String) : List String → Option FileContent
  | [] => l.entry? place
  | part :: parts =>
    match l.entry? place with
    | some .directory =>
      if staysPut part then l.follow? place parts
      else if part == ".." then
        if place.isEmpty then outside? parts else l.follow? place.dropLast parts
      else l.follow? (place ++ [part]) parts
    | _ => none

def find? (l : Launch) (name : String) : Option FileContent :=
  let parts := name.splitOn "/"
  if name.startsWith "/" then outside? parts else l.follow? [] parts

/-- The file to read. An empty name in the environment counts as none. -/
def resolve (l : Launch) : Option String :=
  l.argument <|> l.environment.filter (· != "") <|>
    if (l.find? userFile).isSome then some userFile else none

def load (l : Launch) : Except ServiceError (Config × ConfigSource) :=
  match l.resolve with
  | none => .ok (.default, .defaults)
  | some name =>
    match l.find? name with
    | none => .ok (.default, .missing name)
    | some .directory => .error (.io "is a directory")
    | some (.bytes data) =>
      match String.fromUTF8? (ByteArray.mk data.toArray) with
      | none => .error (.io "not UTF-8")
      | some text => (Config.ofText text).map (·, .file name)

end Launch

end MediaPipeline
