import QualityScript.Lint
import QualityScript.Tool.Basic

/-!
# Linting content files

The tool loads one content file, or every content file in a folder and the folders in it, lints what
it loaded and prints the report. A file of a folder that cannot be loaded is named and passed over.
-/

namespace QualityScript.Tool.Linter

open Content

def usage : String := "Usage: content_linter <content.ron | content_dir>"

/-- Whether a file name ends in the extension of content files. -/
def isContentName (name : String) : Bool := name.endsWith ".ron" && name != ".ron"

def joinPath (folder name : String) : String :=
  if folder.endsWith "/" then folder ++ name else folder ++ "/" ++ name

mutual

def contentFiles (path : String) : Entry → List (String × FileText)
  | .folder members => memberFiles path members
  | .file _ | .missing => []

def memberFiles (path : String) : List (String × Entry) → List (String × FileText)
  | [] => []
  | (name, .file text) :: rest =>
    (if isContentName name then [(joinPath path name, text)] else []) ++ memberFiles path rest
  | (name, entry) :: rest => contentFiles (joinPath path name) entry ++ memberFiles path rest

end

/-- A library with what was printed while it was loaded. -/
structure Loaded where
  library : Library
  output : List String
  errors : List String

/-- Lays a content file over what was loaded before it. -/
def Loaded.add (loaded : Loaded) (path : String) (text : FileText) : Loaded :=
  match Library.ofFile text with
  | .ok library =>
    { loaded with
      library := loaded.library.merge library
      output := loaded.output ++ ["  Loaded: " ++ path] }
  | .error error =>
    { loaded with errors := loaded.errors ++ ["  ERROR loading " ++ path ++ ": " ++ error.message] }

def load (path : String) (entry : Entry) : Except String Loaded :=
  match entry with
  | .file text =>
    match Library.ofFile text with
    | .ok library => .ok ⟨Library.empty.merge library, [], []⟩
    | .error error => .error ("ERROR: Failed to load content file: " ++ error.message)
  | .folder members =>
    .ok ((contentFiles path (.folder members)).foldl
      (fun loaded (path, text) => loaded.add path text) ⟨.empty, [], []⟩)
  | .missing => .error ("ERROR: Path '" ++ path ++ "' does not exist")

def reportLines (report : Lint.Report) : List String :=
  ["", "=== Content Lint Report ===", ""]
    ++ (if report.isClean then ["All checks passed!"] else [])
    ++ report.warnings.map ("WARNING: " ++ ·)
    ++ report.errors.map ("ERROR: " ++ ·)
    ++ ["", "Summary: " ++ toString report.errors.length ++ " errors, "
      ++ toString report.warnings.length ++ " warnings"]

def Loaded.lint (fuel : Nat) (loaded : Loaded) : Printout :=
  let library := loaded.library
  let head := loaded.output
    ++ ["Loaded " ++ toString library.qualities.length ++ " qualities and "
      ++ toString library.events.length ++ " events"]
  match Lint.check fuel library with
  | .error _ => .broken (lines head)
  | .ok report =>
    { code := if report.errors.isEmpty then 0 else 1
      output := lines (head ++ reportLines report)
      errors := lines loaded.errors }

/-- The whole tool. Only the first argument counts. -/
def run (fuel : Nat) (disk : Disk) (arguments : List String) : Printout :=
  match arguments with
  | [] => .success (lines [usage])
  | path :: _ =>
    if path = "--help" ∨ path = "-h" then .success (lines [usage])
    else
      match load path (disk path) with
      | .error message => .failure [message]
      | .ok loaded => loaded.lint fuel

end QualityScript.Tool.Linter
