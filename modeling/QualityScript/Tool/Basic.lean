import QualityScript.Ron.Token

/-!
# Printouts and disks

What a run of a tool prints and the code it ends with, and what it sees of a disk: a path leads to a
file with a text, to a folder with members, or to nothing. Paths are relative; `.` stands for the
folder itself and `..` for the one that holds it.
-/

namespace QualityScript.Tool

/-- The output, the error output and the exit code of a run. -/
structure Printout where
  code : Nat
  output : String
  errors : String
  deriving DecidableEq, Repr

/-- Lines of text, each with an end of line. -/
def lines (texts : List String) : String := String.join (texts.map (· ++ "\n"))

namespace Printout

def success (output : String) : Printout := ⟨0, output, ""⟩

def failure (errors : List String) : Printout := ⟨1, "", lines errors⟩

/-- The run after some output was written. -/
def after (output : String) (printout : Printout) : Printout :=
  { printout with output := output ++ printout.output }

/-- A run that was broken off: a challenge had caps that cannot be ordered, or an evaluation did not
end. -/
def broken (output : String) : Printout := ⟨101, output, lines ["the run was broken off"]⟩

end Printout

inductive Entry where
  | file (text : FileText)
  | folder (members : List (String × Entry))
  | missing

instance : Inhabited Entry := ⟨.missing⟩

abbrev Disk := String → Entry

namespace Entry

/-- The text of a file; anything else cannot be read. -/
def text : Entry → FileText
  | file text => text
  | folder _ | missing => none

def member : Entry → String → Entry
  | folder members, name => (members.lookup name).getD missing
  | file _, _ | missing, _ => missing

def isFolder : Entry → Bool
  | folder _ => true
  | file _ | missing => false

/-- Puts a member into a folder, in the order of names. -/
def putMember (name : String) (entry : Entry) :
    List (String × Entry) → List (String × Entry)
  | [] => [(name, entry)]
  | (n, e) :: rest =>
    if name < n then (name, entry) :: (n, e) :: rest
    else if name = n then (name, entry) :: rest
    else (n, e) :: putMember name entry rest

/-- Puts a file into a folder, in folders of its own where the path asks for them. -/
def put (text : String) (root : Entry) : List String → Entry
  | [] => file (some text)
  | name :: rest =>
    let members := match root with
      | folder members => members
      | file _ | missing => []
    folder (putMember name (put text (root.member name) rest) members)

/-- The steps of a path: `""` and `"."` stay, `".."` goes up. -/
def steps (path : String) : List String := (path.splitOn "/")

/-- Follows a path down from the innermost of some nested folders. -/
def follow : List Entry → List String → Entry
  | [], _ => missing
  | here :: _, [] => here
  | here :: above, step :: rest =>
    if !here.isFolder then missing
    else if step = "" ∨ step = "." then follow (here :: above) rest
    else if step = ".." then follow above rest
    else follow (here.member step :: here :: above) rest

end Entry

/-- The disk that holds only some files, given by path and text. -/
def Disk.ofFiles (files : List (String × String)) : Disk :=
  let root := files.foldl
    (fun root (path, text) => Entry.put text root (Entry.steps path)) (.folder [])
  fun path =>
    if path.isEmpty || path.startsWith "/" then .missing else Entry.follow [root] (Entry.steps path)

end QualityScript.Tool
