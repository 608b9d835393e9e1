import Schematron.Document
import Schematron.File.Disk

/-!
# Writing documents into files

The file of a document is made together with the directories around it. Options
that cannot be used are refused before the disk is touched, and an error of the
disk names the path it arose at: the directory's or the file's.
-/

namespace Schematron

namespace Disk

/-- Makes the directories around the file of a path. -/
def makeParent (d : Disk) (path : String) : Outcome × Disk :=
  match FilePath.parent? path with
  | none => (.ok (), d)
  | some parent =>
    match d.makeDirectories parent with
    | (.ok (), d) => (.ok (), d)
    | (.error e, d) => (.error (.writeError parent e.message), d)

/-- Writes a document into the file of a path. -/
def writeDocument (d : Disk) (path : String) (o : OutputOptions) (document : Document) :
    Outcome × Disk :=
  match o.validate with
  | .error e => (.error e, d)
  | .ok () =>
    match d.makeParent path with
    | (.error e, d) => (.error e, d)
    | (.ok (), d) =>
      match d.createFile path with
      | .error e => (.error (.writeError path e.message), d)
      | .ok (location, d) =>
        let (outcome, buffer) := Markup.writeTo o document.toMarkup .unbounded
        (outcome, d.put location (.file buffer.text))

end Disk

end Schematron
