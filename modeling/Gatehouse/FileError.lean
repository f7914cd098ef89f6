/-!
Why a file cannot be used.
-/
namespace Gatehouse

inductive FileError where
  | notFound
  | alreadyExists
  | notDirectory
  | isDirectory
  | noDevice
  | other (text : String)
  deriving DecidableEq, Repr, Inhabited

def FileError.message : FileError → String
  | .notFound => "No such file or directory (os error 2)"
  | .alreadyExists => "File exists (os error 17)"
  | .noDevice => "No such device (os error 19)"
  | .notDirectory => "Not a directory (os error 20)"
  | .isDirectory => "Is a directory (os error 21)"
  | .other text => text

end Gatehouse
