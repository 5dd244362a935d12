/-!
The ways in which an operation on files can fail.
-/

namespace IlSplice

/-- The reason that the operating system gives for a failed file operation. -/
inductive DiskError where
  | notFound
  | notDirectory
  | isDirectory
  | busy
  | noDevice
  | readOnly
  | noSpace
  | nameTooLong
  /-- Any other reason, in the system's words. -/
  | other (text : String)
  deriving DecidableEq, Repr

/-- The reason in words. -/
def DiskError.message : DiskError → String
  | .notFound => "No such file or directory (os error 2)"
  | .notDirectory => "Not a directory (os error 20)"
  | .isDirectory => "Is a directory (os error 21)"
  | .busy => "Device or resource busy (os error 16)"
  | .noDevice => "No such device (os error 19)"
  | .readOnly => "Read-only file system (os error 30)"
  | .noSpace => "No space left on device (os error 28)"
  | .nameTooLong => "File name too long (os error 36)"
  | .other text => text

end IlSplice
