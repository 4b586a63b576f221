/-!
# Why the disk refuses
-/

namespace FileSwarm

/-- Why a call on the disk failed. -/
inductive Cause where
  | notFound
  | alreadyExists
  | notDirectory
  | isDirectory
  | badDescriptor
  | busy
  | invalidArgument
  | fileTooLarge
  | illegalSeek
  | nameTooLong
  | nulInName
  | shortRead
  | lengthOutOfRange
  | notUtf8
deriving DecidableEq, Repr, Inhabited

namespace Cause

/-- The system's wording with its error number; the last four are not the system's. -/
def text : Cause → String
  | notFound => "No such file or directory (os error 2)"
  | alreadyExists => "File exists (os error 17)"
  | notDirectory => "Not a directory (os error 20)"
  | isDirectory => "Is a directory (os error 21)"
  | badDescriptor => "Bad file descriptor (os error 9)"
  | busy => "Device or resource busy (os error 16)"
  | invalidArgument => "Invalid argument (os error 22)"
  | fileTooLarge => "File too large (os error 27)"
  | illegalSeek => "Illegal seek (os error 29)"
  | nameTooLong => "File name too long (os error 36)"
  | nulInName => "file name contained an unexpected NUL byte"
  | shortRead => "failed to fill whole buffer"
  | lengthOutOfRange => "number too large to fit in target type"
  | notUtf8 => "stream did not contain valid UTF-8"

end Cause

end FileSwarm
