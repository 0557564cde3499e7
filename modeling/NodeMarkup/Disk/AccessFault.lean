import NodeMarkup.Text.Basic

namespace NodeMarkup.Disk

/-- What can go wrong with files. -/
inductive AccessFault where
  | notFound
  | alreadyExists
  | notDirectory
  | isDirectory
  -- A name in a path, or the path as a whole, has too many bytes.
  | nameTooLong
  -- The path holds a NUL, so it can name nothing.
  | nulInName
  -- The content is not UTF-8.
  | invalidText
  -- A fault of the machine in its own words.
  | other (words : Text)
deriving DecidableEq, Repr, Inhabited

def AccessFault.message : AccessFault → Text
  | notFound => "No such file or directory (os error 2)".toList
  | alreadyExists => "File exists (os error 17)".toList
  | notDirectory => "Not a directory (os error 20)".toList
  | isDirectory => "Is a directory (os error 21)".toList
  | nameTooLong => "File name too long (os error 36)".toList
  | nulInName => "file name contained an unexpected NUL byte".toList
  | invalidText => "stream did not contain valid UTF-8".toList
  | other words => words

end NodeMarkup.Disk
