import MakeOutline.Files.Path

/-! # Failures on files

What an operation on files can fail with: a cause and the path that it concerns. -/

namespace MakeOutline

/-- Why an operation on a file fails. -/
inductive IoCause where
  /-- Nothing stands there. -/
  | notFound
  /-- The path names a directory by way of itself. -/
  | busy
  /-- A file stands where a directory is to be made. -/
  | fileExists
  /-- A file stands where the path goes on. -/
  | notDirectory
  /-- A directory stands where a file is asked for. -/
  | isDirectory
  /-- The path or one of its names is too long. -/
  | nameTooLong
  /-- The path holds the character zero. -/
  | nulInName
  /-- The bytes of the file are no text. -/
  | notText
  deriving DecidableEq, Repr

/-- A cause in words. -/
def IoCause.message : IoCause → Text
  | .notFound => "No such file or directory (os error 2)".toList
  | .busy => "Device or resource busy (os error 16)".toList
  | .fileExists => "File exists (os error 17)".toList
  | .notDirectory => "Not a directory (os error 20)".toList
  | .isDirectory => "Is a directory (os error 21)".toList
  | .nameTooLong => "File name too long (os error 36)".toList
  | .nulInName => "file name contained an unexpected NUL byte".toList
  | .notText => "stream did not contain valid UTF-8".toList

/-- A failed operation on a file. -/
structure IoError where
  /-- The path that could not be used. -/
  path : Path
  /-- Why not. -/
  cause : IoCause
  deriving DecidableEq, Repr

/-- A failure in words. -/
def IoError.message (e : IoError) : Text :=
  "I/O error at ".toList ++ e.path ++ ": ".toList ++ e.cause.message

end MakeOutline
