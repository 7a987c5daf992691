namespace PackageSheet

/-- Why a text cannot be read. Memory knows one reason, a disk the others. -/
inductive ReadFailure where
  | notHeld
  | missing
  | notDirectory
  | isDirectory
  | nameTooLong
  | nulByte
  | notText
deriving DecidableEq

/-- The wording of a reason. -/
def ReadFailure.text : ReadFailure → String
  | .notHeld => "mock: no such file"
  | .missing => "No such file or directory (os error 2)"
  | .notDirectory => "Not a directory (os error 20)"
  | .isDirectory => "Is a directory (os error 21)"
  | .nameTooLong => "File name too long (os error 36)"
  | .nulByte => "file name contained an unexpected NUL byte"
  | .notText => "stream did not contain valid UTF-8"

end PackageSheet
