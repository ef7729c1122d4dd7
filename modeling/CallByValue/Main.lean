import CallByValue.Command.Program

/-!
# The executable

Reads the files that the command line names and the standard input where it is asked for, runs the
program on them, and writes what it leaves behind.
-/

namespace CallByValue

/-- The bytes of an array. -/
def textOfBytes (b : ByteArray) : Text := b.data.toList

/-- The array of some bytes. -/
def bytesOfText (t : Text) : ByteArray := ⟨t.toArray⟩

/-- Whether an error has a code of the operating system, which may be given as a negative number. -/
def hasCode (code n : UInt32) : Bool := code == n || -code == n

/-- Why a file could not be read. -/
def faultOfError : IO.Error → FileFault
  | .inappropriateType _ code _ => if hasCode code 21 then .isDirectory else .notDirectory
  | .invalidArgument _ code _ => if hasCode code 36 then .nameTooLong else .invalid
  | _ => .notFound

/-- The content of a file, or why there is none. -/
def readFile (name : String) : IO (Except FileFault Text) := do
  try
    return .ok (textOfBytes (← IO.FS.readBinFile name))
  catch e => return .error (faultOfError e)

/-- The files that words name. -/
def readFiles (words : List String) : IO Files := do
  let contents ← words.mapM fun w => do return (utf8 w, ← readFile w)
  return fun name => (contents.lookup name).getD (.error .notFound)

/-- Everything that is left in a stream. -/
partial def readStream (stream : IO.FS.Stream) (seen : Text) : IO Text := do
  let chunk ← stream.read 65536
  if chunk.isEmpty then return seen else readStream stream (seen ++ textOfBytes chunk)

end CallByValue

open CallByValue in
/-- Runs the program on the words of its command line. -/
def main (words : List String) : IO UInt32 := do
  let files ← readFiles words
  let args := words.map utf8
  let input ← if Command.readsInput args then readStream (← IO.getStdin) [] else pure []
  let r := Command.program files input args
  (← IO.getStdout).write (bytesOfText r.stdout)
  (← IO.getStderr).write (bytesOfText r.stderr)
  return UInt32.ofNat r.code
