/-! The channel that printing writes to.
Every print adds a text and a line break; where they go is fixed when the channel is made. -/
namespace Treewalk

inductive Sink where
  /-- Keep the text, for whoever asks for it later. -/
  | buffer
  /-- Write the text to standard output. -/
  | stdout
  /-- Drop the text. -/
  | silent
deriving DecidableEq, Inhabited

/-- A sink and the text it has taken so far. For a buffer that is what it holds, for standard
output what has been written there. -/
structure Channel where
  sink : Sink
  text : String := ""
deriving Inhabited

namespace Channel

def println (c : Channel) (line : String) : Channel :=
  match c.sink with
  | .silent => c
  | .buffer | .stdout => { c with text := c.text ++ line ++ "\n" }

/-- The text a buffer holds; other sinks hold none. -/
def captured (c : Channel) : String :=
  match c.sink with
  | .buffer => c.text
  | .stdout | .silent => ""

def emitted (c : Channel) : String :=
  match c.sink with
  | .stdout => c.text
  | .buffer | .silent => ""

/-- Empty a buffer; other sinks have nothing to empty. -/
def clear (c : Channel) : Channel :=
  match c.sink with
  | .buffer => { c with text := "" }
  | .stdout | .silent => c

def mark (c : Channel) : String.Pos.Raw := c.text.rawEndPos

def since (c : Channel) (mark : String.Pos.Raw) : String := mark.extract c.text c.text.rawEndPos

end Channel
end Treewalk
