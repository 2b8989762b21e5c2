import LiterateFun.Position

/-!
This module contains line buffers, through which the standard output is written. Whole lines are
passed on at once, and the start of a line is held back until the rest of it comes, the buffer is
full or the output ends. What is written past the buffer can therefore come in front of it.
-/

namespace LiterateFun

structure LineBuffer where
  /-- The text that was passed on. -/
  written : String := ""
  /-- The text that is held back. -/
  held : String := ""
deriving DecidableEq, Repr

namespace LineBuffer

def capacity : Nat := 1024

/-- All of the text, in the order in which it is passed on if the output ends here. -/
def contents (b : LineBuffer) : String :=
  b.written ++ b.held

def pass (b : LineBuffer) (text : String) : LineBuffer :=
  { b with written := b.written ++ text }

def flush (b : LineBuffer) : LineBuffer where
  written := b.contents

/--
Hold a text back. If there is no room for it, the text that was held back before is passed on, and a
text that fills the buffer on its own is passed on as well.
-/
def hold (b : LineBuffer) (text : String) : LineBuffer :=
  if Text.byteSize (b.held ++ text).toList ≤ capacity ∧ Text.byteSize text.toList < capacity then
    { b with held := b.held ++ text }
  else if Text.byteSize text.toList < capacity then
    { b.flush with held := text }
  else
    b.flush.pass text

def splitLines (text : String) : String × String :=
  let reversed := text.toList.reverse
  (String.ofList (reversed.dropWhile (· ≠ '\n')).reverse,
    String.ofList (reversed.takeWhile (· ≠ '\n')).reverse)

def write (b : LineBuffer) (text : String) : LineBuffer :=
  if (splitLines text).1 = "" then
    b.hold text
  else
    (b.flush.pass (splitLines text).1).hold (splitLines text).2

theorem splitLines_append (text : String) :
    (splitLines text).1 ++ (splitLines text).2 = text := by
  rw [splitLines, ← String.ofList_append, ← List.reverse_append, List.takeWhile_append_dropWhile]
  simp

theorem contents_hold (b : LineBuffer) (text : String) :
    (b.hold text).contents = b.contents ++ text := by
  unfold hold
  split
  · simp [contents, String.append_assoc]
  · split
    · simp [contents, flush]
    · simp [contents, flush, pass]

theorem contents_write (b : LineBuffer) (text : String) :
    (b.write text).contents = b.contents ++ text := by
  unfold write
  split
  · apply contents_hold
  · rw [contents_hold]
    simp only [contents, pass, flush, String.append_empty]
    rw [String.append_assoc, splitLines_append]

end LineBuffer

end LiterateFun
