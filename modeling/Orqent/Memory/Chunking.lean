/-
Splitting a document into chunks.

Windows of at most `chunkSize` characters, each ending at a space where one is near,
and each starting `chunkOverlap` characters before the last one ended.  The loop
moves forward by at least one character, so it ends.
-/
import Orqent.Lib.Text

namespace Orqent

/-! ### Slices -/

/-- `text[start:end]`. -/
def slice (text : Text) (start stop : Nat) : Text := (text.take stop).drop start

/-- `text.rfind(" ", start, end)`, with `none` for -1. -/
def rfindSpace (text : Text) (start stop : Nat) : Option Nat :=
  (List.range' start (stop - start)).reverse.find? fun i => text[i]? = some ' '

/-! ### Chunks -/

/-- How long a chunk may be. -/
def chunkSize : Nat := 1000

/-- How far a chunk reaches back into the one before. -/
def chunkOverlap : Nat := 200

/-- How far back a space is looked for. -/
def snapWindow : Nat := 100

/-- One chunk: its position in the document, its text, and where that starts. -/
structure Chunk where
  ordinal : Nat
  text : Text
  start : Nat
deriving DecidableEq, Repr

/-- Where the chunk says it ends. -/
def Chunk.stop (c : Chunk) : Nat := c.start + c.text.length

/-- Where the chunk beginning at `start` should end. -/
def boundary (text : Text) (start : Nat) : Nat :=
  let hard := min (start + chunkSize) text.length
  if text.length ≤ hard then hard
  else
    match rfindSpace text (hard - snapWindow) hard with
    | some window => if start < window then window else hard
    | none => hard

/-- The loop over the stripped text; `ordinal` chunks are there already. -/
def chunkLoop (text : Text) (start ordinal : Nat) : List Chunk :=
  if start < text.length then
    let stop := boundary text start
    let piece := strip (slice text start stop)
    let emitted := if piece.isEmpty then [] else [⟨ordinal, piece, start⟩]
    if text.length ≤ stop then emitted
    else emitted ++ chunkLoop text (max (stop - chunkOverlap) (start + 1))
      (ordinal + emitted.length)
  else []
termination_by text.length - start
decreasing_by
  have hforward := le_max_right (boundary text start - chunkOverlap) (start + 1)
  omega

/-- Split a text into overlapping chunks, in order. -/
def chunkText (text : Text) : List Chunk :=
  let stripped := strip text
  if stripped.isEmpty then []
  else if stripped.length ≤ chunkSize then [⟨0, stripped, 0⟩]
  else chunkLoop stripped 0 0

/-! ### Ordinals -/

/-- What one turn of the loop emits. -/
def emittedChunk (text : Text) (start ordinal : Nat) : List Chunk :=
  let piece := strip (slice text start (boundary text start))
  if piece.isEmpty then [] else [⟨ordinal, piece, start⟩]

theorem chunkLoop_eq (text : Text) {start : Nat} (ordinal : Nat) (h : start < text.length) :
    chunkLoop text start ordinal =
      emittedChunk text start ordinal ++
        if text.length ≤ boundary text start then []
        else chunkLoop text (max (boundary text start - chunkOverlap) (start + 1))
          (ordinal + (emittedChunk text start ordinal).length) := by
  rw [chunkLoop, if_pos h]
  show (if _ then emittedChunk text start ordinal else _) = _
  split
  · rw [List.append_nil]
  · rfl

theorem emittedChunk_ordinals (text : Text) (start ordinal : Nat) :
    (emittedChunk text start ordinal).map Chunk.ordinal =
      List.range' ordinal (emittedChunk text start ordinal).length := by
  unfold emittedChunk
  dsimp only
  split <;> rfl

theorem chunkLoop_ordinals (text : Text) (start ordinal : Nat) :
    (chunkLoop text start ordinal).map Chunk.ordinal =
      List.range' ordinal (chunkLoop text start ordinal).length := by
  induction start, ordinal using chunkLoop.induct text with
  | case1 start ordinal hlt stop hend =>
      rw [chunkLoop_eq text ordinal hlt, if_pos hend, List.append_nil]
      exact emittedChunk_ordinals text start ordinal
  | case2 start ordinal hlt stop piece emitted hend ih =>
      rw [chunkLoop_eq text ordinal hlt, if_neg hend, List.map_append, List.length_append,
        emittedChunk_ordinals, ← List.range'_append_1]
      exact congrArg _ ih
  | case3 start ordinal hlt =>
      rw [chunkLoop, if_neg hlt]
      rfl

/-- **The chunks are numbered from zero, without gaps.** -/
theorem chunkText_ordinals (text : Text) :
    (chunkText text).map Chunk.ordinal = List.range (chunkText text).length := by
  unfold chunkText
  dsimp only
  split
  · rfl
  · split
    · rfl
    · rw [chunkLoop_ordinals, List.range_eq_range']

end Orqent
