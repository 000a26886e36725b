/-
The chunks of a text leave nothing out.

A window that is not the last one ends within `snapWindow` characters of its hard limit,
so the window after it begins `chunkOverlap` characters before that end.  A passage no
longer than the overlap therefore lies inside the first window that does not end before
it, and stripping the window does not reach into it, as it neither begins nor ends with
whitespace.
-/
import Orqent.Memory.Offsets

namespace Orqent

/-! ### Windows -/

section Windows

variable {text : Text} {start stop a b : Nat}

theorem slice_length : (slice text a b).length = min b text.length - a := by
  simp [slice]

/-- What lies between two places of a window lies in the window. -/
theorem slice_isInfix (ha : start ≤ a) (hb : b ≤ stop) :
    slice text a b <:+: slice text start stop := by
  have htake : text.take b <+: text.take stop := List.take_prefix_take_left hb
  have hdrop : (text.take b).drop a <:+ (text.take b).drop start := by
    obtain ⟨n, rfl⟩ := Nat.exists_eq_add_of_le ha
    rw [← List.drop_drop]
    exact List.drop_suffix ..
  obtain ⟨rest, hrest⟩ := htake
  have hleads : (text.take b).drop start <+: slice text start stop := by
    unfold slice
    rw [← hrest, List.drop_append]
    exact List.prefix_append ..
  exact hdrop.isInfix.trans hleads.isInfix

/-- A passage lies somewhere. -/
theorem exists_slice {sub : Text} (h : sub <:+: text) :
    ∃ a, a + sub.length ≤ text.length ∧ slice text a (a + sub.length) = sub := by
  obtain ⟨front, back, rfl⟩ := h
  refine ⟨front.length, by simp, ?_⟩
  unfold slice
  rw [← List.length_append, List.take_left, List.drop_left]

theorem rfindSpace_mem {window : Nat} (h : rfindSpace text a b = some window) :
    a ≤ window ∧ window < b := by
  have hmem := List.mem_of_find?_eq_some h
  rw [List.mem_reverse, List.mem_range'_1] at hmem
  omega

theorem boundary_le : boundary text start ≤ start + chunkSize := by
  unfold boundary
  dsimp only
  split
  · exact Nat.min_le_left ..
  · split
    · rename_i window hwindow
      have hmem := rfindSpace_mem hwindow
      split <;> omega
    · exact Nat.min_le_left ..

/-- **A window that is not the last one ends near its hard limit.** -/
theorem le_boundary (h : boundary text start < text.length) :
    start + chunkSize ≤ boundary text start + snapWindow := by
  unfold boundary at h ⊢
  dsimp only at h ⊢
  split at h
  · omega
  · rename_i hhard
    rw [if_neg hhard]
    split
    · rename_i window hwindow
      have hmem := rfindSpace_mem hwindow
      split <;> omega
    · omega

end Windows

/-! ### The loop -/

section Loop

variable {text : Text} {start ordinal : Nat}

/-- Every chunk is what is left of a window. -/
theorem mem_emittedChunk {c : Chunk} (hc : c ∈ emittedChunk text start ordinal) :
    Trimmed c.text ∧ c.text.length ≤ chunkSize := by
  unfold emittedChunk at hc
  dsimp only at hc
  split at hc
  · simp at hc
  · rename_i hpiece
    rw [List.mem_singleton.mp hc]
    refine ⟨strip_trimmed (by simpa using hpiece), ?_⟩
    have hstrip : (strip (slice text start (boundary text start))).length ≤
        (slice text start (boundary text start)).length := strip_length_le
    have hboundary : boundary text start ≤ start + chunkSize := boundary_le
    rw [slice_length] at hstrip
    show (strip (slice text start (boundary text start))).length ≤ chunkSize
    omega

theorem mem_chunkLoop {c : Chunk} (hc : c ∈ chunkLoop text start ordinal) :
    Trimmed c.text ∧ c.text.length ≤ chunkSize := by
  induction start, ordinal using chunkLoop.induct text with
  | case1 start ordinal hlt stop hend =>
      rw [chunkLoop_eq text ordinal hlt, if_pos hend, List.append_nil] at hc
      exact mem_emittedChunk hc
  | case2 start ordinal hlt stop piece emitted hend ih =>
      rw [chunkLoop_eq text ordinal hlt, if_neg hend] at hc
      rcases List.mem_append.mp hc with hc | hc
      · exact mem_emittedChunk hc
      · exact ih hc
  | case3 start ordinal hlt =>
      rw [chunkLoop, if_neg hlt] at hc
      simp at hc

/-- A trimmed passage within a window is within its chunk. -/
theorem emittedChunk_covers (ordinal : Nat) {sub : Text} (ht : Trimmed sub)
    (h : sub <:+: window text start) :
    ∃ c ∈ emittedChunk text start ordinal, sub <:+: c.text := by
  have hkept : sub <:+: strip (window text start) := ht.isInfix_strip h
  have hpiece : strip (window text start) ≠ [] := by
    intro hnil
    rw [hnil] at hkept
    exact ht.1 (List.infix_nil.mp hkept)
  refine ⟨⟨ordinal, strip (window text start), start⟩, ?_, hkept⟩
  unfold emittedChunk
  dsimp only
  rw [show slice text start (boundary text start) = window text start from rfl,
    if_neg (by simpa using hpiece)]
  exact List.mem_singleton_self _

/-- **The loop covers what begins at its start or later.**  The first window that does not
end before the passage contains it. -/
theorem chunkLoop_covers {a b : Nat} (hstart : start ≤ a) (hb : b ≤ text.length)
    (hlen : b ≤ a + chunkOverlap) (ht : Trimmed (slice text a b)) :
    ∃ c ∈ chunkLoop text start ordinal, slice text a b <:+: c.text := by
  have hpos : a < b := by
    have hlength := List.length_pos_iff.mpr ht.1
    rw [slice_length] at hlength
    omega
  induction start, ordinal using chunkLoop.induct text with
  | case1 start ordinal hlt stop hend =>
      rw [chunkLoop_eq text ordinal hlt, if_pos hend, List.append_nil]
      exact emittedChunk_covers ordinal ht (slice_isInfix hstart (Nat.le_trans hb hend))
  | case2 start ordinal hlt stop piece emitted hend ih =>
      rw [chunkLoop_eq text ordinal hlt, if_neg hend]
      by_cases hin : b ≤ boundary text start
      · obtain ⟨c, hc, hsub⟩ := emittedChunk_covers ordinal ht (slice_isInfix hstart hin)
        exact ⟨c, List.mem_append_left _ hc, hsub⟩
      · have hnext : max (boundary text start - chunkOverlap) (start + 1) ≤ a := by
          have hnear : start + chunkSize ≤ boundary text start + snapWindow :=
            le_boundary (by omega)
          unfold chunkSize snapWindow at hnear
          unfold chunkOverlap at hlen ⊢
          omega
        obtain ⟨c, hc, hsub⟩ := ih hnext
        exact ⟨c, List.mem_append_right _ hc, hsub⟩
  | case3 start ordinal hlt => omega

end Loop

/-! ### The text that was passed in -/

section Document

variable {text : Text}

theorem mem_chunkText {c : Chunk} (hc : c ∈ chunkText text) :
    Trimmed c.text ∧ c.text.length ≤ chunkSize := by
  unfold chunkText at hc
  dsimp only at hc
  split at hc
  · simp at hc
  · rename_i hsome
    split at hc
    · rename_i hone
      rw [List.mem_singleton.mp hc]
      exact ⟨strip_trimmed (by simpa using hsome), hone⟩
    · exact mem_chunkLoop hc

theorem chunkText_eq_nil_iff : chunkText text = [] ↔ strip text = [] := by
  constructor
  · intro h
    by_contra hne
    obtain ⟨c, hc, -⟩ := exists_first_chunk hne
    simp [h] at hc
  · intro h
    simp [chunkText, h]

theorem chunkText_isInfix {sub : Text} (h : sub <:+: strip text) (hlen : sub.length ≤ chunkOverlap)
    (ht : Trimmed sub) : ∃ c ∈ chunkText text, sub <:+: c.text := by
  have hne : strip text ≠ [] := by
    intro hnil
    rw [hnil] at h
    exact ht.1 (List.infix_nil.mp h)
  unfold chunkText
  dsimp only
  rw [if_neg (by simpa using hne)]
  split
  · exact ⟨_, List.mem_singleton_self _, h⟩
  · obtain ⟨a, hfits, hsub⟩ := exists_slice h
    rw [← hsub] at ht ⊢
    exact chunkLoop_covers (Nat.zero_le a) hfits (by omega) ht

/--
**The chunks cover the document.**  They are numbered from zero without gaps; each is
something, trimmed and no longer than a chunk may be; there are none exactly when the
text is blank; and a passage of the stripped text no longer than the overlap, with no
whitespace at its ends, is within one of them.
-/
theorem chunkText_covers (text : Text) :
    (chunkText text).map Chunk.ordinal = List.range (chunkText text).length ∧
      (∀ c ∈ chunkText text, Trimmed c.text ∧ c.text.length ≤ chunkSize) ∧
      (chunkText text = [] ↔ ∀ c ∈ text, isSpace c = true) ∧
      ∀ sub, sub <:+: strip text → sub.length ≤ chunkOverlap → Trimmed sub →
        ∃ c ∈ chunkText text, sub <:+: c.text := by
  refine ⟨chunkText_ordinals text, fun c => mem_chunkText, ?_, fun sub => chunkText_isInfix⟩
  rw [chunkText_eq_nil_iff, strip_eq_nil_iff]

end Document

end Orqent
